import Trellis.Proofs.Settled

/-! Which units a scale gets its domain from. A view offers a scale for a channel when units under
it show the channel and every layer or facet on the way shares it; the first scale decides whether
the domain is one of values, and else the data of all is united. -/
namespace Trellis

namespace ScaleDomain

/-- The datasets that a domain reads. -/
def sources : ScaleDomain → List String
  | values _ => []
  | data refs => refs.map DataRef.data

theorem mem_appendNew {refs others : List DataRef} {r : DataRef} :
    r ∈ appendNew refs others ↔ r ∈ refs ∨ r ∈ others := by
  induction others generalizing refs with
  | nil => simp [appendNew]
  | cons o rest ih =>
    rw [appendNew, ih, List.mem_cons]
    by_cases hc : refs.contains o = true
    · rw [if_pos hc]
      have ho : o ∈ refs := List.contains_iff_mem.mp hc
      constructor
      · rintro (h | h)
        · exact .inl h
        · exact .inr (.inr h)
      · rintro (h | rfl | h)
        · exact .inl h
        · exact .inl ho
        · exact .inr h
    · rw [if_neg hc, List.mem_append, List.mem_singleton, or_assoc]

/-- References that are put together read the datasets of both sides. -/
theorem appendNew_data {refs others : List DataRef} (d : String) :
    (∃ r ∈ appendNew refs others, r.data = d) ↔
      (∃ r ∈ refs, r.data = d) ∨ ∃ r ∈ others, r.data = d := by
  simp only [mem_appendNew, or_and_right, exists_or]

end ScaleDomain

namespace Scale

theorem get?_foldl_merge {es : List (Channel × Scale)}
    (ho : es.Pairwise (fun a b => compare a.1 b.1 = .lt)) (merged : Dict Channel Scale)
    (c : Channel) :
    (es.foldl (fun merged (c, s) =>
        match merged.get? c with
        | some held => merged.insert c (held.unionDomain s)
        | none => merged.insert c s) merged).get? c =
      Option.merge unionDomain (merged.get? c) (Dict.lookup c es) := by
  induction es generalizing merged with
  | nil => simp [Dict.lookup]
  | cons e rest ih =>
    obtain ⟨k, s⟩ := e
    rw [List.foldl_cons, ih ho.tail, Dict.lookup, Dict.compare_beq_eq]
    -- the keys increase, so no later entry is for the channel of this one
    by_cases hk : c = k
    · subst hk
      have hrest : Dict.lookup c rest = none := by
        rw [Option.eq_none_iff_forall_ne_some]
        intro t ht
        have hlt := (List.pairwise_cons.mp ho).1 _ (Dict.lookup_mem ht)
        simp at hlt
      rw [hrest]
      dsimp only
      cases hm : merged.get? c <;> simp
    · dsimp only
      cases hm : merged.get? k <;> simp [hk]

theorem get?_mergeInto (merged scales : Dict Channel Scale) (c : Channel) :
    (mergeInto merged scales).get? c =
      Option.merge unionDomain (merged.get? c) (scales.get? c) :=
  get?_foldl_merge scales.increasing merged c

end Scale

namespace View

/-- The units behind a merged scale: a domain of values takes no data in. -/
def unite (us vs : List Node) : List Node := if us.isEmpty then [] else us ++ vs

mutual

/-- The units whose data is the domain of the scale that a view offers for a channel: none at all
for a domain of values, and nothing if the view offers no scale. -/
def feeders (c : Channel) : View → Option (List Node)
  | mk n cs =>
    match n.kind with
    | .unit u => (u.positionFieldDef? c).map (fun f =>
        if (f.scale.bind ScaleDef.domain).isSome then [] else [n])
    | _ => if n.resolve.shares .scale c then feedersIn c none cs else none

def feedersIn (c : Channel) (merged : Option (List Node)) : List View → Option (List Node)
  | [] => merged
  | v :: rest => feedersIn c (Option.merge unite merged (feeders c v)) rest

end

theorem feedersIn_eq (c : Channel) (merged : Option (List Node)) (cs : List View) :
    feedersIn c merged cs =
      cs.foldl (fun merged v => Option.merge unite merged (v.feeders c)) merged := by
  induction cs generalizing merged with
  | nil => rfl
  | cons v rest ih => rw [feedersIn, ih, List.foldl_cons]

theorem mem_merge_unite {a b : Option (List Node)} {us : List Node} {u : Node}
    (h : Option.merge unite a b = some us) (hu : u ∈ us) :
    (∃ vs, a = some vs ∧ u ∈ vs) ∨ ∃ vs, b = some vs ∧ u ∈ vs := by
  cases a with
  | none =>
    rw [Option.merge_none_left] at h
    exact .inr ⟨us, h, hu⟩
  | some vs =>
    cases b with
    | none =>
      rw [Option.merge_none_right] at h
      exact .inl ⟨us, h, hu⟩
    | some ws =>
      obtain rfl : unite vs ws = us := by simpa using h
      unfold unite at hu
      split at hu
      · exact absurd hu List.not_mem_nil
      · rcases List.mem_append.mp hu with hv | hw
        · exact .inl ⟨vs, rfl, hv⟩
        · exact .inr ⟨ws, rfl, hw⟩

theorem mem_feedersIn {c : Channel} {cs : List View} {merged : Option (List Node)}
    {us : List Node} {u : Node} (h : feedersIn c merged cs = some us) (hu : u ∈ us) :
    (∃ vs, merged = some vs ∧ u ∈ vs) ∨ ∃ v ∈ cs, ∃ vs, v.feeders c = some vs ∧ u ∈ vs := by
  induction cs generalizing merged with
  | nil => exact .inl ⟨us, h, hu⟩
  | cons v rest ih =>
    rw [feedersIn] at h
    rcases ih h with ⟨vs, hm, hv⟩ | ⟨w, hw, hvs⟩
    · rcases mem_merge_unite hm hv with hl | hr
      · exact .inl hl
      · exact .inr ⟨v, List.mem_cons_self, hr⟩
    · exact .inr ⟨w, List.mem_cons_of_mem _ hw, hvs⟩

/-- The units behind a scale are units of the view. -/
theorem mem_feeders {c : Channel} {v : View} {us : List Node} (h : v.feeders c = some us) :
    ∀ u ∈ us, u ∈ v.nodes ∧ u.isUnit = true := by
  induction v using induct generalizing us with
  | h n cs ih =>
    rw [feeders] at h
    -- a unit is behind its own scale; a shared one has the units behind the scales under it
    cases hk : n.kind with
    | unit u =>
      rw [hk] at h
      obtain ⟨f, -, rfl⟩ := Option.map_eq_some_iff.mp h
      intro m hm
      split at hm
      · exact absurd hm List.not_mem_nil
      · obtain rfl := List.mem_singleton.mp hm
        refine ⟨?_, Node.isUnit_of_unit hk⟩
        rw [nodes]
        exact List.mem_cons_self
    | _ =>
      rw [hk] at h
      dsimp only at h
      split at h
      · intro m hm
        rcases mem_feedersIn h hm with ⟨vs, hn, -⟩ | ⟨c, hc, vs, hvs, hmv⟩
        · exact absurd hn (by simp)
        · obtain ⟨hmem, hunit⟩ := ih c hc hvs m hmv
          exact ⟨mem_nodes_of_child hc hmem, hunit⟩
      · exact absurd h (by simp)

end View

/-- The domain of a scale is the data of some units, read under certain names; without units it is
one of values. -/
def Scale.FedBy (us : List Node) (read : Node → String) (s : Scale) : Prop :=
  match s.domain with
  | .values _ => us = []
  | .data refs => us ≠ [] ∧ ∀ d, (∃ r ∈ refs, r.data = d) ↔ ∃ u ∈ us, read u = d

namespace Scale

/-- What holds of all datasets that a domain names holds of what is read for each unit behind it. -/
theorem FedBy.forall_data_iff {us : List Node} {read : Node → String} {s : Scale}
    {refs : List DataRef} (h : s.FedBy us read) (hdom : s.domain = .data refs)
    (P : String → Prop) : (∀ r ∈ refs, P r.data) ↔ ∀ u ∈ us, P (read u) := by
  unfold FedBy at h
  rw [hdom] at h
  obtain ⟨-, hrefs⟩ := h
  constructor
  · intro hall u hu
    obtain ⟨r, hr, hread⟩ := (hrefs (read u)).mpr ⟨u, hu, rfl⟩
    rw [← hread]
    exact hall r hr
  · intro hall r hr
    obtain ⟨u, hu, hread⟩ := (hrefs r.data).mp ⟨r, hr, rfl⟩
    rw [← hread]
    exact hall u hu

theorem FedBy.ne_nil {us : List Node} {read : Node → String} {s : Scale} {refs : List DataRef}
    (h : s.FedBy us read) (hdom : s.domain = .data refs) : us ≠ [] := by
  unfold FedBy at h
  rw [hdom] at h
  exact h.1

theorem FedBy.unionDomain {us vs : List Node} {read : Node → String} {s t : Scale}
    (hs : s.FedBy us read) (ht : t.FedBy vs read) :
    (s.unionDomain t).FedBy (View.unite us vs) read := by
  unfold FedBy at hs ht ⊢
  unfold Scale.unionDomain ScaleDomain.union View.unite
  dsimp only
  -- a domain of values stays as it is, and values that are united with data are left out
  cases hsd : s.domain with
  | values xs =>
    rw [hsd] at hs
    exact if_pos (List.isEmpty_iff.mpr hs)
  | data refs =>
    rw [hsd] at hs
    obtain ⟨hne, hrefs⟩ := hs
    have hempty : ¬ us.isEmpty = true := fun h => hne (List.isEmpty_iff.mp h)
    cases htd : t.domain with
    | values ys =>
      rw [htd] at ht
      dsimp only at ht ⊢
      rw [if_neg hempty, ht, List.append_nil]
      exact ⟨hne, hrefs⟩
    | data others =>
      rw [htd] at ht
      obtain ⟨-, hothers⟩ := ht
      dsimp only
      rw [if_neg hempty]
      refine ⟨List.append_ne_nil_of_left_ne_nil hne vs, ?_⟩
      intro d
      have hunits : (∃ u ∈ us ++ vs, read u = d) ↔
          (∃ u ∈ us, read u = d) ∨ ∃ u ∈ vs, read u = d := by
        simp only [List.mem_append, or_and_right, exists_or]
      rw [ScaleDomain.appendNew_data, hrefs d, hothers d, hunits]

/-- What merging keeps of scales and the units behind them is kept where either side is missing. -/
theorem rel_merge {R : Scale → List Node → Prop}
    (hmerge : ∀ {s t us vs}, R s us → R t vs → R (s.unionDomain t) (View.unite us vs))
    {s t : Option Scale} {us vs : Option (List Node)} (hs : Option.Rel R s us)
    (ht : Option.Rel R t vs) :
    Option.Rel R (Option.merge unionDomain s t) (Option.merge View.unite us vs) := by
  cases hs with
  | none =>
    rw [Option.merge_none_left, Option.merge_none_left]
    exact ht
  | some hs =>
    cases ht with
    | none => exact .some hs
    | some ht => exact .some (hmerge hs ht)

/-- There is a scale exactly where there are units to make it of, and their records feed it. -/
def OfferedBy (s : Option Scale) (us : Option (List Node)) : Prop :=
  Option.Rel (fun s us => s.FedBy us Node.rawData) s us

theorem OfferedBy.exists_fedBy {s : Scale} {us : Option (List Node)} (h : OfferedBy (some s) us) :
    ∃ vs, us = some vs ∧ s.FedBy vs Node.rawData := by
  cases h with
  | some hs => exact ⟨_, rfl, hs⟩

theorem get?_ofUnit (s : Site) (config : Config) (u : UnitView) (input : String) {c : Channel}
    (hc : c ∈ Channel.scaleChannels) :
    (ofUnit s config u input).get? c = ofUnit? s config u input c := by
  unfold ofUnit
  rw [Dict.get?_ofList_filterMap, if_pos hc]

theorem withPadding_domain (s : Scale) (asked : ScaleDef) (config : ScaleConfig) :
    (s.withPadding asked config).domain = s.domain := by
  unfold withPadding
  split <;> rfl

/-- The scale of a unit has the domain it asks for, or the unit's own records. -/
theorem ofUnit?_domain {s : Site} {config : Config} {u : UnitView} {input : String} {c : Channel}
    {f : FieldDef} (hf : u.positionFieldDef? c = some f) :
    ∃ scale, ofUnit? s config u input c = some scale ∧
      scale.domain = (match f.scale.bind ScaleDef.domain with
        | some values => .values values
        | none => .data (domainRefs u c f input)) := by
  unfold ofUnit?
  rw [hf]
  refine ⟨_, rfl, ?_⟩
  have hasked : (f.scale.getD .unset).domain = f.scale.bind ScaleDef.domain := by
    cases f.scale <;> rfl
  dsimp only
  rw [← hasked]
  split
  · exact withPadding_domain _ _ _
  · rfl

theorem mem_domainRefs {u : UnitView} {c : Channel} {f : FieldDef} {input : String} {r : DataRef}
    (h : r ∈ domainRefs u c f input) : r.data = input := by
  unfold domainRefs at h
  rcases ScaleDomain.mem_appendNew.mp h with h | h
  · rw [List.mem_singleton.mp h]
  · obtain ⟨g, -, rfl⟩ := List.mem_map.mp h
    rfl

end Scale

namespace View

variable {config : Config} {A : List Node}

/-- A layer or facet that shares the scales of a channel offers the union of those under it. -/
theorem get?_offersIn (r : Resolve) (merged : Dict Channel Scale) (cs : List View) (c : Channel) :
    (offersIn config A r merged cs).get? c =
      if r.shares .scale c then
        cs.foldl (fun s v => Option.merge Scale.unionDomain s ((v.offers config A).get? c))
          (merged.get? c)
      else merged.get? c := by
  induction cs generalizing merged with
  | nil => exact (ite_self _).symm
  | cons v rest ih =>
    rw [offersIn, ih, Scale.get?_mergeInto, Dict.get?_filter]
    cases r.shares .scale c with
    | true =>
      have hkeep (s : Option Scale) : s.filter (fun _ => true) = s := by cases s <;> rfl
      rw [hkeep]
      rfl
    | false =>
      have hdrop (s : Option Scale) : s.filter (fun _ => false) = none := by cases s <;> rfl
      rw [hdrop, Option.merge_none_right]
      rfl

theorem offers_unit {n : Node} {u : UnitView} (hk : n.kind = .unit u) (cs : List View) :
    (mk n cs).offers config A = Scale.ofUnit ⟨A, mk n cs⟩ config u n.data.input := by
  rw [offers, hk]

theorem get?_offers_composite {n : Node} (hn : n.isUnit = false) (cs : List View) (c : Channel) :
    ((mk n cs).offers config A).get? c =
      if n.resolve.shares .scale c then
        cs.foldl (fun s v => Option.merge Scale.unionDomain s ((v.offers config (n :: A)).get? c))
          none
      else none := by
  rw [offers]
  cases hk : n.kind with
  | unit u => exact absurd (hn.symm.trans (Node.isUnit_of_unit hk)) Bool.false_ne_true
  | layer size => exact get?_offersIn n.resolve .empty cs c
  | facet f => exact get?_offersIn n.resolve .empty cs c

theorem feeders_unit_eq {n : Node} {u : UnitView} (hk : n.kind = .unit u) (cs : List View)
    (c : Channel) : (mk n cs).feeders c = (u.positionFieldDef? c).map (fun f =>
      if (f.scale.bind ScaleDef.domain).isSome then [] else [n]) := by
  rw [feeders, hk]

theorem feeders_composite {n : Node} (hn : n.isUnit = false) (cs : List View) (c : Channel) :
    (mk n cs).feeders c =
      if n.resolve.shares .scale c then
        cs.foldl (fun us v => Option.merge unite us (v.feeders c)) none
      else none := by
  rw [feeders]
  cases hk : n.kind with
  | unit u => exact absurd (hn.symm.trans (Node.isUnit_of_unit hk)) Bool.false_ne_true
  | layer size =>
    dsimp only
    rw [feedersIn_eq]
  | facet f =>
    dsimp only
    rw [feedersIn_eq]

/-- What holds of each unit's own scale, and is kept by merging, holds of what a view offers and of
the units behind it. -/
theorem offers_rel {R : Scale → List Node → Prop}
    (hmerge : ∀ {s t us vs}, R s us → R t vs → R (s.unionDomain t) (unite us vs)) {c : Channel}
    {v : View}
    (hunit : ∀ s ∈ v.sites A, s.node.isUnit = true →
      Option.Rel R ((s.view.offers config s.ancestors).get? c) (s.view.feeders c)) :
    Option.Rel R ((v.offers config A).get? c) (v.feeders c) := by
  induction v using induct generalizing A with
  | h n cs ih =>
    cases hn : n.isUnit with
    | true => exact hunit _ (self_mem_sites A _) hn
    | false =>
      have hin : ∀ d ∈ cs, Option.Rel R ((d.offers config (n :: A)).get? c) (d.feeders c) :=
        fun d hd => ih d hd (fun s hs => hunit s (mem_sites_mk.mpr (.inr ⟨d, hd, hs⟩)))
      rw [get?_offers_composite hn, feeders_composite hn]
      split
      · -- the scale merged so far and the units behind it go along the views together
        have hfold : ∀ {s : Option Scale} {us : Option (List Node)}, Option.Rel R s us →
            Option.Rel R
              (cs.foldl (fun s v => Option.merge Scale.unionDomain s
                ((v.offers config (n :: A)).get? c)) s)
              (cs.foldl (fun us v => Option.merge unite us (v.feeders c)) us) := by
          clear ih hunit
          induction cs with
          | nil => exact id
          | cons d rest ihr =>
            intro s us h
            exact ihr (fun e he => hin e (List.mem_cons_of_mem _ he))
              (Scale.rel_merge hmerge h (hin d List.mem_cons_self))
        exact hfold .none
      · exact .none

theorem offers_unit_offeredBy {c : Channel} (hc : c ∈ Channel.scaleChannels) {n : Node}
    {cs : List View} {u : UnitView} (hk : n.kind = .unit u) (hraw : n.data.input = n.rawData) :
    Scale.OfferedBy (((mk n cs).offers config A).get? c) ((mk n cs).feeders c) := by
  rw [offers_unit hk, feeders_unit_eq hk, Scale.get?_ofUnit _ _ _ _ hc]
  cases hf : u.positionFieldDef? c with
  | none =>
    unfold Scale.ofUnit?
    rw [hf]
    exact .none
  | some f =>
    obtain ⟨s, hs, hdom⟩ := Scale.ofUnit?_domain (s := ⟨A, mk n cs⟩) hf
    rw [hs]
    refine .some ?_
    unfold Scale.FedBy
    rw [hdom]
    dsimp only
    cases f.scale.bind ScaleDef.domain with
    | some values => rfl
    | none =>
      refine ⟨List.cons_ne_nil _ _, ?_⟩
      intro d
      -- the first reference is always there, and all others are for the same records
      have hhead : (⟨n.data.input, f.column⟩ : DataRef) ∈ Scale.domainRefs u c f n.data.input :=
        ScaleDomain.mem_appendNew.mpr (.inl (List.mem_singleton_self _))
      constructor
      · rintro ⟨r, hr, rfl⟩
        refine ⟨n, List.mem_singleton_self n, ?_⟩
        rw [Scale.mem_domainRefs hr, hraw]
      · rintro ⟨m, hm, rfl⟩
        obtain rfl : m = n := List.mem_singleton.mp hm
        exact ⟨_, hhead, hraw⟩

/-- What a view offers for a channel with a scale is fed by the units behind it. -/
theorem offers_offeredBy {c : Channel} (hc : c ∈ Channel.scaleChannels) {v : View}
    (hraw : ∀ n ∈ v.nodes, n.isUnit = true → n.data.input = n.rawData) :
    Scale.OfferedBy ((v.offers config A).get? c) (v.feeders c) := by
  refine offers_rel (fun hs ht => hs.unionDomain ht) ?_
  rintro ⟨B, w⟩ hs hu
  cases w with
  | mk n cs =>
    obtain ⟨u, hk⟩ := Node.kind_of_isUnit hu
    exact offers_unit_offeredBy hc hk (hraw n (mem_nodes_iff.mpr ⟨_, hs, rfl⟩) hu)

/-- Whatever data there is, a view offers a scale exactly where there are units behind it. -/
theorem offers_isSome_feeders {c : Channel} (hc : c ∈ Channel.scaleChannels) (v : View) :
    ((v.offers config A).get? c).isSome = (v.feeders c).isSome := by
  have hrel : Option.Rel (fun _ _ => True) ((v.offers config A).get? c) (v.feeders c) := by
    refine offers_rel (fun _ _ => trivial) ?_
    rintro ⟨B, w⟩ - hu
    cases w with
    | mk n cs =>
      obtain ⟨u, hk⟩ : ∃ u, n.kind = .unit u := Node.kind_of_isUnit hu
      dsimp only
      rw [offers_unit hk, feeders_unit_eq hk, Scale.get?_ofUnit _ _ _ _ hc]
      unfold Scale.ofUnit?
      cases u.positionFieldDef? c with
      | none => exact .none
      | some f => exact .some trivial
  generalize (v.offers config A).get? c = s, v.feeders c = us at hrel
  cases hrel with
  | none => rfl
  | some _ => rfl

end View
end Trellis
