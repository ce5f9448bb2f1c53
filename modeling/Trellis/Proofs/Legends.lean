import Trellis.Proofs.Guided
import Trellis.Proofs.Marked

/-! Legends after their phase show the scale that is in use where they are drawn. Like axes, they
move up only where their scale is shared. -/
namespace Trellis

variable {G : Dict String Json → Prop}

/-- The properties under which a legend names the scale that it shows. -/
def Legend.scaleKeys : List String := ["fill", "stroke", "size", "shape", "opacity"]

/-- A legend shows the scale in use at a site for a channel, with further properties of some
kind. -/
structure Legend.Shows (G : Dict String Json → Prop) (s : Site) (c : Channel) (l : Legend) :
    Prop where
  explained : c ∈ Channel.legendChannels
  inUse : ∃ holder, s.scaleHolder? c = some holder ∧ l.scale = Naming.qualify holder c.primary.name
  property : l.property ∈ Legend.scaleKeys
  extra : G l.extra

/-- The legends of a site. -/
def Explained (G : Dict String Json → Prop) : Fact := fun s k =>
  ∀ c l, k.legends.get? c = some l → l.Shows G s c

theorem explained_siteBlind {phase : Phase} (h : phase ≠ .scale) :
    Fact.SiteBlind phase (Explained G) := by
  intro s k
  have hlegend (c : Channel) (l : Legend) :
      l.Shows G (s.updateAll (Components.without phase)) c ↔ l.Shows G s c := by
    have hholder := s.scaleHolder?_updateAll (Components.without_scales h) c
    constructor
    · rintro ⟨hc, hu, hp, he⟩
      exact ⟨hc, hholder ▸ hu, hp, he⟩
    · rintro ⟨hc, hu, hp, he⟩
      exact ⟨hc, hholder.symm ▸ hu, hp, he⟩
  unfold Explained
  simp only [hlegend]

/-! ### Legends of units -/

theorem Legend.propertyOf_mem (mark : MarkDef) {c : Channel} (hc : c ∈ Channel.legendChannels) :
    Legend.propertyOf mark c ∈ Legend.scaleKeys := by
  have hname : ∀ c ∈ Channel.legendChannels, c ≠ .color → c.name ∈ Legend.scaleKeys := by decide
  unfold Legend.propertyOf
  split
  · split <;> decide
  · rename_i hne
    exact hname c hc hne

theorem Legend.ofUnit?_shows {s : Site} {k : Components} {u : UnitView} {c : Channel} {l : Legend}
    (hs : Uses s k) (hu : s.node.kind = .unit u) (hG : u.GuideExtras G)
    (hc : c ∈ Channel.legendChannels) (h : Legend.ofUnit? s u c = some l) : l.Shows G s c := by
  unfold Legend.ofUnit? at h
  cases hf : u.fieldDef? c with
  | none => rw [hf] at h; exact absurd h (by simp)
  | some f =>
    have hscale : c ∈ Channel.scaleChannels := List.mem_append_right _ hc
    have hisSome := scaleHolder?_unit hs hu hscale (Encode.positionFieldDef?_near hf)
    obtain ⟨holder, hholder⟩ := Option.isSome_iff_exists.mp hisSome
    rw [hf] at h
    dsimp only [bind, Option.bind] at h
    cases hasked : f.legendDef? with
    | none => rw [hasked] at h; exact absurd h (by simp)
    | some asked =>
      rw [hasked] at h
      dsimp only at h
      cases hsc : s.scale? c with
      | none => rw [hsc] at h; exact absurd h (by simp)
      | some scale =>
        rw [hsc] at h
        obtain rfl := Option.some.inj h
        refine ⟨hc, ⟨holder, hholder, Site.scaleName_of_holder hholder⟩, ?_, ?_⟩
        · exact Legend.propertyOf_mem u.mark hc
        · exact (hG c f hf).2 asked hasked

theorem explained_unit {s : Site} {k : Components} {u : UnitView} (hs : Uses s k)
    (hk : s.node.kind = .unit u) (hG : u.GuideExtras G) (hlegends : k.legends = Legend.ofUnit s u) :
    Explained G s k := by
  intro c l hget
  rw [hlegends, Legend.ofUnit, Dict.get?_ofList_filterMap] at hget
  split at hget
  · rename_i hc
    exact Legend.ofUnit?_shows hs hk hG hc hget
  · exact absurd hget (by simp)

/-! ### Legends that move -/

/-- From a node to the views under it and back, a legend shows the scale in use wherever legends are
shared. -/
theorem Legend.Shows.up {whole : Spec} {s : Site} {k : Components} {w : View} {c : Channel}
    {l : Legend} (hb : s.Built whole) (hs : Uses s k) (hn : s.node.isUnit = false)
    (hw : w ∈ s.view.children) (hshare : s.node.resolve.shares .legend c = true)
    (h : l.Shows G ⟨s.lineage, w⟩ c) : l.Shows G s c := by
  have hscale : c ∈ Channel.scaleChannels := List.mem_append_right _ h.explained
  -- size, shape, opacity and color are decided on as legends
  have haspect : ∀ c ∈ Channel.legendChannels, Resolve.guideAspect c = .legend := by decide
  have hholder := scaleHolder?_of_sharedGuide hb hs hn hw hscale
    (by rw [haspect c h.explained]; exact hshare)
  refine ⟨h.explained, ?_, h.property, h.extra⟩
  rw [← hholder]
  exact h.inUse

namespace View

variable {A : List Node} {n : Node} {whole : Spec} {cs : List View}

/-- Takes over the legends of the shared channels among some. -/
def takeLegends (r : Resolve) (keys : List Channel)
    (p : Dict Channel Legend × Dict Channel Legend) : Dict Channel Legend × Dict Channel Legend :=
  keys.foldl (fun (parent, child) c =>
    if r.shares .legend c then Legend.moveUp parent child c else (parent, child)) p

theorem mergeLegends_cons (r : Resolve) (taken : Dict Channel Legend) (v : View)
    (rest : List View) :
    mergeLegends r taken (v :: rest) =
      let held := v.node.components.legends
      let p := takeLegends r held.keys (taken, held)
      ((mergeLegends r p.1 rest).1,
        v.update (fun c => { c with legends := p.2 }) :: (mergeLegends r p.1 rest).2) := by
  rw [mergeLegends]
  rfl

/-- A node keeps the legend that it has, and takes over the one of its child else. -/
theorem moveUp_get?_fst (parent child : Dict Channel Legend) (c d : Channel) :
    (Legend.moveUp parent child c).1.get? d =
      if d = c then (parent.get? d).or (child.get? d) else parent.get? d := by
  unfold Legend.moveUp
  cases hc : child.get? c with
  | none =>
    by_cases hd : d = c
    · rw [if_pos hd, hd, hc, Option.or_none]
    · rw [if_neg hd]
  | some own =>
    dsimp only
    rw [Dict.get?_insertIfNew]
    by_cases hd : d = c
    · rw [if_pos hd, if_pos hd, hd, hc]
      cases parent.get? c <;> rfl
    · rw [if_neg hd, if_neg hd]

theorem moveUp_get?_snd (parent child : Dict Channel Legend) (c d : Channel) :
    (Legend.moveUp parent child c).2.get? d = if d = c then none else child.get? d := by
  unfold Legend.moveUp
  cases hc : child.get? c with
  | none =>
    by_cases hd : d = c
    · rw [if_pos hd, hd, hc]
    · rw [if_neg hd]
  | some own => exact Dict.get?_erase child c d

theorem takeLegends_get? (r : Resolve) (keys : List Channel) (parent child : Dict Channel Legend)
    (d : Channel) :
    (takeLegends r keys (parent, child)).1.get? d =
        (if d ∈ keys ∧ r.shares .legend d = true then (parent.get? d).or (child.get? d)
          else parent.get? d) ∧
      (takeLegends r keys (parent, child)).2.get? d =
        if d ∈ keys ∧ r.shares .legend d = true then none else child.get? d := by
  -- a channel may be moved once, or not at all; both maps go along the keys
  induction keys generalizing parent child with
  | nil => simp [takeLegends]
  | cons c rest ih =>
    have hcons : takeLegends r (c :: rest) (parent, child) = takeLegends r rest
        (if r.shares .legend c then Legend.moveUp parent child c else (parent, child)) := rfl
    rw [hcons]
    by_cases hr : r.shares .legend c = true
    · obtain ⟨hfirst, hsecond⟩ :=
        ih (Legend.moveUp parent child c).1 (Legend.moveUp parent child c).2
      rw [if_pos hr, hfirst, hsecond, moveUp_get?_fst, moveUp_get?_snd]
      by_cases hd : d = c
      · subst hd
        simp [hr]
      · simp [hd]
    · obtain ⟨hfirst, hsecond⟩ := ih parent child
      rw [if_neg hr, hfirst, hsecond]
      by_cases hd : d = c
      · subst hd
        simp [hr]
      · simp [hd]

/-- What a node holds of a child's legends once it took over the shared ones, and what the child
keeps. -/
theorem takeLegends_keys (r : Resolve) (parent child : Dict Channel Legend) :
    (∀ d, (takeLegends r child.keys (parent, child)).1.get? d =
        (parent.get? d).or (if r.shares .legend d then child.get? d else none)) ∧
      (takeLegends r child.keys (parent, child)).2 =
        child.filter (fun c _ => !r.shares .legend c) := by
  have hkeys (d : Channel) (h : d ∉ child.keys) : child.get? d = none := by
    rw [Dict.mem_keys_iff, Dict.contains] at h
    exact Option.not_isSome_iff_eq_none.mp h
  constructor
  · intro d
    rw [(takeLegends_get? r child.keys parent child d).1]
    by_cases hr : r.shares .legend d = true
    · by_cases hd : d ∈ child.keys
      · rw [if_pos ⟨hd, hr⟩, if_pos hr]
      · rw [if_neg (fun h => hd h.1), if_pos hr, hkeys d hd, Option.or_none]
    · rw [if_neg (fun h => hr h.2), if_neg hr, Option.or_none]
  · apply Dict.ext_get?
    intro d
    rw [(takeLegends_get? r child.keys parent child d).2, Dict.get?_filter]
    by_cases hr : r.shares .legend d = true
    · simp only [hr, and_true, Bool.not_true]
      have hnone : Option.filter (fun _ : Legend => false) (child.get? d) = none := by
        cases child.get? d <;> rfl
      rw [hnone]
      by_cases hd : d ∈ child.keys
      · rw [if_pos hd]
      · rw [if_neg hd, hkeys d hd]
    · rw [if_neg (fun h => hr h.2), Bool.eq_false_iff.mpr hr]
      cases child.get? d <;> rfl

/-- Of each shared channel the first legend among the views is taken, and all others are dropped. -/
theorem mergeLegends_get? (r : Resolve) (taken : Dict Channel Legend) (vs : List View)
    (c : Channel) : (mergeLegends r taken vs).1.get? c = (taken.get? c).or
      (if r.shares .legend c then vs.findSome? (fun v => v.node.components.legends.get? c)
        else none) := by
  induction vs generalizing taken with
  | nil =>
    rw [mergeLegends, List.findSome?_nil, ite_self, Option.or_none]
  | cons v rest ih =>
    have hcons : (v :: rest).findSome? (fun v => v.node.components.legends.get? c) =
        (v.node.components.legends.get? c).or
          (rest.findSome? (fun v => v.node.components.legends.get? c)) := by
      rw [List.findSome?_cons]
      cases v.node.components.legends.get? c <;> rfl
    rw [mergeLegends_cons, hcons]
    dsimp only
    rw [ih, (takeLegends_keys r taken _).1, Option.or_assoc]
    by_cases hr : r.shares .legend c = true
    · rw [if_pos hr, if_pos hr, if_pos hr]
    · rw [if_neg hr, if_neg hr, if_neg hr, Option.or_none]

theorem mergeLegends_snd (r : Resolve) (taken : Dict Channel Legend) (vs : List View) :
    (mergeLegends r taken vs).2 = vs.map (fun v => v.update (fun k =>
      { k with legends := k.legends.filter (fun c _ => !r.shares .legend c) })) := by
  induction vs generalizing taken with
  | nil => rfl
  | cons v rest ih =>
    rw [mergeLegends_cons]
    dsimp only
    rw [ih, (takeLegends_keys r taken _).2, List.map_cons]
    cases v
    rfl

theorem mergeLegends_taken {r : Resolve} {taken : Dict Channel Legend} {vs : List View}
    {c : Channel} {l : Legend} (h : (mergeLegends r taken vs).1.get? c = some l) :
    taken.get? c = some l ∨
      (r.shares .legend c = true ∧ ∃ v ∈ vs, v.node.components.legends.get? c = some l) := by
  rw [mergeLegends_get?, Option.or_eq_some_iff] at h
  rcases h with ht | ⟨-, h⟩
  · exact .inl ht
  · split at h
    · rename_i hr
      exact .inr ⟨hr, List.exists_of_findSome?_eq_some h⟩
    · exact absurd h (by simp)

theorem mergeLegends_views {r : Resolve} {taken : Dict Channel Legend} {vs : List View} :
    ∀ w ∈ (mergeLegends r taken vs).2, ∃ v ∈ vs, ∃ kept,
      w = v.update (fun k => { k with legends := kept }) ∧
        ∀ c l, kept.get? c = some l → v.node.components.legends.get? c = some l := by
  intro w hw
  rw [mergeLegends_snd] at hw
  obtain ⟨v, hv, rfl⟩ := List.mem_map.mp hw
  refine ⟨v, hv, v.node.components.legends.filter (fun c _ => !r.shares .legend c), ?_, ?_⟩
  · cases v
    rfl
  · intro c l hget
    rw [Dict.get?_filter] at hget
    exact (Option.filter_eq_some_iff.mp hget).1

theorem mergeLegends_explained {k : Components} (hb : Site.Built whole ⟨A, mk n cs⟩)
    (hs : Uses ⟨A, mk n cs⟩ k) (hn : n.isUnit = false)
    (hin : ∀ c ∈ cs, Fits ((Explained G).both (.done .legend)) (n :: A) c) :
    Fits ((Explained G).both (.done .legend)) A
      (((mk n cs).collectLegends).update (markDone .legend)) := by
  have hblind : Fact.SiteBlind .legend ((Explained G).both (.done .legend)) :=
    (explained_siteBlind (by decide)).both (Fact.done_siteBlind _ _)
  refine fits_mk_of_frame (n := n) hblind rfl (mergeLegends_frame _ _ _).symm ⟨?_, rfl⟩ ?_
  · intro c l hget
    rcases mergeLegends_taken hget with hnone | ⟨hshare, v, hv, hown⟩
    · exact absurd hnone (by simp)
    · have hshows := (hin v hv).self.1 c l hown
      exact hshows.up hb hs hn hv hshare
  · intro w hw
    obtain ⟨v, hv, kept, rfl, hkept⟩ := mergeLegends_views w hw
    obtain ⟨hexplained, hdone⟩ := (hin v hv).self
    refine fits_update hblind ?_ (hin v hv).children ⟨?_, hdone⟩
    · intro _
      rfl
    · intro c l hget
      exact hexplained c l (hkept c l hget)

/-- What the legend phase needs of a site. -/
def ReadyForLegends (G : Dict String Json → Prop) (whole : Spec) : Fact := fun s k =>
  s.Built whole ∧ Uses s k ∧ ∀ u, s.node.kind = .unit u → u.GuideExtras G

/-- The legend phase never fails, and leaves legends as described. -/
theorem bottomUp_legend {v : View} (h : Fits (ReadyForLegends G whole) A v) :
    (v.bottomUp .legend legendStep A).error = none ∧
      Fits ((Explained G).both (.done .legend)) A (v.bottomUp .legend legendStep A).view := by
  have hblind : Fact.SiteBlind .legend (Explained G) := explained_siteBlind (by decide)
  have hready : Fact.SiteBlind .legend (ReadyForLegends G whole) := by
    intro s k
    unfold ReadyForLegends
    rw [s.built_updateAll, uses_siteBlind (by decide), Site.node_updateAll]
    rfl
  refine bottomUp_fits legendStep_frame hready ?_ h
  rintro s ⟨hb, hs, hG⟩ hin
  have hkind : s.view.node.kind = s.node.kind := rfl
  have hmerged (hn : s.node.isUnit = false) : Fits ((Explained G).both (.done .legend)) s.ancestors
      (s.view.collectLegends.update (markDone .legend)) := by
    obtain ⟨A, v⟩ := s
    cases v with
    | mk n cs => exact mergeLegends_explained hb hs hn hin
  unfold legendStep
  rw [hkind]
  cases hk : s.node.kind with
  | unit u =>
    refine ⟨_, _, rfl, fits_own_step hblind ?_ hin ?_⟩
    · intro _
      rfl
    · exact explained_unit hs hk (hG u hk) rfl
  | layer size => exact ⟨_, _, rfl, hmerged (Node.not_unit_of_layer hk)⟩
  | facet f => exact ⟨_, _, rfl, hmerged (Node.not_unit_of_facet hk)⟩

end View
end Trellis
