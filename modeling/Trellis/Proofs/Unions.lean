import Mathlib.Data.List.Perm.Subperm
import Trellis.Proofs.Owners

/-! What a shared scale is made of. Layers and facets merge scales pairwise, each the views right
under it; the outcome is one union over all units below that use the scale, in traversal order. -/
namespace Trellis

namespace ScaleDomain

/-- The columns that a domain reads. -/
def refs : ScaleDomain → List DataRef
  | values _ => []
  | data rs => rs

theorem appendNew_append (refs others more : List DataRef) :
    appendNew refs (others ++ more) = appendNew (appendNew refs others) more := by
  induction others generalizing refs with
  | nil => rfl
  | cons r rest ih => exact ih _

theorem appendNew_mem {refs : List DataRef} {r : DataRef} (h : r ∈ refs) (others : List DataRef) :
    appendNew refs (r :: others) = appendNew refs others := by
  rw [appendNew, if_pos (List.contains_iff_mem.mpr h)]

/-- It makes no difference in which order lists of columns are put together. -/
theorem appendNew_assoc (refs others more : List DataRef) :
    appendNew refs (appendNew others more) = appendNew (appendNew refs others) more := by
  induction more generalizing others with
  | nil => rfl
  | cons r rest ih =>
    rw [appendNew]
    by_cases hr : r ∈ others
    · have hboth : r ∈ appendNew refs others := mem_appendNew.mpr (.inr hr)
      rw [if_pos (List.contains_iff_mem.mpr hr), appendNew_mem hboth]
      exact ih others
    · rw [if_neg (fun hc => hr (List.contains_iff_mem.mp hc)), ih, appendNew_append]
      rfl

theorem appendNew_eq (refs others : List DataRef) :
    appendNew refs others = refs ++ (others.removeAll refs).eraseDups := by
  induction others generalizing refs with
  | nil => simp [appendNew]
  | cons r rest ih =>
    by_cases hr : r ∈ refs
    · have hskip : (r :: rest).removeAll refs = rest.removeAll refs := by
        simp [List.removeAll, hr]
      rw [appendNew_mem hr, hskip, ih]
    · have hkeep : (r :: rest).removeAll refs = r :: rest.removeAll refs := by
        simp [List.removeAll, hr]
      have hdrop : rest.removeAll (refs ++ [r]) =
          (rest.removeAll refs).filter (fun q => !q == r) := by
        simp [List.removeAll, List.filter_filter, beq_eq_decide, Bool.and_comm]
      rw [appendNew, if_neg (fun hc => hr (List.contains_iff_mem.mp hc)), ih, hkeep,
        List.eraseDups_cons, hdrop, List.append_assoc]
      rfl

/-- Collecting what is new from the start leaves out later duplicates. -/
theorem appendNew_nil (refs : List DataRef) : appendNew [] refs = refs.eraseDups := by
  have hall : refs.removeAll [] = refs := by simp [List.removeAll]
  rw [appendNew_eq, hall, List.nil_append]

theorem eraseDups_appendNew (refs others : List DataRef) :
    appendNew refs.eraseDups others.eraseDups = (refs ++ others).eraseDups := by
  rw [← appendNew_nil, ← appendNew_nil, ← appendNew_nil, appendNew_assoc, appendNew_append]
  rfl

/-- Duplicates within the parts of a list do not count when they are left out of the whole. -/
theorem eraseDups_flatMap {α : Type} (f : α → List DataRef) (xs : List α) :
    (xs.flatMap (fun x => (f x).eraseDups)).eraseDups = (xs.flatMap f).eraseDups := by
  rw [← appendNew_nil, ← appendNew_nil]
  generalize ([] : List DataRef) = start
  induction xs generalizing start with
  | nil => rfl
  | cons x rest ih =>
    rw [List.flatMap_cons, List.flatMap_cons, appendNew_append, appendNew_append, ih,
      ← appendNew_nil, appendNew_assoc]
    rfl

end ScaleDomain

namespace Scale

/-- The union of scales with data: the first one, with the columns of all. -/
def unionAll : List Scale → Option Scale
  | [] => none
  | s :: rest =>
    some { s with domain := .data ((s :: rest).flatMap (fun t => t.domain.refs)).eraseDups }

/-- Unions of unions are one union over all scales. -/
theorem merge_unionAll (ss ts : List Scale) :
    Option.merge unionDomain (unionAll ss) (unionAll ts) = unionAll (ss ++ ts) := by
  cases ss with
  | nil => rw [unionAll, Option.merge_none_left, List.nil_append]
  | cons s rest =>
    cases ts with
    | nil => rw [unionAll, unionAll, Option.merge_none_right, List.append_nil, unionAll]
    | cons t more =>
      have hall : (s :: rest ++ t :: more).flatMap (fun t => t.domain.refs) =
          (s :: rest).flatMap (fun t => t.domain.refs) ++
            (t :: more).flatMap (fun t => t.domain.refs) := List.flatMap_append
      rw [List.cons_append] at hall ⊢
      rw [unionAll, unionAll, unionAll, hall, ← ScaleDomain.eraseDups_appendNew]
      rfl

theorem foldl_merge_unionAll {α : Type} (f : α → List Scale) (xs : List α) (start : List Scale) :
    xs.foldl (fun s x => Option.merge unionDomain s (unionAll (f x))) (unionAll start) =
      unionAll (start ++ xs.flatMap f) := by
  induction xs generalizing start with
  | nil => rw [List.foldl_nil, List.flatMap_nil, List.append_nil]
  | cons x rest ih =>
    rw [List.foldl_cons, merge_unionAll, ih, List.flatMap_cons, List.append_assoc]

end Scale

/-! ### What a unit brings in -/

namespace Site

/-- The scale that a unit alone computes for a channel. -/
def ownScale (config : Config) (c : Channel) (s : Site) : Option Scale :=
  s.node.unit?.bind (fun u => Scale.ofUnit? s config u s.node.data.input c)

/-- The columns that a unit shows on a channel, then those on the far end of it. -/
def ownRefs (c : Channel) (s : Site) : List DataRef :=
  s.node.unit?.elim [] (fun u =>
    ((u.fieldDef? c).toList ++ (u.secondaryFieldDef? c).toList).map
      (fun f => ⟨s.node.data.input, f.column⟩))

/-- The unit asks for the values of the domain of a channel's scale. -/
def asksDomain (c : Channel) (s : Site) : Bool :=
  s.node.unit?.any (fun u =>
    (u.positionFieldDef? c).any (fun f => (f.scale.bind ScaleDef.domain).isSome))

theorem declaredSize?_amend (h : Option String → Option String) (g : Components → Components)
    (s : Site) (d : Dimension) :
    (s.mapNodes (Node.amend h g)).declaredSize? d = s.declaredSize? d := by
  have hlayers : (s.mapNodes (Node.amend h g)).ancestors.takeWhile Node.isLayer =
      (s.ancestors.takeWhile Node.isLayer).map (Node.amend h g) := List.takeWhile_map
  have hnodes : s.node.amend h g :: (s.ancestors.takeWhile Node.isLayer).map (Node.amend h g) =
      (s.node :: s.ancestors.takeWhile Node.isLayer).map (Node.amend h g) := rfl
  unfold declaredSize?
  rw [hlayers, node_mapNodes, hnodes, List.findSome?_map]
  rfl

end Site

namespace Scale

theorem ofUnit?_amend (h : Option String → Option String) (g : Components → Components) (s : Site)
    (config : Config) (u : UnitView) (input : String) (c : Channel) :
    ofUnit? (s.mapNodes (Node.amend h g)) config u input c = ofUnit? s config u input c := by
  unfold ofUnit? defaultRange
  simp only [Site.declaredSize?_amend]

theorem ofUnit?_updateAll (g : Components → Components) (s : Site) (config : Config) (u : UnitView)
    (input : String) (c : Channel) :
    ofUnit? (s.updateAll g) config u input c = ofUnit? s config u input c :=
  ofUnit?_amend id g s config u input c

/-- The columns a unit's scale reads are those on the channel and on its far end, each once. -/
theorem domainRefs_eq {u : UnitView} {c : Channel} {f : FieldDef}
    (hf : u.positionFieldDef? c = some f) (input : String) : domainRefs u c f input =
      (((u.fieldDef? c).toList ++ (u.secondaryFieldDef? c).toList).map
        (fun f => (⟨input, f.column⟩ : DataRef))).eraseDups := by
  unfold domainRefs
  rw [← ScaleDomain.appendNew_nil]
  unfold UnitView.positionFieldDef? at hf
  cases hnear : u.fieldDef? c with
  | some near =>
    rw [hnear] at hf
    obtain rfl : near = f := Option.some.inj hf
    rfl
  | none =>
    -- only the far end is shown, which is then the first column and does not count again
    rw [hnear] at hf
    have hfar : u.secondaryFieldDef? c = some f := hf
    rw [hfar]
    exact ScaleDomain.appendNew_mem (List.mem_singleton_self _) []

theorem ownScale_refs (config : Config) {c : Channel} {s : Site} (h : s.encodes c = true)
    (hask : s.asksDomain c = false) :
    ∃ own, s.ownScale config c = some own ∧ own.domain = .data (s.ownRefs c).eraseDups := by
  obtain ⟨u, hk, hf⟩ := Site.exists_unit_of_encodes h
  obtain ⟨f, hf⟩ := Option.isSome_iff_exists.mp hf
  have hunit : s.node.unit? = some u := by rw [Node.unit?, hk]
  obtain ⟨own, hown, hdom⟩ : ∃ own, ofUnit? s config u s.node.data.input c = some own ∧ _ :=
    ofUnit?_domain hf
  have hvalues : f.scale.bind ScaleDef.domain = none := by
    rw [Site.asksDomain, hunit, Option.any_some, hf, Option.any_some] at hask
    simpa using hask
  refine ⟨own, ?_, ?_⟩
  · rw [Site.ownScale, hunit]
    exact hown
  · rw [hdom, hvalues, domainRefs_eq hf, Site.ownRefs, hunit]
    rfl

/-- Alone, a unit's scale is the union of itself. -/
theorem unionAll_ownScale {config : Config} {c : Channel} {s : Site} (h : s.encodes c = true)
    (hask : s.asksDomain c = false) :
    s.ownScale config c = unionAll (s.ownScale config c).toList := by
  obtain ⟨own, hown, hdom⟩ := ownScale_refs config h hask
  have honce : ((s.ownRefs c).eraseDups).eraseDups = (s.ownRefs c).eraseDups := by
    have hnone := ScaleDomain.eraseDups_flatMap (fun _ : Unit => s.ownRefs c) [()]
    simpa using hnone
  have hrefs : [own].flatMap (fun t => t.domain.refs) = (s.ownRefs c).eraseDups := by
    rw [List.flatMap_singleton, hdom]
    rfl
  rw [hown, Option.toList_some, unionAll, hrefs, honce, ← hdom]

end Scale

/-! ### What a node offers -/

namespace View

variable {config : Config} {A B : List Node} {taken : Resolve} {pending : List DataRename}

/-- What a view offers depends on the data of its units, and on nothing else worked out so far. -/
theorem offers_updateAll (config : Config) {g : Components → Components} (hg : ∀ k, (g k).data = k.data)
    (A : List Node) (v : View) :
    (v.updateAll g).offers config (A.map (Node.update · g)) = v.offers config A := by
  induction v using induct generalizing A with
  | h n cs ih =>
    have hsite : Site.updateAll g ⟨A, mk n cs⟩ =
        ⟨A.map (Node.update · g), mk (n.update g) (cs.map (updateAll g))⟩ := by
      rw [Site.updateAll, updateAll_mk]
    rw [updateAll_mk, offers, offers]
    have hkind : (n.update g).kind = n.kind := rfl
    have hdata : (n.update g).data = n.data := by
      have hsame := hg n.components
      exact congrArg (fun d : Option DataComponent => d.getD .none) hsame
    rw [hkind]
    cases n.kind with
    | unit u =>
      dsimp only
      rw [hdata, ← hsite]
      unfold Scale.ofUnit
      simp only [Scale.ofUnit?_updateAll]
    | _ =>
      dsimp only
      rw [offersIn_eq, offersIn_eq, List.foldl_map]
      have hlineage : n.update g :: A.map (Node.update · g) = (n :: A).map (Node.update · g) := rfl
      have hres : (n.update g).resolve = n.resolve := rfl
      rw [hlineage, hres]
      apply List.foldl_ext
      intro merged c hc
      rw [ih c hc]

theorem offers_congr (config : Config) {g : Components → Components} (hg : ∀ k, (g k).data = k.data) {v w : View}
    (hA : A.map (Node.update · g) = B.map (Node.update · g)) (h : v.updateAll g = w.updateAll g) :
    v.offers config A = w.offers config B := by
  rw [← offers_updateAll config hg A v, hA, h, offers_updateAll config hg]

/-- Outside all facets, what a node holds is what it offers. -/
def Offered (config : Config) : Fact := fun s k => s.facetAncestor? = none →
  ∀ c scale, k.scales.get? c = some scale → (s.view.offers config s.ancestors).get? c = some scale

theorem offered_siteBlind {phase : Phase} (h : phase ≠ .data) :
    Fact.SiteBlind phase (Offered config) := by
  intro s k
  have hoffers := offers_updateAll config (Components.without_data h) s.ancestors s.view
  unfold Offered
  rw [Site.facetAncestor?_eq_none_updateAll]
  unfold Site.updateAll
  rw [hoffers]

theorem offered_ownBlind {phase : Phase} (h : phase ≠ .scale) :
    Fact.OwnBlind phase (Offered config) := by
  intro s k
  unfold Offered
  rw [Components.without_scales h]

/-- What a node holds is what it offers, redirected; this changes nothing outside all facets. -/
def Redirected (config : Config) : Fact := fun s k => ∃ renames : List DataRename,
  (s.facetAncestor? = none → renames = []) ∧
    ∀ c scale, k.scales.get? c = some scale →
      ∃ base, (s.view.offers config s.ancestors).get? c = some base ∧ base.redirect renames = scale

theorem settle_redirected {v : View}
    (hA : A.map (Node.update · (Components.without .scale)) =
      B.map (Node.update · (Components.without .scale)))
    (hpending : A.find? Node.isFacet = none → pending = []) :
    Fits (Redirected config) B (v.settle config A taken pending) := by
  have hdata : ∀ k : Components, (k.without .scale).data = k.data :=
    Components.without_data (by decide)
  induction v using induct generalizing A B taken pending with
  | h n cs ih =>
    have hframe : ((mk n cs).settle config A taken pending).updateAll (Components.without .scale) =
        (mk n cs).updateAll (Components.without .scale) := settle_frame (mk n cs)
    have hoffers := offers_congr config hdata hA.symm hframe
    rw [settle_mk] at hframe hoffers ⊢
    refine fits_mk_iff.mpr ⟨⟨pending, ?_, ?_⟩, ?_⟩
    · intro hfree
      apply hpending
      have hup := congrArg (List.find? Node.isFacet) hA
      rw [List.find?_map, List.find?_map] at hup
      have hnone : B.find? Node.isFacet = none := hfree
      have hB : B.find? (Node.isFacet ∘ (Node.update · (Components.without .scale))) = none := hnone
      rw [hB, Option.map_none, Option.map_eq_none_iff] at hup
      exact hup
    · intro c scale hget
      have hkeeps : ((mk n cs).keeps config A taken pending).get? c = some scale := hget
      rw [keeps, Dict.get?_mapValues, Option.map_eq_some_iff] at hkeeps
      obtain ⟨own, hown, hscale⟩ := hkeeps
      rw [Dict.get?_filter, Option.filter_eq_some_iff] at hown
      refine ⟨own, ?_, hscale⟩
      dsimp only
      rw [hoffers]
      exact hown.1
    · intro w hw
      obtain ⟨d, hd, rfl⟩ := List.mem_map.mp hw
      refine ih d hd ?_ ?_
      · rw [List.map_cons, List.map_cons, hA]
        rfl
      · intro hnone
        -- neither the node nor any above it is a facet, so nothing was or is redirected here
        cases hf : n.isFacet with
        | true =>
          rw [List.find?_cons_of_pos hf] at hnone
          exact absurd hnone (by simp)
        | false =>
          rw [List.find?_cons_of_neg (Bool.eq_false_iff.mp hf)] at hnone
          rw [hpending hnone, renamesUnder, hf, List.append_nil]
          exact if_neg Bool.false_ne_true

/-- Scales are only redirected inside facets. -/
theorem settle_offered {v : View}
    (hA : A.map (Node.update · (Components.without .scale)) =
      B.map (Node.update · (Components.without .scale)))
    (hpending : A.find? Node.isFacet = none → pending = []) :
    Fits (Offered config) B (v.settle config A taken pending) := by
  refine (settle_redirected hA hpending).mono ?_
  rintro s k ⟨renames, hnone, hheld⟩ hfree c scale hget
  obtain ⟨base, hbase, rfl⟩ := hheld c scale hget
  rw [hnone hfree]
  exact hbase

/-- A part of the sites that lies below one site is found there, in the same order. -/
theorem filter_preOrder {v : View} (hnames : (v.nodes.map Node.name).Nodup) {s : Site}
    (hs : s ∈ v.sites A) {p : Site → Bool} (hp : ∀ t ∈ v.sites A, p t = true → t ∈ s.preOrder) :
    (v.sites A).filter p = s.preOrder.filter p := by
  have hnodup : ((v.sites A).filter p).Nodup := by
    apply List.Nodup.filter
    rw [← sites_map_node A, List.map_map] at hnames
    exact hnames.of_map
  have hsub : (s.preOrder.filter p).Sublist ((v.sites A).filter p) :=
    (preOrder_sublist hs).filter p
  have hmem : (v.sites A).filter p ⊆ s.preOrder.filter p := by
    intro t ht
    obtain ⟨htv, htp⟩ := List.mem_filter.mp ht
    exact List.mem_filter.mpr ⟨hp t htv htp, htp⟩
  have hlength := (hnodup.subperm hmem).length_le
  exact (hsub.eq_of_length_le hlength).symm

end View

namespace Site

/-- The units at and under a site that show a channel and use the scale of some node for it, in
traversal order. -/
def users (s : Site) (c : Channel) (holder : String) : List Site :=
  s.preOrder.filter (fun t => t.encodes c && t.scaleHolder? c == some holder)

end Site

/-- The units of a whole tree that show a channel and use the scale of some node for it. -/
def View.users (root : View) (c : Channel) (holder : String) : List Site :=
  Site.users ⟨[], root⟩ c holder

namespace Site

theorem mem_users {s t : Site} {c : Channel} {holder : String} :
    t ∈ s.users c holder ↔
      t ∈ s.preOrder ∧ t.encodes c = true ∧ t.scaleHolder? c = some holder := by
  rw [users, List.mem_filter, Bool.and_eq_true_iff, beq_iff_eq]

/-- Below a layer or facet, the units that use a scale are those in the views under it. -/
theorem users_composite {A : List Node} {n : Node} (hn : n.isUnit = false) (cs : List View)
    (c : Channel) (holder : String) : users ⟨A, .mk n cs⟩ c holder =
      cs.flatMap (fun d => users ⟨n :: A, d⟩ c holder) := by
  have hself : encodes ⟨A, .mk n cs⟩ c = false := by
    rw [Bool.eq_false_iff]
    intro he
    obtain ⟨u, hk, -⟩ := exists_unit_of_encodes he
    exact absurd (hn.symm.trans (Node.isUnit_of_unit hk)) Bool.false_ne_true
  unfold users preOrder
  rw [View.sites_mk, List.filter_cons, hself, Bool.false_and, if_neg Bool.false_ne_true,
    List.filter_flatMap]

theorem users_unit {A : List Node} {n : Node} {c : Channel} {holder : String}
    (h : scaleHolder? ⟨A, .mk n []⟩ c = some holder) :
    users ⟨A, .mk n []⟩ c holder = if encodes ⟨A, .mk n []⟩ c then [⟨A, .mk n []⟩] else [] := by
  unfold users preOrder
  rw [View.sites_mk, List.flatMap_nil, List.filter_singleton, h, beq_self_eq_true, Bool.and_true,
    Bool.cond_eq_ite]

/-- The scales that units compute alone. -/
def ownScales (config : Config) (c : Channel) (units : List Site) : List Scale :=
  units.flatMap (fun s => (s.ownScale config c).toList)

end Site

section
variable {config : Config} {whole : Spec} {v : View} {c : Channel} {holder : String}

/-- Where the scales of a channel do not leave the views under a node, no unit there uses the scale
that the node uses. -/
theorem users_eq_nil (h : View.Fits View.Holds [] v)
    (hb : View.Fits (fun s _ => s.Built whole) [] v) (hnames : (v.nodes.map Node.name).Nodup)
    (hc : c ∈ Channel.scaleChannels) {t : Site} (ht : t ∈ v.sites [])
    (hshare : t.node.resolve.shares .scale c = false) (hholder : t.scaleHolder? c = some holder)
    {d : View} (hd : d ∈ t.view.children) : Site.users ⟨t.lineage, d⟩ c holder = [] := by
  have hchild : ⟨t.lineage, d⟩ ∈ v.sites [] := View.child_mem_sites ht hd
  rw [List.eq_nil_iff_forall_not_mem]
  intro s hs
  obtain ⟨hbelow, hencodes, hsholder⟩ := Site.mem_users.mp hs
  obtain ⟨o, ho, hat⟩ := exists_heldAt (A := t.lineage) (v := d)
    (fun s hs => h s (View.mem_sites_trans hchild hs))
    (fun s hs => hb s (View.mem_sites_trans hchild hs)) hc hshare hbelow
    (Site.feeders_of_encodes hencodes)
  -- the scale of the unit is held under the node, that of the node at it or above
  have howner : o.node.name = holder := by
    rw [Site.scaleHolder?, hat.scaleOwner? (primary_of_scaleChannel c hc)] at hsholder
    exact Option.some.inj hsholder
  obtain ⟨m, hm, hmname⟩ := Option.map_eq_some_iff.mp hholder
  have hmem : m ∈ t.lineage := List.mem_of_find?_eq_some hm
  have habove : m ∈ o.ancestors := (View.ancestors_suffix ho).subset hmem
  have hov : o ∈ v.sites [] := View.mem_sites_trans hchild ho
  exact View.name_not_mem_ancestors hnames hov habove (howner.trans hmname.symm)

/-- What a unit offers is its own scale, if it shows the channel. -/
theorem offers_unit_eq_union {A : List Node} {n : Node} {u : UnitView} (hk : n.kind = .unit u)
    (hc : c ∈ Channel.scaleChannels) (hholder : Site.scaleHolder? ⟨A, .mk n []⟩ c = some holder)
    (hask : ∀ s ∈ Site.users ⟨A, .mk n []⟩ c holder, s.asksDomain c = false) :
    ((View.mk n []).offers config A).get? c =
      Scale.unionAll (Site.ownScales config c (Site.users ⟨A, .mk n []⟩ c holder)) := by
  have hunit : n.unit? = some u := by rw [Node.unit?, hk]
  have hown : ((View.mk n []).offers config A).get? c =
      Scale.ofUnit? ⟨A, .mk n []⟩ config u n.data.input c := by
    rw [View.offers_unit hk, Scale.get?_ofUnit _ _ _ _ hc]
  have husers := Site.users_unit hholder
  cases hencodes : Site.encodes ⟨A, .mk n []⟩ c with
  | true =>
    have hdef : Site.ownScale config c ⟨A, .mk n []⟩ =
        n.unit?.bind (fun u => Scale.ofUnit? ⟨A, .mk n []⟩ config u n.data.input c) := rfl
    rw [hencodes, if_pos rfl] at husers
    rw [husers] at hask ⊢
    have hself : Site.asksDomain c ⟨A, .mk n []⟩ = false := hask _ (List.mem_singleton_self _)
    rw [Site.ownScales, List.flatMap_singleton, ← Scale.unionAll_ownScale hencodes hself, hdef,
      hunit, hown]
    rfl
  | false =>
    have hnone : u.positionFieldDef? c = none := by
      have hany : n.unit?.any (fun u => (u.positionFieldDef? c).isSome) = false := hencodes
      rw [hunit, Option.any_some] at hany
      exact Option.not_isSome_iff_eq_none.mp (Bool.eq_false_iff.mp hany)
    rw [hencodes, if_neg Bool.false_ne_true] at husers
    rw [husers, hown, Scale.ofUnit?, hnone]
    rfl

/-- Merging what views offer is one union, if each offers the union over its units. -/
theorem foldl_offers_eq_union {A : List Node} {cs : List View}
    (h : ∀ d ∈ cs, (d.offers config A).get? c =
      Scale.unionAll (Site.ownScales config c (Site.users ⟨A, d⟩ c holder))) :
    cs.foldl (fun s d => Option.merge Scale.unionDomain s ((d.offers config A).get? c)) none =
      Scale.unionAll (Site.ownScales config c
        (cs.flatMap (fun d => Site.users ⟨A, d⟩ c holder))) :=
  calc cs.foldl (fun s d => Option.merge Scale.unionDomain s ((d.offers config A).get? c)) none
      = cs.foldl (fun s d => Option.merge Scale.unionDomain s
          (Scale.unionAll (Site.ownScales config c (Site.users ⟨A, d⟩ c holder))))
          (Scale.unionAll []) := by
        apply List.foldl_ext
        intro s d hd
        rw [h d hd]
    _ = Scale.unionAll
          (cs.flatMap (fun d => Site.ownScales config c (Site.users ⟨A, d⟩ c holder))) := by
        rw [Scale.foldl_merge_unionAll, List.nil_append]
    _ = Scale.unionAll (Site.ownScales config c
          (cs.flatMap (fun d => Site.users ⟨A, d⟩ c holder))) := by
        rw [Site.ownScales, List.flatMap_assoc]
        rfl

/-- What a view offers for a channel is the union over all units below it that use the scale. -/
theorem offers_eq_union (config : Config) (h : View.Fits View.Holds [] v)
    (hb : View.Fits (fun s _ => s.Built whole) [] v) (hnames : (v.nodes.map Node.name).Nodup)
    (hc : c ∈ Channel.scaleChannels) {t : Site} (ht : t ∈ v.sites [])
    (hholder : t.scaleHolder? c = some holder)
    (hask : ∀ s ∈ t.users c holder, s.asksDomain c = false) :
    (t.view.offers config t.ancestors).get? c =
      Scale.unionAll (Site.ownScales config c (t.users c holder)) := by
  obtain ⟨A, w⟩ := t
  induction w using View.induct generalizing A with
  | h n cs ih =>
    cases hn : n.isUnit with
    | true =>
      obtain ⟨u, hk⟩ := Node.kind_of_isUnit hn
      obtain rfl : cs = [] := (hb _ ht).unit_leaf hn
      exact offers_unit_eq_union hk hc hholder hask
    | false =>
      have husers := Site.users_composite (A := A) hn cs c holder
      have hget : ((View.mk n cs).offers config A).get? c = _ :=
        View.get?_offers_composite hn cs c
      cases hshare : n.resolve.shares .scale c with
      | false =>
        have hnil : Site.users ⟨A, .mk n cs⟩ c holder = [] := by
          rw [husers, List.flatMap_eq_nil_iff]
          intro d hd
          exact users_eq_nil h hb hnames hc ht hshare hholder hd
        rw [hshare, if_neg Bool.false_ne_true] at hget
        rw [hnil]
        exact hget
      | true =>
        have hin : ∀ d ∈ cs, (d.offers config (n :: A)).get? c =
            Scale.unionAll (Site.ownScales config c (Site.users ⟨n :: A, d⟩ c holder)) := by
          intro d hd
          -- the views under the node use the scale that it uses
          have hchild : Site.scaleHolder? ⟨n :: A, d⟩ c = some holder :=
            (Site.scaleHolder?_child h ht hd hshare).trans hholder
          refine ih d hd (n :: A) (View.child_mem_sites ht hd) hchild ?_
          intro s hs
          apply hask s
          rw [husers]
          exact List.mem_flatMap.mpr ⟨d, hd, hs⟩
        rw [hshare, if_pos rfl, foldl_offers_eq_union hin] at hget
        rw [husers]
        exact hget

/-- The union over units that do not ask for a domain, spelled out. -/
theorem unionAll_units {units : List Site} {held : Scale}
    (hunits : ∀ s ∈ units, s.encodes c = true ∧ s.asksDomain c = false)
    (h : Scale.unionAll (Site.ownScales config c units) = some held) :
    ∃ first rest own, units = first :: rest ∧ first.ownScale config c = some own ∧
      held = { own with
        domain := .data ((first :: rest).flatMap (Site.ownRefs c)).eraseDups } := by
  have hrefs : (Site.ownScales config c units).flatMap (fun t => t.domain.refs) =
      units.flatMap (fun s => (s.ownRefs c).eraseDups) := by
    rw [Site.ownScales, List.flatMap_assoc]
    apply List.flatMap_congr
    intro s hs
    obtain ⟨hencodes, hask⟩ := hunits s hs
    obtain ⟨own, hown, hdom⟩ := Scale.ownScale_refs config hencodes hask
    rw [hown, Option.toList_some, List.flatMap_singleton, hdom]
    rfl
  cases units with
  | nil => exact absurd h (by simp [Site.ownScales, Scale.unionAll])
  | cons first rest =>
    obtain ⟨hencodes, hask⟩ := hunits first List.mem_cons_self
    obtain ⟨own, hown, -⟩ := Scale.ownScale_refs config hencodes hask
    have hcons : Site.ownScales config c (first :: rest) = own :: Site.ownScales config c rest := by
      rw [Site.ownScales, List.flatMap_cons, hown]
      rfl
    refine ⟨first, rest, own, rfl, hown, ?_⟩
    rw [hcons] at h hrefs
    rw [Scale.unionAll, hrefs, ScaleDomain.eraseDups_flatMap] at h
    exact (Option.some.inj h).symm

/-- Only channels with a scale have one held. -/
theorem scaleChannel_of_contains (h : View.Fits View.Holds [] v) {o : Site} (ho : o ∈ v.sites [])
    (hheld : o.node.components.scales.contains c = true) : c ∈ Channel.scaleChannels := by
  have hown := h o ho c
  rw [hheld] at hown
  cases hscale : c.hasScale with
  | true => exact List.contains_iff_mem.mp hscale
  | false =>
    rw [hscale] at hown
    exact absurd hown (by simp)

/-- A site that holds a scale for a channel uses that one. -/
theorem scaleHolder?_of_contains {o : Site} (hc : c.primary = c)
    (hheld : o.node.components.scales.contains c = true) :
    o.scaleHolder? c = some o.node.name := by
  have howner : o.scaleOwner? c = some o.node := by
    unfold Site.scaleOwner?
    rw [hc]
    exact List.find?_cons_of_pos hheld
  rw [Site.scaleHolder?, howner, Option.map_some]

/-- All units that use a scale are at or under the node that holds it. -/
theorem users_eq (h : View.Fits View.Holds [] v) (hb : View.Fits (fun s _ => s.Built whole) [] v)
    (hnames : (v.nodes.map Node.name).Nodup) (hc : c ∈ Channel.scaleChannels) {o : Site}
    (ho : o ∈ v.sites []) : v.users c o.node.name = o.users c o.node.name := by
  apply View.filter_preOrder hnames ho
  intro s hs hused
  obtain ⟨hencodes, hholder⟩ := Bool.and_eq_true_iff.mp hused
  obtain ⟨p, hp, hat⟩ := exists_heldAt h hb hc rfl hs (Site.feeders_of_encodes hencodes)
  have hname : p.node.name = o.node.name := by
    have hsome := beq_iff_eq.mp hholder
    rw [Site.scaleHolder?, hat.scaleOwner? (primary_of_scaleChannel c hc)] at hsome
    exact Option.some.inj hsome
  obtain rfl := View.site_eq_of_name_eq hnames hp ho hname
  exact hat.below

end

namespace Tree

variable {spec : Spec} {config : Config} {t : Tree} {ds : List Diagnostic}

/-- Outside all facets a scale has all properties of the one that the first unit using it computes
alone, and reads the columns of all units using it, in traversal order and each once, if no unit asks
for a domain. -/
theorem scaleUnion_of_build (h : Tree.build spec config = .ok (t, ds)) (pipeline : Pipeline)
    (later : List Phase) {o : Site} (ho : o ∈ (t.afterScales pipeline later).sites [])
    (hfacet : o.facetAncestor? = none) {c : Channel} {held : Scale}
    (hheld : o.node.components.scales.get? c = some held)
    (hask : ∀ s ∈ (t.afterScales pipeline later).users c o.node.name, s.asksDomain c = false) :
    ∃ first rest own, (t.afterScales pipeline later).users c o.node.name = first :: rest ∧
      first.ownScale config c = some own ∧
      held = { own with
        domain := .data ((first :: rest).flatMap (Site.ownRefs c)).eraseDups } := by
  have hbuilt := built_of_build h pipeline (.data :: .scale :: later)
  have hholds := holds_of_build h pipeline later
  have hnames := names_of_build h pipeline later
  have hoffered : View.Fits (View.Offered config) [] (t.afterScales pipeline later) := by
    refine fits_of_build ?_ ?_ ?_ h pipeline later
    · exact fun _ hd _ => View.offered_siteBlind hd
    · exact fun _ _ hs => View.offered_ownBlind hs
    · exact fun v _ => View.settle_offered rfl (fun _ => rfl)
  have hcontains : o.node.components.scales.contains c = true := Dict.contains_iff.mpr ⟨held, hheld⟩
  have hc : c ∈ Channel.scaleChannels := scaleChannel_of_contains hholds ho hcontains
  have hholder : o.scaleHolder? c = some o.node.name :=
    scaleHolder?_of_contains (primary_of_scaleChannel c hc) hcontains
  have hoffer : (o.view.offers config o.ancestors).get? c = some held :=
    hoffered o ho hfacet c held hheld
  rw [users_eq hholds hbuilt hnames hc ho] at hask ⊢
  have hunion := offers_eq_union config hholds hbuilt hnames hc ho hholder hask
  refine unionAll_units ?_ (hunion.symm.trans hoffer)
  intro s hs
  obtain ⟨-, hencodes, -⟩ := Site.mem_users.mp hs
  exact ⟨hencodes, hask s hs⟩

end Tree

/-! ### Bars in rows -/

namespace Spec

/-- Bars as high as an aggregate of a field. -/
def bars (name op : String) : Spec :=
  .unit ⟨⟨some name, none, none, none⟩, ⟨none, none⟩, ⟨.bar, none⟩,
    .ofList [(.y, .field { FieldDef.unset with
      field := some "v", type := some .quantitative, aggregate := some op })], .empty⟩

/-- Rows of two views of bars on one another. -/
def rowsOfBars (first second : String) : Spec :=
  rows "r" .empty (.layer ⟨⟨none, none, none, none⟩, ⟨none, none⟩, .empty⟩
    [bars first "sum", bars second "mean"])

end Spec

namespace Tree

/-- All bars in rows are drawn on one scale, which the rows hold. -/
theorem scaleUnion_of_build_rowsOfBars :
    ∃ t ds, Tree.build (.rowsOfBars "low" "high") .default = .ok (t, ds) ∧
      ∃ o ∈ (t.afterScales .standard []).sites [], o.facetAncestor? = none ∧
        ∃ held, o.node.components.scales.get? .y = some held ∧
          ((t.afterScales .standard []).users .y o.node.name).length = 2 ∧
          ∃ first rest own, (t.afterScales .standard []).users .y o.node.name = first :: rest ∧
            first.ownScale .default .y = some own ∧
            held = { own with
              domain := .data ((first :: rest).flatMap (Site.ownRefs .y)).eraseDups } := by
  have hfound : (Tree.build (.rowsOfBars "low" "high") .default).toOption.any (fun r =>
      ((r.1.afterScales .standard []).sites []).any (fun o =>
        o.facetAncestor?.isNone && o.node.components.scales.contains .y &&
          ((r.1.afterScales .standard []).users .y o.node.name).length == 2 &&
            ((r.1.afterScales .standard []).users .y o.node.name).all
              (fun s => !s.asksDomain .y))) = true := by
    decide +kernel
  obtain ⟨⟨t, ds⟩, hb, hfound⟩ := exists_ok_of_any hfound
  obtain ⟨o, ho, hfound⟩ := List.any_eq_true.mp hfound
  simp only [Bool.and_eq_true, Option.isNone_iff_eq_none, beq_iff_eq, List.all_eq_true,
    Bool.not_eq_true'] at hfound
  obtain ⟨⟨⟨hfacet, hcontains⟩, hlength⟩, hask⟩ := hfound
  obtain ⟨held, hheld⟩ := Dict.contains_iff.mp hcontains
  exact ⟨t, ds, hb, o, ho, hfacet, held, hheld, hlength,
    scaleUnion_of_build hb .standard [] ho hfacet hheld hask⟩

end Tree
end Trellis
