import Trellis.Proofs.Outcomes

/-! Which scales read the cells that they are drawn in. Scales of units and layers always do; a
scale that a facet holds for its cells does unless it is two facets or more below the outermost
cells, or stands for an aggregate. -/
namespace Trellis

namespace View

/-- The datasets in the cells of a facet: what the facet splits off, and the aggregates of the units
whose nearest facet it is. -/
def InCells (root : View) (f : Node) (d : String) : Prop :=
  (∃ split, f.data.facetRoot = some split ∧ d = split.name) ∨
    ∃ t ∈ root.sites [], t.node.isAggregated = true ∧ t.facetAncestor? = some f ∧
      d = Naming.cellAggregate t.node.name

instance (root : View) (facet d : String) : Decidable (CellSet root facet d) :=
  inferInstanceAs (Decidable (_ ∨ _))

variable {whole : Spec} {input : Option DataDef} {v : View} {s : Site} {f : Node}

/-- The nearest facet above a site stands at a site of its own, with no facet in between. -/
theorem exists_site_of_facetAncestor (hs : s ∈ v.sites []) (hf : s.facetAncestor? = some f) :
    ∃ t ∈ v.sites [], t.node = f ∧ f.isFacet = true ∧ s ∈ t.preOrder ∧
      ∃ inner, s.ancestors = inner ++ t.lineage ∧ ∀ a ∈ inner, a.isFacet = false := by
  obtain ⟨hfacet, inner, outer, hsplit, hinner⟩ := List.find?_eq_some_iff_append.mp hf
  obtain ⟨t, ht, rfl, rfl, hst⟩ := exists_site_of_ancestor hs hsplit (Nat.zero_le _)
  refine ⟨t, ht, rfl, hfacet, hst, inner, hsplit, ?_⟩
  intro a ha
  simpa using hinner a ha

/-- A search that is satisfied by an element finds that one or one before it. -/
theorem mem_of_find?_append {α : Type} {p : α → Bool} {before after : List α} {a b : α}
    (ha : p a = true) (h : (before ++ a :: after).find? p = some b) : b ∈ before ++ [a] := by
  have hsome : ((before ++ [a]).find? p).isSome = true :=
    List.find?_isSome.mpr ⟨a, List.mem_append_right _ (List.mem_singleton_self a), ha⟩
  obtain ⟨found, hfound⟩ := Option.isSome_iff_exists.mp hsome
  rw [List.append_cons, List.find?_append, hfound] at h
  obtain rfl := Option.some.inj h
  exact List.mem_of_find?_eq_some hfound

/-- A facet below which units stand directly has no facet right under it. -/
theorem facetAncestor?_ne_of_facet (hb : Fits (fun s _ => s.Built whole) [] v)
    (hnames : (v.nodes.map Node.name).Nodup) (hs : s ∈ v.sites []) (hfacet : s.node.isFacet = true)
    (hf : s.facetAncestor? = some f) {t : Site} (ht : t ∈ v.sites []) (hu : t.node.isUnit = true) :
    t.facetAncestor? ≠ some f := by
  intro hft
  have habove : ∀ a ∈ s.ancestors, a.isFacet = true := (hb s hs).facet_above hfacet
  have hfs : f ∈ s.ancestors := List.mem_of_find?_eq_some hf
  rcases above_or_below_facet hb hs hfacet ht with hmem | ⟨-, above, hsuffix⟩
  · have hlineage : ∀ a ∈ s.lineage, a.isFacet = true :=
      List.forall_mem_cons.mpr ⟨hfacet, habove⟩
    rw [Node.not_unit_of_isFacet (hlineage t.node hmem)] at hu
    exact absurd hu (by simp)
  · -- the facet itself lies between its nearest facet and the unit, so that would be there twice
    have hancestors : t.ancestors = above ++ s.node :: s.ancestors := hsuffix.symm
    have hfind : t.ancestors.find? Node.isFacet = some f := hft
    rw [hancestors] at hfind
    have hfirst : f ∈ above ++ [s.node] := mem_of_find?_append hfacet hfind
    have hnodup := lineage_names_nodup (A := []) hnames ht
    rw [Site.lineage, List.map_cons, List.nodup_cons, hancestors, List.append_cons,
      List.map_append, List.nodup_append] at hnodup
    obtain ⟨-, -, -, hapart⟩ := hnodup
    have hfirst' : f.name ∈ (above ++ [s.node]).map Node.name := List.mem_map_of_mem hfirst
    have hlast' : f.name ∈ s.ancestors.map Node.name := List.mem_map_of_mem hfs
    exact hapart f.name hfirst' f.name hlast' rfl

/-- Names are enough to tell what lies in the cells of the nearest facet. -/
theorem inCells_iff (hd : Fits (Described input) [] v) (hnames : (v.nodes.map Node.name).Nodup)
    (hs : s ∈ v.sites []) (hf : s.facetAncestor? = some f) (d : String) :
    InCells v f d ↔ CellSet v f.name d := by
  obtain ⟨p, hp, rfl, hfacet, -⟩ := exists_site_of_facetAncestor hs hf
  have hroot := (hd p hp).facetRoot_eq hfacet
  unfold InCells CellSet
  constructor
  · rintro (⟨split, hsplit, rfl⟩ | ⟨t, ht, ha, hft, rfl⟩)
    · obtain rfl := Option.some.inj (hroot.symm.trans hsplit)
      exact .inl rfl
    · exact .inr ⟨t, ht, ha, by rw [hft]; rfl, rfl⟩
  · rintro (rfl | ⟨t, ht, ha, hname, rfl⟩)
    · exact .inl ⟨_, hroot, rfl⟩
    · refine .inr ⟨t, ht, ha, ?_, rfl⟩
      obtain ⟨g, hg, hgn⟩ := Option.map_eq_some_iff.mp hname
      obtain ⟨q, hq, rfl, -⟩ := exists_site_of_facetAncestor ht hg
      rw [hg, site_eq_of_name_eq hnames hq hp hgn]

/-- The cells of a facet with a facet under it hold nothing but what is split off for them. -/
theorem cellSet_facet_iff (hb : Fits (fun s _ => s.Built whole) [] v)
    (hnames : (v.nodes.map Node.name).Nodup) (hs : s ∈ v.sites []) (hfacet : s.node.isFacet = true)
    (hf : s.facetAncestor? = some f) (d : String) : CellSet v f.name d ↔ d = f.cellData := by
  unfold CellSet
  constructor
  · rintro (hsplit | ⟨t, ht, ha, hname, -⟩)
    · exact hsplit
    · -- the facet of that name is the one above, in whose cells no unit stands
      obtain ⟨g, hg, hgn⟩ := Option.map_eq_some_iff.mp hname
      obtain ⟨p, hp, rfl, -⟩ := exists_site_of_facetAncestor hs hf
      obtain ⟨q, hq, rfl, -⟩ := exists_site_of_facetAncestor ht hg
      obtain rfl := site_eq_of_name_eq hnames hq hp hgn
      have hunit : t.node.isUnit = true := Node.isUnit_of_isAggregated ha
      exact absurd hg (facetAncestor?_ne_of_facet hb hnames hs hfacet hf ht hunit)
  · exact .inl

/-- Among facets of different names, the first has the outermost cells only if it is the last. -/
theorem outermostCell_eq_iff {rest : List Node} (hnames : ((f :: rest).map Node.name).Nodup) :
    ((f :: rest).getLast?.map Node.cellData).getD Naming.main = f.cellData ↔ rest = [] := by
  constructor
  · intro he
    cases rest with
    | nil => rfl
    | cons g more =>
      obtain ⟨last, hlast⟩ : ∃ last, (g :: more).getLast? = some last :=
        ⟨_, List.getLast?_eq_some_getLast (by simp)⟩
      rw [List.getLast?_cons_cons, hlast] at he
      have hsame : last.name = f.name := Naming.qualify_injective he
      have hin : last ∈ g :: more := List.mem_of_getLast? hlast
      have hnew := (List.nodup_cons.mp hnames).1
      rw [← hsame] at hnew
      exact absurd (List.mem_map_of_mem hin) hnew
  · rintro rfl
    rfl

/-- A scale that a facet holds within another one reads the outermost cells and the aggregates
outside all cells, which is what it is drawn in only where these are the same. -/
theorem outerData_inCells_iff (hb : Fits (fun s _ => s.Built whole) [] v)
    (hnames : (v.nodes.map Node.name).Nodup) (hs : s ∈ v.sites []) (hfacet : s.node.isFacet = true)
    (hf : s.facetAncestor? = some f) (u : Node) :
    CellSet v f.name (outerData s.ancestors u) ↔
      s.facetAncestors = [f] ∧ u.isAggregated = false := by
  have habove : ∀ a ∈ s.ancestors, a.isFacet = true := (hb s hs).facet_above hfacet
  have hall : s.facetAncestors = s.ancestors := List.filter_eq_self.mpr habove
  obtain ⟨rest, hrest⟩ : ∃ rest, s.ancestors = f :: rest := by
    have hhead : s.ancestors.head? = some f := (find?_isFacet_of_forall habove).symm.trans hf
    exact ⟨s.ancestors.tail, (List.cons_head?_tail hhead).symm⟩
  have hnodup := lineage_names_nodup (A := []) hnames hs
  rw [Site.lineage, hrest, List.map_cons, List.nodup_cons] at hnodup
  rw [cellSet_facet_iff hb hnames hs hfacet hf, hall, hrest]
  unfold outerData
  by_cases ha : u.isAggregated = true
  · have hne : Naming.aggregate u.name ≠ f.cellData :=
      fun he => Naming.cell_ne_aggregate f.name u.name he.symm
    rw [if_pos ha, ha]
    constructor
    · exact fun he => absurd he hne
    · exact fun hno => absurd hno.2 (by simp)
  · rw [if_neg ha, outermostCell_eq_iff hnodup.2, List.cons_eq_cons]
    simp [ha]

/-- Whether the scales at a site below some facet read the cells of that facet only. -/
theorem located_inCells_iff (h : Fits (Scaled whole input v) [] v)
    (hnames : (v.nodes.map Node.name).Nodup) (hs : s ∈ v.sites []) (hf : s.facetAncestor? = some f)
    {c : Channel} {scale : Scale} {refs : List DataRef}
    (hget : s.node.components.scales.get? c = some scale) (hdom : scale.domain = .data refs) :
    (∀ r ∈ refs, InCells v f r.data) ↔ (s.node.isFacet = true → s.facetAncestors = [f] ∧
      ∀ us, s.view.feeders c = some us → ∀ u ∈ us, u.isAggregated = false) := by
  have hb : Fits (fun s _ => s.Built whole) [] v := h.mono (fun _ _ hk => hk.built)
  have hd : Fits (Described input) [] v := h.mono (fun _ _ hk => hk.described)
  obtain ⟨us, hus, hread⟩ := (h s hs).located c scale hget
  simp only [inCells_iff hd hnames hs hf]
  by_cases hfacet : s.node.isFacet = true
  · rw [if_pos hfacet] at hread
    have hcells : (∀ r ∈ refs, CellSet v f.name r.data) ↔
        ∀ u ∈ us, s.facetAncestors = [f] ∧ u.isAggregated = false := by
      rw [hread.forall_data_iff hdom (CellSet v f.name)]
      simp only [outerData_inCells_iff hb hnames hs hfacet hf]
    rw [hcells]
    constructor
    · intro hall _
      -- there is a unit behind the scale, so the condition on the facet holds for at least one
      obtain ⟨u, hu⟩ := List.exists_mem_of_ne_nil us (hread.ne_nil hdom)
      refine ⟨(hall u hu).1, ?_⟩
      intro vs hvs w hw
      obtain rfl := Option.some.inj (hus.symm.trans hvs)
      exact (hall w hw).2
    · intro hcond u hu
      obtain ⟨hsingle, hraw⟩ := hcond hfacet
      exact ⟨hsingle, hraw us hus u hu⟩
  · rw [if_neg hfacet, hf] at hread
    exact ⟨fun _ hno => absurd hno hfacet, fun _ => hread refs hdom⟩

end View

namespace Tree

variable {spec : Spec} {config : Config} {t : Tree} {ds : List Diagnostic}

/-- The site is as it was built, and has its data and its scales, in terms of the tree it is in. -/
theorem Reached.scaled {G : Dict String Json → Prop} {bare : View} {phase : Phase}
    (h : t.Reached G spec bare (some phase)) (hphase : phase ≠ .data) :
    View.Fits (Scaled spec t.data t.root) [] t.root := by
  have hscaled : View.Fits (Scaled spec t.data bare) [] t.root := by
    refine h.known.mono ?_
    intro s k hk
    cases phase with
    | data => exact absurd rfl hphase
    | scale | layoutSize => exact hk.1.1
    | selection => exact hk.1.1.1
    | markGroup | axisAndHeader => exact hk.1.1.1.1
    | legend => exact hk.1.1.1.1.1
  refine hscaled.mono ?_
  intro s k hk
  have hlocated := hk.located
  rw [← h.strip, View.located_strip] at hlocated
  exact ⟨hk.built, hk.described, hk.holds, hk.uses, hlocated⟩

theorem Reached.names_nodup {G : Dict String Json → Prop} {bare : View} {done : Option Phase}
    (h : t.Reached G spec bare done) (hnames : (bare.nodes.map Node.name).Nodup) :
    (t.root.nodes.map Node.name).Nodup := by
  rw [← View.strip_names, h.strip]
  exact hnames

/-- The tree that the scale phase leaves. -/
def scaled (t : Tree) : TreeOutcome := t.runPhases .standard [.data, .scale]

/-- What is known of a tree that was built and has its scales. -/
theorem scaled_of_build (h : Tree.build spec config = .ok (t, ds)) :
    t.scaled.error = none ∧
      View.Fits (Scaled spec t.scaled.tree.data t.scaled.tree.root) [] t.scaled.tree.root ∧
      (t.scaled.tree.root.nodes.map Node.name).Nodup := by
  obtain ⟨hbuilt, hnames, -⟩ := Tree.build_ok (G := fun _ => True) h
  obtain ⟨herror, hreached, -⟩ := hbuilt.runPhases [.data, .scale] trivial
    spec.guideExtras_true hnames ⟨rfl, rfl, trivial⟩
  exact ⟨herror, hreached.scaled (by decide), hreached.names_nodup hnames⟩

/-- After the scale phase, the scales below a facet read the cells of the nearest facet above them,
but for those that a facet holds within two facets or more, or for an aggregate. -/
theorem domains_inCells_iff (h : Tree.build spec config = .ok (t, ds)) :
    t.scaled.error = none ∧
      ∀ s ∈ t.scaled.tree.root.sites [], ∀ f, s.facetAncestor? = some f →
        ∀ c scale refs, s.node.components.scales.get? c = some scale → scale.domain = .data refs →
          ((∀ r ∈ refs, t.scaled.tree.root.InCells f r.data) ↔
            (s.node.isFacet = true → s.facetAncestors = [f] ∧
              ∀ us, s.view.feeders c = some us → ∀ u ∈ us, u.isAggregated = false)) := by
  obtain ⟨herror, hscaled, hnames⟩ := scaled_of_build h
  refine ⟨herror, ?_⟩
  intro s hs f hf c scale refs hget hdom
  exact View.located_inCells_iff hscaled hnames hs hf hget hdom

end Tree

/-! ### Three facets -/

namespace Spec

/-- A binding of a nominal field. -/
def nominal (field : String) : FieldDef :=
  { FieldDef.unset with field := some field, type := some .nominal }

/-- Rows for a field, around a view. -/
def rows (field : String) (resolve : Resolve) (child : Spec) : Spec :=
  .facet ⟨⟨none, none, none, none⟩, .ofList [(.row, nominal field)], resolve⟩ child

/-- Points along x. -/
def points : Spec :=
  .unit ⟨⟨none, none, none, none⟩, ⟨none, none⟩, ⟨.point, none⟩,
    .ofList [(.x, .field { FieldDef.unset with field := some "v", type := some .quantitative })],
    .empty⟩

/-- Rows in rows in rows; those in the middle keep the scales of their cells apart. -/
def nestedRows : Spec :=
  rows "a" .empty (rows "b" (Resolve.empty.set .scale .x .independent) (rows "c" .empty points))

end Spec

theorem Tree.exists_build_nestedRows : ∃ t ds, Tree.build .nestedRows .default = .ok (t, ds) := by
  have hok : (Tree.build .nestedRows .default).toOption.isSome = true := by decide +kernel
  obtain ⟨⟨t, ds⟩, hb⟩ := exists_ok_of_isSome hok
  exact ⟨t, ds, hb⟩

namespace Tree

theorem domains_inCells_nestedRows : ∃ t ds, Tree.build .nestedRows .default = .ok (t, ds) ∧
    t.scaled.error = none ∧
      ∀ s ∈ t.scaled.tree.root.sites [], ∀ f, s.facetAncestor? = some f →
        ∀ c scale refs, s.node.components.scales.get? c = some scale → scale.domain = .data refs →
          ((∀ r ∈ refs, t.scaled.tree.root.InCells f r.data) ↔
            (s.node.isFacet = true → s.facetAncestors = [f] ∧
              ∀ us, s.view.feeders c = some us → ∀ u ∈ us, u.isAggregated = false)) := by
  obtain ⟨t, ds, hb⟩ := exists_build_nestedRows
  exact ⟨t, ds, hb, domains_inCells_iff hb⟩

/-- The scale of the innermost rows reads the outermost cells, and not those in the middle. -/
theorem domains_not_inCells : ¬ ∀ spec config t ds, Tree.build spec config = .ok (t, ds) →
    ∀ s ∈ t.scaled.tree.root.sites [], ∀ f, s.facetAncestor? = some f →
      ∀ c scale refs, s.node.components.scales.get? c = some scale → scale.domain = .data refs →
        ∀ r ∈ refs, t.scaled.tree.root.InCells f r.data := by
  intro hall
  -- the scale is found by running both phases, and what it reads is compared by name
  have hread : (Tree.build .nestedRows .default).toOption.any (fun r =>
      (r.1.scaled.tree.root.sites []).any (fun s => s.facetAncestor?.any (fun f =>
        (s.node.components.scales.get? .x).any (fun scale => scale.domain.sources.any (fun d =>
          !decide (r.1.scaled.tree.root.CellSet f.name d)))))) = true := by
    decide +kernel
  obtain ⟨t, ds, hb⟩ := exists_build_nestedRows
  obtain ⟨-, hscaled, hnames⟩ := scaled_of_build hb
  rw [hb] at hread
  obtain ⟨s, hs, hread⟩ := List.any_eq_true.mp hread
  obtain ⟨f, hf, hread⟩ := (Option.any_eq_true _ _).mp hread
  obtain ⟨scale, hget, hread⟩ := (Option.any_eq_true _ _).mp hread
  cases hdom : scale.domain with
  | values vs =>
    rw [hdom] at hread
    exact absurd hread Bool.false_ne_true
  | data refs =>
    rw [hdom] at hread
    obtain ⟨d, hd, hread⟩ := List.any_eq_true.mp hread
    obtain ⟨r, hr, rfl⟩ := List.mem_map.mp hd
    have hin := hall _ _ _ _ hb s hs f hf .x scale refs hget hdom r hr
    rw [View.inCells_iff (hscaled.mono (fun _ _ hk => hk.described)) hnames hs hf] at hin
    simp [hin] at hread

end Tree
end Trellis
