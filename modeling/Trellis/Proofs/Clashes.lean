import Mathlib.Data.List.Flatten
import Mathlib.Tactic.Tauto
import Trellis.Proofs.SignalNames

/-! Where signals clash. Words for purposes and sizes keep apart by themselves. What clashes is the
text of a brushed field, which may be any word, and the name of a selection, which may be that of
another signal. -/
namespace Trellis

namespace View

/-- In a view's group, the signals of brushed fields differ from each other and from those with a
purpose. -/
@[mk_iff]
structure FieldsApart (v : View) : Prop where
  nodup : v.fieldSignals.Nodup
  purposes : v.purposeSignals.Disjoint v.fieldSignals

/-- The names of the selections of a view, which are those of the signals with their values. -/
def selectionNames (v : View) : List String := v.declared.map Selection.name

/-- The kinds of signals that may share a name within a group do not. -/
@[mk_iff]
structure SignalsApart (root : View) : Prop where
  top : root.FieldsApart
  cells : ∀ s ∈ Site.facets ⟨[], root⟩, ∀ c ∈ s.view.children, c.FieldsApart
  /-- The value of a selection is named like no signal of a selection at the top. -/
  values : root.selectionNames.Disjoint (root.purposeSignals ++ root.fieldSignals)
  /-- The value of a selection is not taken for the group under the pointer. -/
  pointed : (∃ x ∈ root.declared, x.type = .interval) → Naming.unitSignal ∉ root.selectionNames
  /-- A size is named like no selection and no brushed field at the top. -/
  sizes : root.sizeNames.Disjoint (root.selectionNames ++ root.fieldSignals)

instance (v : View) : Decidable v.FieldsApart :=
  decidable_of_iff (v.fieldSignals.Nodup ∧ ∀ a ∈ v.purposeSignals, ∀ b ∈ v.fieldSignals, a ≠ b)
    (by rw [fieldsApart_iff, List.disjoint_iff_ne])

instance (root : View) : Decidable root.SignalsApart :=
  decidable_of_iff (root.FieldsApart ∧
      (∀ s ∈ Site.facets ⟨[], root⟩, ∀ c ∈ s.view.children, c.FieldsApart) ∧
      (∀ a ∈ root.selectionNames, ∀ b ∈ root.purposeSignals ++ root.fieldSignals, a ≠ b) ∧
      ((∃ x ∈ root.declared, x.type = .interval) → Naming.unitSignal ∉ root.selectionNames) ∧
      (∀ a ∈ root.sizeNames, ∀ b ∈ root.selectionNames ++ root.fieldSignals, a ≠ b))
    (by rw [signalsApart_iff, List.disjoint_iff_ne, List.disjoint_iff_ne])

theorem fieldsApart_updateAll (g : Components → Components) (v : View) :
    (v.updateAll g).FieldsApart ↔ v.FieldsApart := by
  rw [fieldsApart_iff, fieldsApart_iff, fieldSignals_updateAll, purposeSignals_updateAll]

/-- Whether signals are apart does not depend on what has been worked out. -/
theorem signalsApart_updateAll (g : Components → Components) (v : View) :
    (v.updateAll g).SignalsApart ↔ v.SignalsApart := by
  have hcells : (∀ s ∈ Site.facets ⟨[], v.updateAll g⟩, ∀ c ∈ s.view.children, c.FieldsApart) ↔
      ∀ s ∈ Site.facets ⟨[], v⟩, ∀ c ∈ s.view.children, c.FieldsApart := by
    rw [facets_updateAll, List.forall_mem_map]
    unfold Site.updateAll
    simp only [children_updateAll, List.forall_mem_map, fieldsApart_updateAll]
  have hnames : (v.updateAll g).selectionNames = v.selectionNames := by
    rw [selectionNames, declared_updateAll, selectionNames]
  rw [signalsApart_iff, signalsApart_iff, hcells, fieldsApart_updateAll, hnames,
    purposeSignals_updateAll, fieldSignals_updateAll, sizeNames_updateAll, declared_updateAll]

variable {whole : Spec} {A : List Node} {v : View}

/-- A group draws distinct signals just if its fields are apart. -/
theorem unitSignals_nodup_iff (hb : Fits (fun s _ => s.Built whole) A v) (hg : Fits Gathered A v)
    (hnames : (v.groupSelections.map Selection.name).Nodup) :
    ((Site.unitSignals ⟨A, v⟩).map Signal.name).Nodup ↔ v.FieldsApart := by
  rw [(unitSignals_names hb hg).nodup_iff, List.nodup_append', fieldsApart_iff]
  constructor
  · rintro ⟨-, hnodup, hdisjoint⟩
    exact ⟨hnodup, hdisjoint⟩
  · rintro ⟨hnodup, hdisjoint⟩
    exact ⟨purposeSignals_nodup hnames, hnodup, hdisjoint⟩

/-- Selections of one group are declared in the tree. -/
theorem groupSelections_sublist {s : Site} (hs : s ∈ v.sites A) :
    s.view.groupSelections.Sublist v.declared := by
  have hnodes : s.view.nodes.Sublist v.nodes := by
    rw [← sites_map_node s.ancestors, ← sites_map_node A]
    exact (preOrder_sublist hs).map Site.node
  exact ((openUnits_sublist s.view).trans hnodes).flatMap _

/-- The pointed group is named like no size and no signal of a selection. -/
theorem unitSignal_apart (v : View) : v.sizeNames.Disjoint [Naming.unitSignal] ∧
    [Naming.unitSignal].Disjoint (v.purposeSignals ++ v.fieldSignals) := by
  refine ⟨?_, ?_⟩
  · rw [List.disjoint_singleton]
    exact unitSignal_not_mem_sizeNames v
  · rw [List.singleton_disjoint]
    intro hname
    exact absurd (separator_mem_signals hname) (by decide)

/-- Of the kinds of signals at the top, most are apart anyway. -/
theorem topNames_nodup_iff {pointed : List String} (hpointed : pointed ⊆ [Naming.unitSignal])
    (honce : pointed.Nodup) (hselections : v.selectionNames.Nodup)
    (hnodes : (v.nodes.map Node.name).Nodup) :
    (v.sizeNames ++ (pointed ++ v.selectionNames) ++ (v.purposeSignals ++ v.fieldSignals)).Nodup ↔
      v.FieldsApart ∧ v.selectionNames.Disjoint (v.purposeSignals ++ v.fieldSignals) ∧
        pointed.Disjoint v.selectionNames ∧
          v.sizeNames.Disjoint (v.selectionNames ++ v.fieldSignals) := by
  have hsizes : v.sizeNames.Nodup := sizeNames_nodup hnodes
  have hpurposes : v.purposeSignals.Nodup := by
    apply purposeSignals_nodup
    exact hselections.sublist ((groupSelections_sublist (self_mem_sites [] v)).map Selection.name)
  have hends : v.sizeNames.Disjoint v.purposeSignals := sizeNames_disjoint_purposes v v
  obtain ⟨hunit, hunits⟩ := unitSignal_apart v
  have hbefore : v.sizeNames.Disjoint pointed :=
    List.disjoint_of_subset_right hpointed hunit
  have hbehind : pointed.Disjoint (v.purposeSignals ++ v.fieldSignals) :=
    List.disjoint_of_subset_left hpointed hunits
  rw [fieldsApart_iff]
  simp only [List.nodup_append', List.disjoint_append_left, List.disjoint_append_right] at hbehind ⊢
  tauto

/-- The signals at the top are distinct just if those differ that are not apart anyway. -/
theorem topSignals_nodup_iff (config : Config) (hb : Fits (fun s _ => s.Built whole) [] v)
    (hg : Fits Gathered [] v) (hnodes : (v.nodes.map Node.name).Nodup)
    (hkeys : (v.selectionKeys.map Naming.identifierText).Nodup) :
    ((Site.sizeSignals ⟨[], v⟩ config ++ Site.topSignals ⟨[], v⟩ ++
        Site.unitSignals ⟨[], v⟩).map Signal.name).Nodup ↔
      v.FieldsApart ∧ v.selectionNames.Disjoint (v.purposeSignals ++ v.fieldSignals) ∧
        ((∃ x ∈ v.declared, x.type = .interval) → Naming.unitSignal ∉ v.selectionNames) ∧
          v.sizeNames.Disjoint (v.selectionNames ++ v.fieldSignals) := by
  have hknown : (Site.selections ⟨[], v⟩).Perm v.declared := hg.self.selections_perm hkeys.of_map
  have hnames : v.selectionNames.Nodup := (declared_names v).nodup_iff.mpr hkeys
  let extents := (Site.selections ⟨[], v⟩).any (fun x => x.type = .interval)
  have hextents : extents = true ↔ ∃ x ∈ v.declared, x.type = .interval := by
    rw [List.any_eq_true]
    simp only [hknown.mem_iff, decide_eq_true_eq]
  let pointed := if extents then [Naming.unitSignal] else []
  have htop : ((Site.topSignals ⟨[], v⟩).map Signal.name).Perm (pointed ++ v.selectionNames) := by
    have hmap : (Site.topSignals ⟨[], v⟩).map Signal.name =
        pointed ++ (Site.selections ⟨[], v⟩).map Selection.name := by
      unfold Site.topSignals
      rw [List.map_append, List.map_map, apply_ite (List.map Signal.name)]
      rfl
    rw [hmap]
    exact (hknown.map Selection.name).append_left pointed
  have hall : ((Site.sizeSignals ⟨[], v⟩ config ++ Site.topSignals ⟨[], v⟩ ++
      Site.unitSignals ⟨[], v⟩).map Signal.name).Perm
        (v.sizeNames ++ (pointed ++ v.selectionNames) ++ (v.purposeSignals ++ v.fieldSignals)) := by
    rw [List.map_append, List.map_append]
    exact ((sizeSignals_names config hb).append htop).append (unitSignals_names hb hg)
  have hpointed : pointed.Disjoint v.selectionNames ↔
      ((∃ x ∈ v.declared, x.type = .interval) → Naming.unitSignal ∉ v.selectionNames) := by
    rw [← hextents]
    dsimp only [pointed]
    cases extents with
    | true => simp
    | false => simp
  have honce : pointed ⊆ [Naming.unitSignal] ∧ pointed.Nodup := by
    dsimp only [pointed]
    cases extents with
    | true => simp
    | false => simp
  rw [hall.nodup_iff, topNames_nodup_iff honce.1 honce.2 hnames hnodes, hpointed]

/-- The signals in the cells of all facets are distinct just if the fields of each are apart. -/
theorem cellSignals_nodup_iff {pipeline : Pipeline} {ms : List GroupMark}
    (hb : Fits (fun s _ => s.Built whole) [] v) (hg : Fits Gathered [] v)
    (hnames : v.selectionNames.Nodup) (hms : v.marks pipeline [] = .ok ms) :
    (∀ cell ∈ (Site.groupOf ⟨[], v⟩ ms).cells, (cell.content.signals.map Signal.name).Nodup) ↔
      ∀ s ∈ Site.facets ⟨[], v⟩, ∀ c ∈ s.view.children, c.FieldsApart := by
  rw [Site.groupOf_cells]
  refine forall₂_forall_iff (marks_cells hb hms) ?_
  intro cell s hs hdraws
  obtain ⟨child, hchild, hgroup⟩ := hdraws.content
  obtain ⟨inner, -, hcontent⟩ := Site.group_eq_ok.mp hgroup
  have hmem : ⟨s.lineage, child⟩ ∈ v.sites [] := by
    refine child_mem_sites (List.mem_filter.mp hs).1 ?_
    rw [hchild]
    exact List.mem_cons_self
  have hselections : (child.groupSelections.map Selection.name).Nodup :=
    hnames.sublist ((groupSelections_sublist hmem).map Selection.name)
  rw [hcontent, hchild, List.forall_mem_singleton]
  exact unitSignals_nodup_iff (fun t ht => hb t (mem_sites_trans hmem ht))
    (fun t ht => hg t (mem_sites_trans hmem ht)) hselections

end View

/-! ### Visualizations -/

/-- No two signals clash: neither at the top nor within the cells of one facet. -/
def Visualization.SignalsDistinct (v : Visualization) : Prop :=
  ((v.signals ++ v.group.signals).map Signal.name).Nodup ∧
    ∀ cell ∈ v.group.cells, (cell.content.signals.map Signal.name).Nodup

/-- The signals that a tree is assembled to are distinct just if those of the tree keep apart. -/
theorem Tree.signalsDistinct_iff {t : Tree} {pipeline : Pipeline} {whole : Spec} {v : Visualization}
    (h : t.assemble pipeline = .ok v) (hb : View.Fits (fun s _ => s.Built whole) [] t.root)
    (hg : View.Fits Gathered [] t.root) (hnodes : (t.root.nodes.map Node.name).Nodup)
    (hkeys : (t.root.selectionKeys.map Naming.identifierText).Nodup) :
    v.SignalsDistinct ↔ t.root.SignalsApart := by
  obtain ⟨data, ms, -, hms, -, hsignals, hgroup⟩ := assemble_ok h
  have hnames : t.root.selectionNames.Nodup := (View.declared_names t.root).nodup_iff.mpr hkeys
  have htop := View.topSignals_nodup_iff t.config hb hg hnodes hkeys
  have hcells := View.cellSignals_nodup_iff hb hg hnames hms
  have hdrawn : v.SignalsDistinct ↔
      ((Site.sizeSignals ⟨[], t.root⟩ t.config ++ Site.topSignals ⟨[], t.root⟩ ++
        Site.unitSignals ⟨[], t.root⟩).map Signal.name).Nodup ∧
      ∀ cell ∈ (Site.groupOf ⟨[], t.root⟩ ms).cells,
        (cell.content.signals.map Signal.name).Nodup := by
    unfold Visualization.SignalsDistinct
    rw [hsignals, hgroup]
    rfl
  rw [hdrawn, htop, hcells, View.signalsApart_iff]
  tauto

namespace Compiler

variable {compiler : Compiler} {spec : Spec} {compiled : Compiled} {t : Tree} {ds : List Diagnostic}

/-- Where selections differ in name, all signals of a visualization are distinct just if the brushed
fields, the selections and the sizes of the tree keep apart. -/
theorem signals_nodup_iff (h : compiler.compile spec = .ok compiled)
    (hb : compiler.build spec = .ok (t, ds))
    (hkeys : (t.root.selectionKeys.map Naming.identifierText).Nodup) :
    compiled.visualization.SignalsDistinct ↔ t.root.SignalsApart := by
  obtain ⟨built, ds', hb', -, hassemble, -⟩ := compile_ok h
  obtain ⟨rfl, rfl⟩ : t = built ∧ ds = ds' := Prod.mk.inj (Except.ok.inj (hb.symm.trans hb'))
  let final := (t.runPhases compiler.pipeline Phase.all).tree
  have hnodes : (final.root.nodes.map Node.name).Nodup :=
    Tree.names_of_build hb compiler.pipeline
      [.layoutSize, .selection, .markGroup, .axisAndHeader, .legend]
  -- what is declared is the same in the tree as built and in the one that is drawn
  have hstrip : final.root.strip = t.root.strip :=
    Tree.runPhases_strip compiler.pipeline Phase.all t
  have hfinal : (final.root.selectionKeys.map Naming.identifierText).Nodup := by
    let distinct (v : View) : Prop := (v.selectionKeys.map Naming.identifierText).Nodup
    have hblind : ∀ g v, distinct (View.updateAll g v) ↔ distinct v := by
      intro g v
      dsimp only [distinct]
      rw [View.selectionKeys_updateAll]
    exact (View.iff_of_strip_eq hblind hstrip).mpr hkeys
  have hapart : final.root.SignalsApart ↔ t.root.SignalsApart :=
    View.iff_of_strip_eq View.signalsApart_updateAll hstrip
  have hdrawn := Tree.signalsDistinct_iff hassemble
    (Tree.built_of_build hb compiler.pipeline Phase.all)
    (Tree.gathered_of_build hb compiler.pipeline) hnodes hfinal
  exact hdrawn.trans hapart

end Compiler

/-! ### A brush -/

/-- Points with a field along x that a brush selects by. -/
def Spec.brushedPoints (field : String) : Spec :=
  .unit ⟨⟨none, none, none, none⟩, ⟨none, none⟩, ⟨.point, none⟩,
    .ofList [
      (.x, .field { FieldDef.unset with field := some field, type := some .quantitative }),
      (.y, .field { FieldDef.unset with field := some "b", type := some .quantitative })],
    .ofList [("brush", ⟨.interval, none, some [.x], none⟩)]⟩

namespace Compiler

/-- A brush over the field a has distinct signals. -/
theorem signals_nodup_brushedPoints : ∃ compiled t ds,
    standard.compile (.brushedPoints "a") = .ok compiled ∧
      standard.build (.brushedPoints "a") = .ok (t, ds) ∧
        (t.root.selectionKeys.map Naming.identifierText).Nodup ∧
          t.root.SignalsApart ∧ compiled.visualization.SignalsDistinct := by
  have happlies : (standard.build (.brushedPoints "a")).toOption.any (fun r =>
      decide ((r.1.root.selectionKeys.map Naming.identifierText).Nodup ∧
        r.1.root.SignalsApart)) = true := by
    decide +kernel
  have hcompiles : (standard.compile (.brushedPoints "a")).toOption.any (fun _ => true) = true := by
    decide +kernel
  obtain ⟨⟨t, ds⟩, hb, happlies⟩ := exists_ok_of_any happlies
  obtain ⟨compiled, hc, -⟩ := exists_ok_of_any hcompiles
  obtain ⟨hkeys, hapart⟩ := of_decide_eq_true happlies
  exact ⟨compiled, t, ds, hc, hb, hkeys, hapart, (signals_nodup_iff hc hb hkeys).mpr hapart⟩

/-- A brush over a field that is named like its channel has one signal twice. -/
theorem signals_clash : ¬ ∀ (compiler : Compiler) spec compiled t ds,
    compiler.compile spec = .ok compiled → compiler.build spec = .ok (t, ds) →
      (t.root.selectionKeys.map Naming.identifierText).Nodup →
        compiled.visualization.SignalsDistinct := by
  intro hall
  have hkeys : (standard.build (.brushedPoints "x")).toOption.any (fun r =>
      decide ((r.1.root.selectionKeys.map Naming.identifierText).Nodup)) = true := by
    decide +kernel
  have htwice : (standard.compile (.brushedPoints "x")).toOption.any (fun c =>
      decide (¬ ((c.visualization.signals ++ c.visualization.group.signals).map
        Signal.name).Nodup)) = true := by
    decide +kernel
  obtain ⟨⟨t, ds⟩, hb, hkeys⟩ := exists_ok_of_any hkeys
  obtain ⟨compiled, hc, htwice⟩ := exists_ok_of_any htwice
  obtain ⟨htop, -⟩ := hall standard _ compiled t ds hc hb (of_decide_eq_true hkeys)
  exact of_decide_eq_true htwice htop

end Compiler
end Trellis
