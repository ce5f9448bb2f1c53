import Mathlib.Data.List.Induction
import Trellis.Proofs.Cells
import Trellis.Proofs.Datasets
import Trellis.Proofs.Reports

/-! Columns: how the field definitions of a built tree come by theirs, and which of them the formulas
of `main` compute. -/
namespace Trellis

/-! ### What a definition asks for -/

/-- How a column comes about: taken as it is, cut down to a time unit, aggregated or counted. -/
inductive Derivation where
  | raw (field : String)
  | timeUnit (unit field : String)
  | aggregate (op field : String)
  | count
deriving DecidableEq

/-- The name of the column. -/
def Derivation.column : Derivation → String
  | raw field => field
  | timeUnit unit field => unit ++ "_" ++ field
  | aggregate op field => op ++ "_" ++ field
  | count => "count_*"

namespace FieldDef

variable {f : FieldDef} {op unit field : String}

/-- What a definition asks for, if it leads to data. An aggregate goes before a time unit. -/
def derivation? (f : FieldDef) : Option Derivation :=
  match f.aggregate, f.timeUnit with
  | some op, _ => if op = "count" then some .count else f.field.map (.aggregate op)
  | none, some unit => f.field.map (.timeUnit unit)
  | none, none => f.field.map .raw

theorem isCount_iff : f.isCount = true ↔ f.aggregate = some "count" := beq_iff_eq

theorem not_isCount_of_no_aggregate (h : f.aggregate = none) : f.isCount = false := by
  rw [isCount, h]
  rfl

theorem derivation?_isSome (f : FieldDef) : f.derivation?.isSome = f.hasField := by
  unfold derivation? hasField isCount
  cases f.aggregate with
  | none => cases f.timeUnit <;> simp
  | some op => by_cases hop : op = "count" <;> simp [hop]

theorem exists_derivation (h : f.hasField = true) : ∃ d, f.derivation? = some d := by
  rw [← derivation?_isSome] at h
  exact Option.isSome_iff_exists.mp h

theorem derivation?_eq_count_iff : f.derivation? = some .count ↔ f.aggregate = some "count" := by
  unfold derivation?
  cases f.aggregate with
  | none => cases f.timeUnit <;> simp
  | some op => by_cases hop : op = "count" <;> simp [hop]

theorem derivation?_eq_aggregate_iff : f.derivation? = some (.aggregate op field) ↔
    f.aggregate = some op ∧ op ≠ "count" ∧ f.field = some field := by
  unfold derivation?
  cases f.aggregate with
  | none => cases f.timeUnit <;> simp
  | some other =>
    by_cases hother : other = "count"
    · simp +contextual [hother, eq_comm]
    · simp only [hother, if_false, Option.map_eq_some_iff, Derivation.aggregate.injEq,
        Option.some.injEq]
      constructor
      · rintro ⟨_, hf, rfl, rfl⟩
        exact ⟨rfl, hother, hf⟩
      · rintro ⟨rfl, -, hf⟩
        exact ⟨field, hf, rfl, rfl⟩

theorem derivation?_eq_timeUnit_iff : f.derivation? = some (.timeUnit unit field) ↔
    f.aggregate = none ∧ f.timeUnit = some unit ∧ f.field = some field := by
  unfold derivation?
  cases f.aggregate with
  | none => cases f.timeUnit <;> simp [and_comm]
  | some op => by_cases hop : op = "count" <;> simp [hop]

theorem derivation?_eq_raw_iff : f.derivation? = some (.raw field) ↔
    f.aggregate = none ∧ f.timeUnit = none ∧ f.field = some field := by
  unfold derivation?
  cases f.aggregate with
  | none => cases f.timeUnit <;> simp
  | some op => by_cases hop : op = "count" <;> simp [hop]

/-- The column that a definition reads is the one it asks for. -/
theorem column_eq {d : Derivation} (h : f.derivation? = some d) : f.column = d.column := by
  unfold column
  cases d with
  | count =>
    rw [if_pos (isCount_iff.mpr (derivation?_eq_count_iff.mp h))]
    rfl
  | aggregate op field =>
    obtain ⟨ha, hop, hf⟩ := derivation?_eq_aggregate_iff.mp h
    have hcount : ¬ f.isCount = true := fun hc =>
      hop (Option.some.inj (ha.symm.trans (isCount_iff.mp hc)))
    rw [if_neg hcount, ha, hf]
    rfl
  | timeUnit unit field =>
    obtain ⟨ha, ht, hf⟩ := derivation?_eq_timeUnit_iff.mp h
    rw [not_isCount_of_no_aggregate ha, ha, ht, hf]
    rfl
  | raw field =>
    obtain ⟨ha, ht, hf⟩ := derivation?_eq_raw_iff.mp h
    rw [not_isCount_of_no_aggregate ha, ha, ht, hf]
    rfl

end FieldDef

/-! ### What nodes keep -/

theorem UnitView.mem_fieldDefs {u : UnitView} {f : FieldDef} :
    f ∈ u.fieldDefs ↔ ∃ c, u.fieldDef? c = some f := by
  unfold fieldDefs fieldDef?
  rw [List.mem_filterMap]
  constructor
  · rintro ⟨d, hd, hf⟩
    obtain ⟨c, hc⟩ := Dict.mem_values_iff.mp hd
    exact ⟨c, by rw [hc, Option.bind_some, hf]⟩
  · rintro ⟨c, hc⟩
    obtain ⟨d, hd, hf⟩ := Option.bind_eq_some_iff.mp hc
    exact ⟨d, Dict.mem_values_iff.mpr ⟨c, hd⟩, hf⟩

namespace Node

/-- The field definitions of a unit's channels or of a facet's grid. -/
def fieldDefs (n : Node) : List FieldDef :=
  match n.kind with
  | .unit u => u.fieldDefs
  | .facet f => f.fieldDefs
  | .layer _ => []

/-- The definitions of a node lead to data, and a facet binds nothing but rows and columns. -/
structure Bound (n : Node) : Prop where
  hasField : ∀ f ∈ n.fieldDefs, f.hasField = true
  grid : ∀ g, n.facet? = some g → ∀ c, (g.fieldDef? c).isSome = true → c = .row ∨ c = .column

theorem fieldDefs_unit {n : Node} {u : UnitView} (h : n.kind = .unit u) :
    n.fieldDefs = u.fieldDefs := by
  rw [fieldDefs, h]

theorem fieldDefs_facet {n : Node} {g : FacetView} (h : n.facet? = some g) :
    n.fieldDefs = g.fieldDefs := by
  rw [fieldDefs, kind_of_facet? h]

/-- In a facet that binds nothing else, the definitions are those of its channels. -/
theorem Bound.mem_fieldDefs {n : Node} (h : n.Bound) {g : FacetView} (hg : n.facet? = some g)
    {f : FieldDef} : f ∈ n.fieldDefs ↔ ∃ c, g.fieldDef? c = some f := by
  rw [fieldDefs_facet hg, FacetView.fieldDefs, List.mem_filterMap]
  constructor
  · rintro ⟨c, -, hc⟩
    exact ⟨c, hc⟩
  · rintro ⟨c, hc⟩
    refine ⟨c, ?_, hc⟩
    have hsome : (g.fieldDef? c).isSome = true := by rw [hc]; rfl
    rcases h.grid g hg c hsome with rfl | rfl <;> decide

end Node

/-- What is accounted for leads to data. -/
theorem Spec.Accounted.bound {s : Spec} {n : Node} (h : s.Accounted n) : n.Bound := by
  cases s with
  | unit s =>
    obtain ⟨u, hk, hkept, -⟩ := h
    refine ⟨?_, ?_⟩
    · intro f hf
      rw [Node.fieldDefs_unit hk] at hf
      obtain ⟨c, hc⟩ := UnitView.mem_fieldDefs.mp hf
      obtain ⟨d, hd, hdf⟩ := Option.bind_eq_some_iff.mp hc
      rw [hkept, UnitSpec.kept, Dict.get?_mapValues, Dict.get?_filter] at hd
      obtain ⟨asked, hasked, rfl⟩ := Option.map_eq_some_iff.mp hd
      obtain ⟨-, hnone⟩ := Option.filter_eq_some_iff.mp hasked
      cases asked with
      | value j => cases hdf
      | field g =>
        obtain rfl : g.normalize = f := Option.some.inj hdf
        -- a definition without a field would have been refused
        unfold UnitSpec.refusal? at hnone
        show g.hasField = true
        by_contra hno
        rw [Bool.not_eq_true] at hno
        simp [ChannelDef.fieldDef?, hno] at hnone
        split at hnone <;> simp at hnone
    · intro g hg
      rw [Node.facet?, hk] at hg
      cases hg
  | layer s cs =>
    have hk : n.kind = .layer s.size := h
    refine ⟨?_, ?_⟩
    · intro f hf
      rw [Node.fieldDefs, hk] at hf
      cases hf
    · intro g hg
      rw [Node.facet?, hk] at hg
      cases hg
  | facet s child =>
    obtain ⟨g, hk, hkept, -⟩ := h
    have hown : ∀ c f, g.fieldDef? c = some f → c.isFacet = true ∧ f.hasField = true := by
      intro c f hf
      rw [FacetView.fieldDef?, hkept, FacetSpec.kept, Dict.get?_mapValues, Dict.get?_filter] at hf
      obtain ⟨asked, hasked, rfl⟩ := Option.map_eq_some_iff.mp hf
      obtain ⟨-, hnone⟩ := Option.filter_eq_some_iff.mp hasked
      unfold FacetSpec.refusal? at hnone
      split at hnone
      · rename_i hc
        split at hnone
        · rename_i hf
          exact ⟨hc, hf⟩
        · cases hnone
      · cases hnone
    have hfacet : n.facet? = some g := by rw [Node.facet?, hk]
    refine ⟨?_, ?_⟩
    · intro f hf
      rw [Node.fieldDefs_facet hfacet] at hf
      obtain ⟨c, -, hc⟩ := List.mem_filterMap.mp hf
      exact (hown c f hc).2
    · intro g' hg' c hc
      obtain rfl : g = g' := Option.some.inj (hfacet.symm.trans hg')
      obtain ⟨f, hf⟩ := Option.isSome_iff_exists.mp hc
      have hgrid := (hown c f hf).1
      cases c with
      | row => exact .inl rfl
      | column => exact .inr rfl
      | _ => cases hgrid

/-- All definitions of a built tree lead to data, whatever has been worked out since. -/
theorem Tree.bound_of_build {spec : Spec} {config : Config} {t : Tree} {ds : List Diagnostic}
    (h : Tree.build spec config = .ok (t, ds)) (pipeline : Pipeline) (phases : List Phase) :
    ∀ n ∈ (t.runPhases pipeline phases).tree.root.nodes, n.Bound := by
  have hall : List.Forall₂ Spec.Accounted spec.parts
      (t.runPhases pipeline phases).tree.root.nodes :=
    Tree.runPhases_accounted phases (Tree.build_accounted h).1
  intro n hn
  obtain ⟨s, -, hs⟩ := exists_of_forall₂ hall hn
  exact hs.bound

/-! ### What `main` computes -/

namespace DataComponent

/-- Formulas worked out for some definitions, with the columns that they compute. -/
structure FormulasOf (fs : List FieldDef) (done : List String × List Transform) : Prop where
  sound : ∀ tr ∈ done.2, ∃ f ∈ fs, ∃ unit field, f.timeUnit = some unit ∧ f.field = some field ∧
    tr = .timeUnit f.column unit field
  computed : ∀ column ∈ done.1, ∃ unit field, Transform.timeUnit column unit field ∈ done.2
  complete : ∀ f ∈ fs, f.timeUnit.isSome = true → f.field.isSome = true → f.column ∈ done.1

/-- A definition whose column is computed, or that has no time unit or no field, adds nothing. -/
theorem FormulasOf.skip {fs : List FieldDef} {done : List String × List Transform}
    (h : FormulasOf fs done) {f : FieldDef}
    (hf : f.timeUnit.isSome = true → f.field.isSome = true → f.column ∈ done.1) :
    FormulasOf (fs ++ [f]) done := by
  refine ⟨?_, h.computed, ?_⟩
  · intro tr htr
    obtain ⟨g, hg, rest⟩ := h.sound tr htr
    exact ⟨g, List.mem_append_left _ hg, rest⟩
  · intro g hg
    rcases List.mem_append.mp hg with hg | hg
    · exact h.complete g hg
    · obtain rfl := List.mem_singleton.mp hg
      exact hf

theorem FormulasOf.add {fs : List FieldDef} {done : List String × List Transform}
    (h : FormulasOf fs done) {f : FieldDef} {unit field : String} (hu : f.timeUnit = some unit)
    (hf : f.field = some field) :
    FormulasOf (fs ++ [f]) (done.1 ++ [f.column], done.2 ++ [.timeUnit f.column unit field]) := by
  refine ⟨?_, ?_, ?_⟩
  · intro tr htr
    rcases List.mem_append.mp htr with htr | htr
    · obtain ⟨g, hg, rest⟩ := h.sound tr htr
      exact ⟨g, List.mem_append_left _ hg, rest⟩
    · obtain rfl := List.mem_singleton.mp htr
      exact ⟨f, List.mem_append_right _ (List.mem_singleton_self f), unit, field, hu, hf, rfl⟩
  · intro column hcolumn
    rcases List.mem_append.mp hcolumn with hcolumn | hcolumn
    · obtain ⟨unit, field, htr⟩ := h.computed column hcolumn
      exact ⟨unit, field, List.mem_append_left _ htr⟩
    · obtain rfl := List.mem_singleton.mp hcolumn
      exact ⟨unit, field, List.mem_append_right _ (List.mem_singleton_self _)⟩
  · intro g hg hgu hgf
    rcases List.mem_append.mp hg with hg | hg
    · exact List.mem_append_left _ (h.complete g hg hgu hgf)
    · obtain rfl := List.mem_singleton.mp hg
      exact List.mem_append_right _ (List.mem_singleton_self _)

theorem exists_formulasOf (fs : List FieldDef) :
    ∃ columns, FormulasOf fs (columns, timeUnitTransforms fs) := by
  unfold timeUnitTransforms
  refine ⟨_, (?_ : FormulasOf fs (fs.foldl _ ([], [])))⟩
  induction fs using List.reverseRecOn with
  | nil => exact ⟨List.forall_mem_nil _, List.forall_mem_nil _, List.forall_mem_nil _⟩
  | append_singleton before f ih =>
    rw [List.foldl_append, List.foldl_cons, List.foldl_nil]
    dsimp only
    split
    · rename_i unit field hu hf
      split
      · rename_i hdone
        exact ih.skip (fun _ _ => List.contains_iff_mem.mp hdone)
      · exact ih.add hu hf
    · rename_i hno
      refine ih.skip (fun hu hf => ?_)
      obtain ⟨unit, hu⟩ := Option.isSome_iff_exists.mp hu
      obtain ⟨field, hf⟩ := Option.isSome_iff_exists.mp hf
      exact absurd hf (hno unit field hu)

end DataComponent

/-- A formula of the dataset computes a column, which is named after its time unit and its field. -/
def Dataset.Computes (d : Dataset) (column : String) : Prop :=
  ∃ unit field, Transform.timeUnit column unit field ∈ d.transform ∧ column = unit ++ "_" ++ field

namespace View

variable {v : View}

/-- The records that every view of a tree starts from. -/
def mainData (v : View) : Dataset :=
  .derived Naming.main Naming.source
    ((if v.nodes.any Node.needsIdentifier then [.identify Naming.identifier] else []) ++
      DataComponent.timeUnitTransforms (v.nodes.flatMap Node.timeUnitFieldDefs))

/-- A tree that is described emits these records. -/
theorem mainData_mem {input : Option DataDef} (h : Fits (Described input) [] v) :
    v.mainData ∈ v.nodes.flatMap (fun n => n.data.sources) := by
  have hroot : (⟨[], v⟩ : Site).isRoot = true := rfl
  rw [sources_of_sites h]
  refine List.mem_flatMap.mpr ⟨⟨[], v⟩, self_mem_sites [] v, ?_⟩
  rw [parse_sources, if_pos hroot]
  exact List.mem_append_left _ (List.mem_cons_of_mem _ (List.mem_singleton_self _))

theorem mem_timeUnitFieldDefs {n : Node} {f : FieldDef} :
    f ∈ n.timeUnitFieldDefs ↔ f ∈ n.fieldDefs ∧ f.timeUnit.isSome = true ∧ f.aggregate = none := by
  have hfilter : n.timeUnitFieldDefs =
      n.fieldDefs.filter (fun f => f.timeUnit.isSome && f.aggregate.isNone) := rfl
  rw [hfilter, List.mem_filter, Bool.and_eq_true, Option.isNone_iff_eq_none]

/-- The columns that are computed are those of the definitions that ask for a time unit. -/
theorem mainData_computes_iff {column : String} :
    v.mainData.Computes column ↔ ∃ n ∈ v.nodes, ∃ f ∈ n.fieldDefs, ∃ unit field,
      f.derivation? = some (.timeUnit unit field) ∧ f.column = column := by
  obtain ⟨columns, hformulas⟩ :=
    DataComponent.exists_formulasOf (v.nodes.flatMap Node.timeUnitFieldDefs)
  constructor
  · rintro ⟨unit, field, htr, -⟩
    have hformula : Transform.timeUnit column unit field ∈
        DataComponent.timeUnitTransforms (v.nodes.flatMap Node.timeUnitFieldDefs) := by
      rcases List.mem_append.mp htr with hid | hformula
      · split at hid
        · cases List.mem_singleton.mp hid
        · cases hid
      · exact hformula
    obtain ⟨f, hf, unit', field', hu, hfield, htr⟩ := hformulas.sound _ hformula
    obtain ⟨n, hn, hf⟩ := List.mem_flatMap.mp hf
    obtain ⟨hf, -, ha⟩ := mem_timeUnitFieldDefs.mp hf
    refine ⟨n, hn, f, hf, unit', field', ?_, ?_⟩
    · exact FieldDef.derivation?_eq_timeUnit_iff.mpr ⟨ha, hu, hfield⟩
    · injection htr with hcolumn
      exact hcolumn.symm
  · rintro ⟨n, hn, f, hf, unit, field, hd, rfl⟩
    obtain ⟨ha, hu, hfield⟩ := FieldDef.derivation?_eq_timeUnit_iff.mp hd
    have hmem : f ∈ v.nodes.flatMap Node.timeUnitFieldDefs := by
      refine List.mem_flatMap.mpr ⟨n, hn, mem_timeUnitFieldDefs.mpr ⟨hf, ?_, ha⟩⟩
      rw [hu]
      rfl
    have hdone := hformulas.complete f hmem (by rw [hu]; rfl) (by rw [hfield]; rfl)
    obtain ⟨unit', field', htr⟩ := hformulas.computed f.column hdone
    -- the formula may be that of another definition, with the same column
    obtain ⟨g, hg, unit'', field'', hgu, hgf, hsame⟩ := hformulas.sound _ htr
    obtain ⟨m, hm, hg⟩ := List.mem_flatMap.mp hg
    obtain ⟨-, -, hga⟩ := mem_timeUnitFieldDefs.mp hg
    have hgd := FieldDef.derivation?_eq_timeUnit_iff.mpr ⟨hga, hgu, hgf⟩
    injection hsame with hcolumn hunit hfield'
    refine ⟨unit', field', List.mem_append_right _ htr, ?_⟩
    rw [hcolumn, FieldDef.column_eq hgd, hunit, hfield']
    rfl

end View

/-! ### Trees that are drawn -/

/-- A tree that has come through all phases, and the visualization that it is assembled into. -/
structure Tree.DrawnAs (t : Tree) (whole : Spec) (v : Visualization) : Prop where
  assembled : t.assemble .standard = .ok v
  ready : View.Fits (ReadyToDraw whole t.data) [] t.root
  made : View.Fits Made [] t.root
  headed : View.Fits Headed [] t.root
  bound : ∀ n ∈ t.root.nodes, n.Bound
  names : (t.root.nodes.map Node.name).Nodup
  data_eq : v.data =
    t.root.nodes.flatMap (fun n => n.data.sources) ++ t.rootSite.selectionStores
  cells : List.Forall₂ (Site.Draws .standard) v.group.cells t.rootSite.facets

namespace Tree

variable {whole spec : Spec} {config : Config} {t : Tree} {ds : List Diagnostic} {v : Visualization}

theorem drawnAs_of_build (h : Tree.build spec config = .ok (t, ds)) :
    (t.parse .standard).tree.DrawnAs spec (t.parse .standard).tree.drawn := by
  obtain ⟨hbuilt, hbare, -⟩ := Tree.build_ok (G := fun _ => True) h
  obtain ⟨herror, hreached⟩ := hbuilt.parse trivial spec.guideExtras_true hbare
  have hassemble := assemble_eq hreached
  have hready := readyToDraw_of_complete (View.complete_of_known hreached.known)
  refine ⟨hassemble, hready, ?_, ?_, ?_, hreached.names_nodup hbare, rfl, ?_⟩
  · rw [parse_of_build h] at herror ⊢
    exact made_of_build h herror
  · rw [parse_of_build h] at herror ⊢
    exact headed_of_build h herror
  · rw [parse_of_build h]
    exact bound_of_build h .standard Phase.all
  · obtain ⟨data, ms, -, hms, -, -, hgroup⟩ := assemble_ok hassemble
    rw [hgroup, Site.groupOf_cells]
    exact View.marks_cells (hready.mono (fun _ _ hk => hk.1)) hms

theorem DrawnAs.built (h : t.DrawnAs whole v) :
    View.Fits (fun s _ => s.Built whole) [] t.root :=
  h.ready.mono (fun _ _ hk => hk.1)

theorem DrawnAs.described (h : t.DrawnAs whole v) : View.Fits (Described t.data) [] t.root :=
  h.ready.mono (fun _ _ hk => hk.2.1)

/-- What a node emits outside all cells is emitted. -/
theorem DrawnAs.mem_data (h : t.DrawnAs whole v) {n : Node} (hn : n ∈ t.root.nodes) {d : Dataset}
    (hd : d ∈ n.data.sources) : d ∈ v.data := by
  rw [h.data_eq]
  exact List.mem_append_left _ (List.mem_flatMap.mpr ⟨n, hn, hd⟩)

theorem DrawnAs.mainData_mem (h : t.DrawnAs whole v) : t.root.mainData ∈ v.data := by
  rw [h.data_eq]
  exact List.mem_append_left _ (View.mainData_mem h.described)

end Tree

end Trellis
