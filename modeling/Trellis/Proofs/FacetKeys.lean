import Trellis.Proofs.Columns
import Trellis.Proofs.Partition

/-! Facet keys: the columns that facets split their records by, and whether these are there in the
records. -/
namespace Trellis

/-- The column of a definition is there in the records that all views start from: it is the field
itself, or computed as a time unit. -/
def FieldDef.FoundIn (g : FieldDef) (main : Dataset) : Prop :=
  g.field = some g.column ∨ main.Computes g.column

/-- A column that is aggregated or counted is found where one of the same name is: a field that is
named like the count of itself, or a time unit. -/
def View.Supplies (v : View) (g : FieldDef) : Prop :=
  (g.isCount = true ∧ g.field = some g.column) ∨ ∃ n ∈ v.nodes, ∃ e ∈ n.fieldDefs, ∃ unit field,
    e.derivation? = some (.timeUnit unit field) ∧ e.column = g.column

/-- A column named after an operation on a field is not that field. -/
theorem FieldDef.isCount_of_field_eq_column {g : FieldDef} (ha : g.aggregate.isSome = true)
    (h : g.field = some g.column) : g.isCount = true := by
  by_contra hcount
  obtain ⟨op, hop⟩ := Option.isSome_iff_exists.mp ha
  have hne : op ≠ "count" := by
    rintro rfl
    exact hcount (isCount_iff.mpr hop)
  have hcolumn := column_eq (derivation?_eq_aggregate_iff.mpr ⟨hop, hne, h⟩)
  -- the operation and the separator make the column longer than the field
  have hlength := congrArg (fun text => text.toList.length) hcolumn
  rw [Derivation.column, Naming.toList_joined, List.length_append, List.length_cons] at hlength
  omega

/-- Of the definitions that lead to data, those without an aggregate always find their columns. -/
theorem View.foundIn_mainData_iff {v : View} {n : Node} (hn : n ∈ v.nodes) {g : FieldDef}
    (hg : g ∈ n.fieldDefs) (hfield : g.hasField = true) :
    g.FoundIn v.mainData ↔ (g.aggregate.isSome = true → v.Supplies g) := by
  unfold FieldDef.FoundIn View.Supplies
  rw [mainData_computes_iff]
  constructor
  · rintro (hsame | hcomputed) ha
    · exact .inl ⟨FieldDef.isCount_of_field_eq_column ha hsame, hsame⟩
    · exact .inr hcomputed
  · intro h
    obtain ⟨d, hd⟩ := FieldDef.exists_derivation hfield
    cases d with
    | raw field =>
      rw [FieldDef.column_eq hd]
      exact .inl (FieldDef.derivation?_eq_raw_iff.mp hd).2.2
    | timeUnit unit field => exact .inr ⟨n, hn, g, hg, unit, field, hd, rfl⟩
    | count =>
      rcases h (by rw [FieldDef.derivation?_eq_count_iff.mp hd]; rfl) with ⟨-, hsame⟩ | hcomputed
      · exact .inl hsame
      · exact .inr hcomputed
    | aggregate op field =>
      rcases h (by rw [(FieldDef.derivation?_eq_aggregate_iff.mp hd).1]; rfl) with
        ⟨-, hsame⟩ | hcomputed
      · exact .inl hsame
      · exact .inr hcomputed

/-! ### Cells and headers -/

/-- The cells of a facet and the records of its headers are split by the columns that it binds, row
before column. -/
structure Cell.SplitBy (cell : Cell) (q : Site) (data : List Dataset) : Prop where
  groupby : cell.mark.groupby = q.node.fieldDefs.map FieldDef.column
  headers : ∀ c g, q.node.fieldDef? c = some g →
    .derived (q.node.qualify c.name) Naming.main [.group g.column] ∈ data

namespace Tree

variable {whole : Spec} {t : Tree} {v : Visualization} {q : Site} {f : FacetView} {cell : Cell}

/-- The cells that are drawn for a facet are those made for it. -/
theorem DrawnAs.cell_made (h : t.DrawnAs whole v) (hq : q ∈ t.rootSite.facets)
    (hf : q.node.facet? = some f) (hdraws : Site.Draws .standard cell q) :
    ∃ config root child, cell.mark = .ofFacet q.node config f root child := by
  have hmade := h.made q (List.mem_filter.mp hq).1
  unfold Made at hmade
  rw [Node.kind_of_facet? hf] at hmade
  obtain ⟨config, first, child, hmark⟩ := hmade
  obtain ⟨own, root, rest, hown, hcell⟩ := Site.cellMark_eq_ok hdraws.mark
  obtain ⟨hsame, -⟩ := List.cons.inj (hmark.symm.trans hown)
  obtain rfl := MarkComponent.cell.inj hsame
  exact ⟨config, root, child, hcell⟩

/-- The records for the headers of a facet are emitted. -/
theorem DrawnAs.headerSources_mem (h : t.DrawnAs whole v) (hq : q ∈ t.rootSite.facets)
    (hf : q.node.facet? = some f) {c : Channel} (hc : c = .row ∨ c = .column) {d : Dataset}
    (hd : d ∈ DataComponent.headerSources q.node c) : d ∈ v.data := by
  have hmem : q ∈ t.root.sites [] := (List.mem_filter.mp hq).1
  refine h.mem_data (View.mem_nodes_iff.mpr ⟨q, hmem, rfl⟩) ?_
  have hkind : DataComponent.ofKind q = DataComponent.ofFacet q := by
    unfold DataComponent.ofKind
    rw [Node.kind_of_facet? hf]
  rw [(h.described q hmem).data_eq, parse_sources, hkind]
  refine List.mem_append_right _ ?_
  rcases hc with rfl | rfl
  · exact List.mem_append_left _ hd
  · exact List.mem_append_right _ hd

theorem DrawnAs.splitBy (h : t.DrawnAs whole v) (hq : q ∈ t.rootSite.facets)
    (hdraws : Site.Draws .standard cell q) : cell.SplitBy q v.data := by
  obtain ⟨hmem, hfacet⟩ := List.mem_filter.mp hq
  obtain ⟨f, hf⟩ := Option.isSome_iff_exists.mp hfacet
  obtain ⟨config, root, child, hcell⟩ := h.cell_made hq hf hdraws
  refine ⟨?_, ?_⟩
  · rw [hcell, Node.fieldDefs_facet hf]
    rfl
  · intro c g hg
    have hbound := h.bound q.node (View.mem_nodes_iff.mpr ⟨q, hmem, rfl⟩)
    have hown : f.fieldDef? c = some g := by
      rwa [Node.fieldDef?, Node.kind_of_facet? hf] at hg
    refine h.headerSources_mem hq hf (hbound.grid f hf c (by rw [hown]; rfl)) ?_
    rw [DataComponent.headerSources, hg]
    exact List.mem_cons_self

end Tree

namespace Compiler

variable {config : Config} {spec : Spec} {compiled : Compiled}

/-- What compiles comes from a tree that is drawn. -/
theorem drawnAs_of_compile (h : (⟨.standard, config⟩ : Compiler).compile spec = .ok compiled) :
    ∃ t ds, (⟨.standard, config⟩ : Compiler).build spec = .ok (t, ds) ∧
      (t.parse .standard).tree.DrawnAs spec compiled.visualization := by
  obtain ⟨t, ds, hb, -, hassemble, -⟩ := compile_ok h
  have hdrawn := Tree.drawnAs_of_build hb
  rw [← Tree.parse_of_build hb, hdrawn.assembled] at hassemble
  exact ⟨t, ds, hb, Except.ok.inj hassemble ▸ hdrawn⟩

/-- Whatever compiles has, for each facet, cells and headers that are split by the columns that the
facet binds. A column that is not aggregated is found in `main`; one that is aggregated is not, unless
there happens to be a column of its name. -/
theorem facetKeys_found_iff (h : (⟨.standard, config⟩ : Compiler).compile spec = .ok compiled) :
    ∃ t ds, (⟨.standard, config⟩ : Compiler).build spec = .ok (t, ds) ∧
      let final := (t.parse .standard).tree
      ∃ main ∈ compiled.visualization.data, main.name = Naming.main ∧
        List.Forall₂ (fun cell q => cell.SplitBy q compiled.visualization.data)
          compiled.visualization.group.cells final.rootSite.facets ∧
        ∀ q ∈ final.rootSite.facets, ∀ g ∈ q.node.fieldDefs,
          g.FoundIn main ↔ (g.aggregate.isSome = true → final.root.Supplies g) := by
  obtain ⟨t, ds, hb, hdrawn⟩ := drawnAs_of_compile h
  refine ⟨t, ds, hb, _, hdrawn.mainData_mem, rfl, ?_, ?_⟩
  · exact (forall₂_mem hdrawn.cells).imp (fun _ _ hk => hdrawn.splitBy hk.2.1 hk.2.2)
  · intro q hq g hg
    have hn : q.node ∈ (t.parse .standard).tree.root.nodes :=
      View.mem_nodes_iff.mpr ⟨q, (List.mem_filter.mp hq).1, rfl⟩
    exact View.foundIn_mainData_iff hn hg ((hdrawn.bound q.node hn).hasField g hg)

end Compiler

/-! ### Rows of points -/

/-- Points in a row for each value of a column. -/
def Spec.pointsBy (key : FieldDef) : Spec :=
  .facet ⟨⟨none, none, none, none⟩, .ofList [(.row, key)], .empty⟩ points

namespace Compiler

/-- Years are computed for the rows that are split by them. -/
theorem facetKeys_found_years : ∃ compiled t ds,
    standard.compile (.pointsBy { FieldDef.unset with
      field := some "date", timeUnit := some "year" }) = .ok compiled ∧
    standard.build (.pointsBy { FieldDef.unset with
      field := some "date", timeUnit := some "year" }) = .ok (t, ds) ∧
    ∃ main ∈ compiled.visualization.data, main.name = Naming.main ∧
      ∃ q ∈ (t.parse .standard).tree.rootSite.facets, ∃ g ∈ q.node.fieldDefs, g.FoundIn main := by
  have hcompiles : (standard.compile (.pointsBy { FieldDef.unset with
      field := some "date", timeUnit := some "year" })).toOption.isSome = true := by
    decide +kernel
  have hplain : (standard.build (.pointsBy { FieldDef.unset with
      field := some "date", timeUnit := some "year" })).toOption.any (fun r =>
        (r.1.parse .standard).tree.rootSite.facets.any (fun q =>
          q.node.fieldDefs.any (fun g => g.aggregate.isNone))) = true := by
    decide +kernel
  obtain ⟨compiled, hc⟩ := exists_ok_of_isSome hcompiles
  obtain ⟨⟨t, ds⟩, hb, hplain⟩ := exists_ok_of_any hplain
  obtain ⟨t', ds', hb', main, hmain, hname, -, hfound⟩ := facetKeys_found_iff hc
  obtain ⟨rfl, rfl⟩ := Prod.mk.inj (Except.ok.inj (hb.symm.trans hb'))
  obtain ⟨q, hq, hplain⟩ := List.any_eq_true.mp hplain
  obtain ⟨g, hg, hnone⟩ := List.any_eq_true.mp hplain
  refine ⟨compiled, t, ds, hc, hb, main, hmain, hname, q, hq, g, hg, (hfound q hq g hg).mpr ?_⟩
  intro ha
  rw [Option.isNone_iff_eq_none.mp hnone] at ha
  cases ha

/-- Rows that are split by a count of records are split by a column that is not there. -/
theorem facetKeys_not_found : ¬ ∀ spec compiled t ds, standard.compile spec = .ok compiled →
    standard.build spec = .ok (t, ds) →
      ∀ main ∈ compiled.visualization.data, main.name = Naming.main →
        ∀ q ∈ (t.parse .standard).tree.rootSite.facets, ∀ g ∈ q.node.fieldDefs,
          g.FoundIn main := by
  intro hall
  have hbare : (standard.compile (.pointsBy { FieldDef.unset with
      aggregate := some "count" })).toOption.any (fun c => c.visualization.data.any (fun d =>
        d.name == Naming.main && d.transform.isEmpty)) = true := by
    decide +kernel
  have hcounts : (standard.build (.pointsBy { FieldDef.unset with
      aggregate := some "count" })).toOption.any (fun r =>
        (r.1.parse .standard).tree.rootSite.facets.any (fun q =>
          q.node.fieldDefs.any (fun g => g.field.isNone))) = true := by
    decide +kernel
  obtain ⟨compiled, hc, hbare⟩ := exists_ok_of_any hbare
  obtain ⟨⟨t, ds⟩, hb, hcounts⟩ := exists_ok_of_any hcounts
  obtain ⟨main, hmain, hbare⟩ := List.any_eq_true.mp hbare
  obtain ⟨hname, hempty⟩ := (Bool.and_eq_true _ _).mp hbare
  obtain ⟨q, hq, hcounts⟩ := List.any_eq_true.mp hcounts
  obtain ⟨g, hg, hnone⟩ := List.any_eq_true.mp hcounts
  -- there is no field to take, and `main` computes nothing
  rcases hall _ compiled t ds hc hb main hmain (beq_iff_eq.mp hname) q hq g hg with
    hsame | ⟨unit, field, htr, -⟩
  · rw [Option.isNone_iff_eq_none.mp hnone] at hsame
    cases hsame
  · rw [List.isEmpty_iff.mp hempty] at htr
    cases htr

end Compiler

end Trellis
