import Trellis.Proofs.Cells
import Trellis.Proofs.Datasets

/-! Which datasets are in scope for the views under some nodes, and that everything a site reads is
among them. -/
namespace Trellis

variable {whole : Spec} {input : Option DataDef} {v : View} {s : Site} {scope : List String}

namespace View

/-- A unit whose nearest facet has some name stands in the cells of the facet of that name. -/
theorem mem_openUnits_of_facetAncestor (hb : Fits (fun s _ => s.Built whole) [] v)
    (hnames : (v.nodes.map Node.name).Nodup) {A : List Node} {n : Node} {child : View}
    (hs : ⟨A, mk n [child]⟩ ∈ v.sites []) {t : Site} (ht : t ∈ v.sites [])
    (hu : t.node.isUnit = true) (hf : t.facetAncestor?.map Node.name = some n.name) :
    t.node ∈ child.openUnits := by
  obtain ⟨g, hg, hgn⟩ := Option.map_eq_some_iff.mp hf
  obtain ⟨q, hq, rfl, hopen⟩ := exists_facet_around hb hnames ht hu hg
  have hqv : q ∈ v.sites [] := (List.mem_filter.mp hq).1
  obtain rfl : q = ⟨A, mk n [child]⟩ := site_eq_of_name_eq hnames hqv hs hgn
  rwa [openUnitsIn_eq, children, List.flatMap_singleton] at hopen

/-- What is in scope for the views under some nodes: all datasets outside cells, the records of the
cells around, and everything in the innermost of these cells. -/
structure Visible (v : View) (A : List Node) (scope : List String) : Prop where
  root : ∀ name ∈ v.rootData.map Dataset.name, name ∈ scope
  cells : ∀ a ∈ A, a.isFacet = true → a.cellData ∈ scope
  nearest : ∀ f, A.find? Node.isFacet = some f → ∀ d, CellSet v f.name d → d ∈ scope

/-- Layers add nothing to what is in scope. -/
theorem Visible.layer {A : List Node} {n : Node} (h : Visible v A scope) (hn : n.isFacet = false) :
    Visible v (n :: A) scope := by
  refine ⟨h.root, ?_, ?_⟩
  · intro a ha hfacet
    rcases List.mem_cons.mp ha with rfl | ha
    · rw [hn] at hfacet
      exact absurd hfacet Bool.false_ne_true
    · exact h.cells a ha hfacet
  · intro f hf
    rw [List.find?_cons_of_neg (by rw [hn]; exact Bool.false_ne_true)] at hf
    exact h.nearest f hf

/-- Within the cells of a facet, the cell and the aggregates of its units are in scope as well. -/
theorem Visible.facet (hb : Fits (fun s _ => s.Built whole) [] v) (hd : Fits (Described input) [] v)
    (hnames : (v.nodes.map Node.name).Nodup) {A : List Node} {n : Node} {child : View}
    (hs : ⟨A, View.mk n [child]⟩ ∈ v.sites []) (hn : n.isFacet = true) (h : Visible v A scope) :
    Visible v (n :: A)
      (scope ++ n.cellData :: (cellDatasets child.openUnits).map Dataset.name) := by
  refine ⟨?_, ?_, ?_⟩
  · intro name hname
    exact List.mem_append_left _ (h.root name hname)
  · intro a ha hfacet
    rcases List.mem_cons.mp ha with rfl | ha
    · exact List.mem_append_right _ List.mem_cons_self
    · exact List.mem_append_left _ (h.cells a ha hfacet)
  · intro f hf d hcell
    rw [List.find?_cons_of_pos hn] at hf
    obtain rfl := Option.some.inj hf
    apply List.mem_append_right
    rcases hcell with rfl | ⟨t, ht, ha, hft, rfl⟩
    · exact List.mem_cons_self
    · have hu := Node.isUnit_of_isAggregated ha
      obtain ⟨g, hg, -⟩ := Option.map_eq_some_iff.mp hft
      have hopen := mem_openUnits_of_facetAncestor hb hnames hs ht hu hft
      obtain ⟨transform, hsources⟩ := parse_cellSources_unit input hu hg
      rw [if_pos ha] at hsources
      apply List.mem_cons_of_mem
      have hin : Dataset.derived (Naming.cellAggregate t.node.name) g.cellData transform ∈
          cellDatasets child.openUnits := by
        refine List.mem_flatMap.mpr ⟨t.node, hopen, ?_⟩
        rw [(hd t ht).data_eq, hsources]
        exact List.mem_singleton_self _
      exact List.mem_map_of_mem hin

end View

/-! ### What a site names -/

/-- Outside all cells, a unit reads its own records. -/
theorem parse_source_outside (hu : s.node.isUnit = true) (hf : s.facetAncestor? = none) :
    (Pipeline.standard.parse input s).source = s.node.rawData := by
  obtain ⟨u, hk⟩ := Node.kind_of_isUnit hu
  have hcell : DataComponent.cell? s = none := by
    rw [DataComponent.cell?, hf, Option.map_none]
  rw [parse_eq, DataComponent.ofKind, hk]
  unfold DataComponent.ofUnit Node.rawData
  dsimp only
  rw [Node.isAggregated_unit hk, hcell]
  cases u.isAggregate <;> rfl

end Trellis
