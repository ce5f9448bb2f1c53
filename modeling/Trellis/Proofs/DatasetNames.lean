import Mathlib.Data.List.Flatten
import Mathlib.Data.List.Perm.Basic
import Mathlib.Tactic.Tauto
import Trellis.Proofs.Datasets
import Trellis.Proofs.Groups
import Trellis.Proofs.Outcomes
import Trellis.Proofs.Unions

/-! The names of all datasets that the standard pipeline defines, outside all cells and within them.
Each is a node's name and a local one behind it; but for the two aggregates of units, no local name
is the end of another one. -/
namespace Trellis

namespace Naming

/-- The names consist of a node's name and one of these local names. -/
def Behind (texts names : List String) : Prop :=
  ∀ name ∈ names, ∃ node, ∃ text ∈ texts, name = qualify node text

theorem Behind.disjoint {texts others xs ys : List String} (hx : Behind texts xs)
    (hy : Behind others ys)
    (h : ∀ s ∈ texts, ∀ t ∈ others, ¬ s.toList <:+ t.toList ∧ ¬ t.toList <:+ s.toList) :
    xs.Disjoint ys := by
  intro name hxs hys
  obtain ⟨a, s, hs, rfl⟩ := hx name hxs
  obtain ⟨b, t, ht, hsame⟩ := hy _ hys
  obtain ⟨hst, hts⟩ := h s hs t ht
  exact qualify_ne_qualify a b hst hts hsame

/-- The input and the records of all views. -/
theorem fixed_behind : Behind ["source_0", "main"] [source, main] :=
  fun name hname => ⟨"", name, hname, rfl⟩

/-- The aggregate within a cell is named like the one outside all cells of another unit. -/
theorem cellAggregate_eq (node : String) : cellAggregate node = aggregate (qualify node "cell") := by
  apply String.toList_inj.mp
  unfold cellAggregate aggregate
  rw [toList_qualify, toList_qualify, toList_qualify]
  by_cases hn : node.toList = []
  · rw [if_pos hn, if_pos hn]
    rfl
  · rw [if_neg hn, if_neg hn, if_neg (by simp)]
    simp

theorem layoutData_qualify (node text : String) :
    layoutData (qualify node text) = qualify node (text ++ "_layout") := by
  unfold layoutData qualify
  split
  · rfl
  · rw [String.append_assoc]

end Naming

namespace Node

/-- Whether a facet splits by a field for rows or columns. -/
def splitsBy (n : Node) (c : Channel) : Bool := n.facet?.any (fun f => (f.fieldDef? c).isSome)

/-- The local names of the datasets that a node brings along outside all cells. -/
def datasetTexts (n : Node) : List String :=
  (if n.isAggregated then ["aggregate"] else []) ++ (if n.splitsBy .row then ["row"] else []) ++
    if n.splitsBy .column then ["column", "column_layout"] else []

/-- The local names of the datasets that a unit brings along within a cell. -/
def cellTexts (n : Node) : List String := if n.isAggregated then ["cell_aggregate"] else []

theorem datasetTexts_subset (n : Node) :
    n.datasetTexts ⊆ ["aggregate", "row", "column", "column_layout"] ∧ n.datasetTexts.Nodup := by
  unfold datasetTexts
  cases n.isAggregated <;> cases n.splitsBy .row <;> cases n.splitsBy .column <;> decide

theorem cellTexts_subset (n : Node) : n.cellTexts ⊆ ["cell_aggregate"] ∧ n.cellTexts.Nodup := by
  unfold cellTexts
  cases n.isAggregated <;> decide

theorem qualified_behind {texts : List String} {own : Node → List String}
    (hown : ∀ n, own n ⊆ texts) (ns : List Node) :
    Naming.Behind texts (ns.flatMap (fun n => (own n).map n.qualify)) := by
  intro name hname
  obtain ⟨n, -, hname⟩ := List.mem_flatMap.mp hname
  obtain ⟨text, htext, rfl⟩ := List.mem_map.mp hname
  exact ⟨n.name, text, hown n htext, rfl⟩

theorem aggregate_mem_datasetTexts {n : Node} :
    "aggregate" ∈ n.datasetTexts ↔ n.isAggregated = true := by
  unfold datasetTexts
  cases n.isAggregated <;> cases n.splitsBy .row <;> cases n.splitsBy .column <;> decide

end Node

/-! ### What sites bring along -/

section

variable {input : Option DataDef} {s : Site}

theorem headerSources_names (n : Node) (c : Channel) :
    (DataComponent.headerSources n c).map Dataset.name =
      (if (n.fieldDef? c).isSome then
        c.name :: if c = .column then [c.name ++ "_layout"] else [] else []).map n.qualify := by
  unfold DataComponent.headerSources
  cases n.fieldDef? c with
  | none => rfl
  | some f =>
    rw [Option.isSome_some, if_pos rfl, List.map_cons, List.map_cons]
    by_cases hc : c = .column
    · rw [if_pos hc, if_pos hc]
      have hlayout := Naming.layoutData_qualify n.name c.name
      exact congrArg (fun name => [n.qualify c.name, name]) hlayout
    · rw [if_neg hc, if_neg hc]
      rfl

theorem ofKind_sources_names (s : Site) : (DataComponent.ofKind s).sources.map Dataset.name =
    s.node.datasetTexts.map s.node.qualify := by
  unfold DataComponent.ofKind Node.datasetTexts Node.splitsBy
  cases hk : s.node.kind with
  | unit u =>
    have hfacet : s.node.facet? = none := by rw [Node.facet?, hk]
    rw [hfacet, Node.isAggregated_unit hk]
    dsimp only
    unfold DataComponent.ofUnit
    cases u.isAggregate with
    | false => rfl
    | true =>
      cases DataComponent.cell? s with
      | none => rfl
      | some cell => rfl
  | layer size =>
    have hkinds : s.node.facet? = none ∧ s.node.isAggregated = false := by
      rw [Node.facet?, Node.isAggregated, Node.unit?, hk]
      exact ⟨rfl, rfl⟩
    rw [hkinds.1, hkinds.2]
    rfl
  | facet f =>
    have hkinds : s.node.facet? = some f ∧ s.node.isAggregated = false := by
      rw [Node.facet?, Node.isAggregated, Node.unit?, hk]
      exact ⟨rfl, rfl⟩
    have hfield (c : Channel) : s.node.fieldDef? c = f.fieldDef? c := by
      rw [Node.fieldDef?, hk]
    have hsources : (DataComponent.ofFacet s).sources =
        DataComponent.headerSources s.node .row ++ DataComponent.headerSources s.node .column := rfl
    dsimp only
    rw [hsources, List.map_append, headerSources_names, headerSources_names, hfield, hfield,
      hkinds.1, hkinds.2, List.map_append]
    rfl

/-- Within a cell only aggregates are defined, those of the units in it. -/
theorem parse_cellSources_names (hunit : s.node.isUnit = true)
    (hcell : s.facetAncestor?.isSome = true) :
    (Pipeline.standard.parse input s).cellSources.map Dataset.name =
      s.node.cellTexts.map s.node.qualify := by
  obtain ⟨f, hf⟩ := Option.isSome_iff_exists.mp hcell
  obtain ⟨transform, hsources⟩ := parse_cellSources_unit input hunit hf
  rw [hsources, Node.cellTexts]
  split
  · rfl
  · rfl

/-- Outside all cells there are the input, the records of all views, and what each node brings
along. -/
theorem sources_names {v : View} (h : View.Fits (Described input) [] v) :
    (v.nodes.flatMap (fun n => n.data.sources)).map Dataset.name =
      [Naming.source, Naming.main] ++
        v.nodes.flatMap (fun n => n.datasetTexts.map n.qualify) := by
  have hnodes : v.nodes.flatMap (fun n => n.datasetTexts.map n.qualify) =
      (v.sites []).flatMap (fun s => s.node.datasetTexts.map s.node.qualify) := by
    rw [← View.sites_map_node [] v, List.flatMap_map]
  rw [sources_of_sites h, hnodes, List.map_flatMap]
  cases v with
  | mk n cs =>
    have hroot : Site.isRoot ⟨[], .mk n cs⟩ = true := rfl
    have hbelow : (cs.flatMap (View.sites [n])).flatMap
          (fun s => (Pipeline.standard.parse input s).sources.map Dataset.name) =
        (cs.flatMap (View.sites [n])).flatMap
          (fun s => s.node.datasetTexts.map s.node.qualify) := by
      apply List.flatMap_congr
      intro s hs
      have hinner : s.isRoot = false := by
        rw [Site.isRoot, List.isEmpty_eq_false_iff]
        exact View.ancestors_ne_nil hs
      rw [parse_sources, hinner]
      exact ofKind_sources_names s
    rw [View.sites_mk, List.flatMap_cons, List.flatMap_cons, hbelow, parse_sources, hroot,
      if_pos rfl, List.map_append, ofKind_sources_names, List.append_assoc]
    rfl

end

/-! ### All names -/

/-- The names of the datasets of a cell: its own records and those derived within it. -/
def Cell.datasetNames (c : Cell) : List String := c.mark.root.name :: c.data.map Dataset.name

namespace View

variable {whole : Spec} {input : Option DataDef} {A : List Node} {v : View}

/-- What nodes bring along outside all cells. -/
def outerNames (v : View) : List String := v.nodes.flatMap (fun n => n.datasetTexts.map n.qualify)

/-- The records of the cells of all facets. -/
def cellNames (v : View) : List String := (v.nodes.filter Node.isFacet).map Node.cellData

/-- What units bring along within cells. -/
def innerNames (v : View) : List String :=
  (Site.cellUnits ⟨[], v⟩).flatMap (fun n => n.cellTexts.map n.qualify)

theorem outerNames_nodup (hnames : (v.nodes.map Node.name).Nodup) : v.outerNames.Nodup := by
  have hfree : Naming.SuffixFree ["aggregate", "row", "column", "column_layout"] := by decide
  exact Node.qualified_nodup hfree.separable hnames Node.datasetTexts
    (fun n _ => n.datasetTexts_subset)

theorem cellNames_nodup (hnames : (v.nodes.map Node.name).Nodup) : v.cellNames.Nodup := by
  have hfacets : ((v.nodes.filter Node.isFacet).map Node.name).Nodup :=
    hnames.sublist (List.filter_sublist.map _)
  have hqualified : (((v.nodes.filter Node.isFacet).map Node.name).map
      (fun name => Naming.qualify name "facet")).Nodup :=
    List.Nodup.map (fun _ _ => Naming.qualify_injective) hfacets
  rwa [List.map_map] at hqualified

/-- No unit is in cells twice. -/
theorem innerNames_nodup (hb : Fits (fun s _ => s.Built whole) [] v)
    (hnames : (v.nodes.map Node.name).Nodup) : v.innerNames.Nodup := by
  have hunits : ((v.openUnits ++ Site.cellUnits ⟨[], v⟩).map Node.name).Nodup := by
    refine ((cellUnits_perm hb).map Node.name).nodup_iff.mpr ?_
    exact hnames.sublist (List.filter_sublist.map _)
  have hcells : ((Site.cellUnits ⟨[], v⟩).map Node.name).Nodup :=
    hunits.sublist ((List.sublist_append_right _ _).map Node.name)
  have hfree : Naming.SuffixFree ["cell_aggregate"] := by decide
  exact Node.qualified_nodup hfree.separable hcells Node.cellTexts (fun n _ => n.cellTexts_subset)

theorem outerNames_behind (v : View) :
    Naming.Behind ["aggregate", "row", "column", "column_layout"] v.outerNames :=
  Node.qualified_behind (fun n => n.datasetTexts_subset.1) v.nodes

theorem innerNames_behind (v : View) : Naming.Behind ["cell_aggregate"] v.innerNames :=
  Node.qualified_behind (fun n => n.cellTexts_subset.1) (Site.cellUnits ⟨[], v⟩)

theorem cellNames_behind (v : View) : Naming.Behind ["facet"] v.cellNames := by
  intro name hname
  obtain ⟨n, -, rfl⟩ := List.mem_map.mp hname
  exact ⟨n.name, "facet", List.mem_singleton_self _, rfl⟩

/-- No unit that aggregates has the name that the cells of another one lend to its aggregate. -/
def AggregatesApart (v : View) : Prop :=
  ∀ n ∈ v.nodes, ∀ s ∈ v.sites [], n.isAggregated = true → s.node.isAggregated = true →
    s.facetAncestor?.isSome = true → n.name ≠ Naming.qualify s.node.name "cell"

theorem outerNames_disjoint_iff (hb : Fits (fun s _ => s.Built whole) [] v)
    (hnames : (v.nodes.map Node.name).Nodup) :
    v.outerNames.Disjoint v.innerNames ↔ v.AggregatesApart := by
  constructor
  · intro hdisjoint n hn s hs hagg hcell habove hname
    have houter : Naming.aggregate n.name ∈ v.outerNames := by
      refine List.mem_flatMap.mpr ⟨n, hn, List.mem_map.mpr ⟨"aggregate", ?_, rfl⟩⟩
      exact Node.aggregate_mem_datasetTexts.mpr hagg
    have hinner : Naming.cellAggregate s.node.name ∈ v.innerNames := by
      refine List.mem_flatMap.mpr ⟨s.node, ?_, List.mem_map.mpr ⟨"cell_aggregate", ?_, rfl⟩⟩
      · exact (mem_cellUnits hb hnames hs).mpr ⟨Node.isUnit_of_isAggregated hcell, habove⟩
      · rw [Node.cellTexts, if_pos hcell]
        exact List.mem_singleton_self _
    rw [Naming.cellAggregate_eq, ← hname] at hinner
    exact hdisjoint houter hinner
  · intro hapart name houter hinner
    obtain ⟨n, hn, houter⟩ := List.mem_flatMap.mp houter
    obtain ⟨text, htext, rfl⟩ := List.mem_map.mp houter
    obtain ⟨m, hm, hinner⟩ := List.mem_flatMap.mp hinner
    obtain ⟨other, hother, hsame⟩ := List.mem_map.mp hinner
    have hcell : m.isAggregated = true := by
      unfold Node.cellTexts at hother
      split at hother
      · rename_i hagg
        exact hagg
      · exact absurd hother List.not_mem_nil
    obtain rfl := List.mem_singleton.mp (m.cellTexts_subset.1 hother)
    have hends : ∀ t ∈ ["aggregate", "row", "column", "column_layout"], t ≠ "aggregate" →
        ¬ t.toList <:+ "cell_aggregate".toList ∧ ¬ "cell_aggregate".toList <:+ t.toList := by
      decide
    have haggregate : text = "aggregate" := by
      by_contra hne
      obtain ⟨hst, hts⟩ := hends text (n.datasetTexts_subset.1 htext) hne
      exact Naming.qualify_ne_qualify n.name m.name hst hts hsame.symm
    subst haggregate
    have hmv : m ∈ v.nodes := by
      have hmem := (cellUnits_perm hb).mem_iff.mp (List.mem_append_right _ hm)
      exact (List.mem_filter.mp hmem).1
    obtain ⟨s, hs, rfl⟩ := (mem_nodes_iff (A := [])).mp hmv
    have habove := ((mem_cellUnits hb hnames hs).mp hm).2
    have hnamed : Naming.aggregate (Naming.qualify s.node.name "cell") = Naming.aggregate n.name := by
      rw [← Naming.cellAggregate_eq]
      exact hsame
    exact hapart n hn s hs (Node.aggregate_mem_datasetTexts.mp htext) hcell habove
      (Naming.qualify_injective hnamed).symm

/-- The names of the datasets outside all cells, of the cells, and of the datasets within them. -/
def datasetNames (v : View) : List String :=
  (v.nodes.flatMap (fun n => n.data.sources)).map Dataset.name ++
    (Site.facets ⟨[], v⟩).flatMap (fun f => f.node.cellData ::
      (openUnitsIn f.view.children).flatMap (fun n => n.data.cellSources.map Dataset.name))

/-- What a unit in the cells of a facet brings along there. -/
theorem cellSources_names (hd : Fits (Described input) [] v) {f : Site} (hf : f ∈ v.sites [])
    (hfacet : f.node.isFacet = true) {n : Node} (hn : n ∈ openUnitsIn f.view.children) :
    n.data.cellSources.map Dataset.name = n.cellTexts.map n.qualify := by
  obtain ⟨t, ht, rfl, hunit, habove⟩ := exists_site_in_cells hf hfacet hn
  rw [(hd t ht).data_eq]
  exact parse_cellSources_names hunit (by rw [habove]; rfl)

theorem datasetNames_perm (hd : Fits (Described input) [] v) :
    v.datasetNames.Perm
      ([Naming.source, Naming.main] ++ v.outerNames ++ (v.cellNames ++ v.innerNames)) := by
  have hfacets : (Site.facets ⟨[], v⟩).map (fun f => f.node.cellData) = v.cellNames := by
    unfold Site.facets Site.preOrder cellNames
    rw [← sites_map_node [] v, List.filter_map, List.map_map]
    rfl
  have hunits : (Site.facets ⟨[], v⟩).flatMap (fun f => (openUnitsIn f.view.children).flatMap
        (fun n => n.data.cellSources.map Dataset.name)) = v.innerNames := by
    rw [innerNames, Site.cellUnits, List.flatMap_assoc]
    apply List.flatMap_congr
    intro f hf
    apply List.flatMap_congr
    intro n hn
    obtain ⟨hfv, hfacet⟩ := List.mem_filter.mp hf
    exact cellSources_names hd hfv hfacet hn
  unfold datasetNames
  rw [sources_names hd, ← hfacets, ← hunits]
  exact (List.map_append_flatMap_perm _ _ _).symm.append_left _

/-- All names differ just if no two aggregates of units share one. -/
theorem datasetNames_nodup_iff (hb : Fits (fun s _ => s.Built whole) [] v)
    (hd : Fits (Described input) [] v) (hnames : (v.nodes.map Node.name).Nodup) :
    v.datasetNames.Nodup ↔ v.AggregatesApart := by
  have hfixedOuter := Naming.fixed_behind.disjoint v.outerNames_behind (by decide)
  have hfixedCells := Naming.fixed_behind.disjoint v.cellNames_behind (by decide)
  have hfixedInner := Naming.fixed_behind.disjoint v.innerNames_behind (by decide)
  have houterCells := v.outerNames_behind.disjoint v.cellNames_behind (by decide)
  have hcellsInner := v.cellNames_behind.disjoint v.innerNames_behind (by decide)
  have honce : [Naming.source, Naming.main].Nodup := by decide
  have houter := outerNames_nodup hnames
  have hcells := cellNames_nodup hnames
  have hinner := innerNames_nodup hb hnames
  rw [(datasetNames_perm hd).nodup_iff, ← outerNames_disjoint_iff hb hnames]
  simp only [List.nodup_append', List.disjoint_append_left, List.disjoint_append_right]
  tauto

/-- Whether aggregates are apart does not depend on what has been worked out. -/
theorem aggregatesApart_updateAll (g : Components → Components) (v : View) :
    (v.updateAll g).AggregatesApart ↔ v.AggregatesApart := by
  have hsites : (v.updateAll g).sites [] = (v.sites []).map (Site.updateAll g) :=
    sites_updateAll g [] v
  unfold AggregatesApart
  rw [nodes_updateAll, hsites]
  simp only [List.forall_mem_map, Site.node_updateAll, Site.facetAncestor?_updateAll,
    Option.isSome_map]
  rfl

instance (v : View) : Decidable v.AggregatesApart :=
  inferInstanceAs (Decidable (∀ n ∈ v.nodes, ∀ s ∈ v.sites [], n.isAggregated = true →
    s.node.isAggregated = true → s.facetAncestor?.isSome = true →
      n.name ≠ Naming.qualify s.node.name "cell"))

/-- A cell that a facet draws has the records of the facet. -/
theorem root_of_draws (h : Fits (ReadyToDraw whole input) [] v) {f : Site}
    (hf : f ∈ Site.facets ⟨[], v⟩) {cell : Cell} (hdraws : Site.Draws .standard cell f) :
    cell.mark.root.name = f.node.cellData := by
  obtain ⟨hfv, hfacet⟩ := List.mem_filter.mp hf
  obtain ⟨-, hd, -, -⟩ := h f hfv
  have hmark := hdraws.mark
  have hdata : f.node.components.dataOrError = .ok f.node.data :=
    dataOrError_eq h (mem_nodes_iff.mpr ⟨f, hfv, rfl⟩)
  unfold Site.cellMark at hmark
  rw [hdata] at hmark
  obtain ⟨d, hsame, hmark⟩ := bind_eq_ok.mp hmark
  obtain rfl := Except.ok.inj hsame
  split at hmark
  · rw [← Except.ok.inj hmark]
    dsimp only
    rw [hd.facetRoot_eq hfacet, Option.getD_some]
  · cases hmark

/-- A cell that a facet draws has the aggregates of its units. -/
theorem data_of_draws (h : Fits (ReadyToDraw whole input) [] v) {f : Site}
    (hf : f ∈ Site.facets ⟨[], v⟩) {cell : Cell} (hdraws : Site.Draws .standard cell f) :
    cell.data = cellDatasets (openUnitsIn f.view.children) := by
  obtain ⟨hfv, -⟩ := List.mem_filter.mp hf
  obtain ⟨child, hchild, -⟩ := hdraws.content
  have hunits : openUnitsIn f.view.children = child.openUnits := by
    rw [hchild, openUnitsIn_eq, List.flatMap_singleton]
  have hmem : ⟨f.lineage, child⟩ ∈ v.sites [] :=
    child_mem_sites hfv (hchild ▸ List.mem_singleton_self child)
  have hready : Fits (ReadyToDraw whole input) f.lineage child :=
    fun s hs => h s (mem_sites_trans hmem hs)
  have hdata := hdraws.data
  rw [hunits, cellData_eq hready] at hdata
  rw [hunits]
  exact (Except.ok.inj hdata).symm

theorem datasetNames_of_draws (h : Fits (ReadyToDraw whole input) [] v) {f : Site}
    (hf : f ∈ Site.facets ⟨[], v⟩) {cell : Cell} (hdraws : Site.Draws .standard cell f) :
    cell.datasetNames = f.node.cellData ::
      (openUnitsIn f.view.children).flatMap (fun n => n.data.cellSources.map Dataset.name) := by
  rw [Cell.datasetNames, root_of_draws h hf hdraws, data_of_draws h hf hdraws, cellDatasets,
    List.map_flatMap]

end View

namespace Compiler

variable {config : Config} {spec : Spec} {compiled : Compiled} {t : Tree} {ds : List Diagnostic}

/-- With the standard pipeline, the datasets of a visualization, those of its cells and the cells
themselves all differ in name, just if no unit that aggregates is named like the cell of another one
that has an aggregate in a cell. Stores of selections are not counted. -/
theorem datasets_nodup_iff (h : (⟨.standard, config⟩ : Compiler).compile spec = .ok compiled)
    (hb : (⟨.standard, config⟩ : Compiler).build spec = .ok (t, ds)) :
    ∃ data, (t.parse .standard).tree.rootSite.rootData .standard = .ok data ∧
      compiled.visualization.data =
        data ++ (t.parse .standard).tree.rootSite.selectionStores ∧
      ((data.map Dataset.name ++
          compiled.visualization.group.cells.flatMap Cell.datasetNames).Nodup ↔
        t.root.AggregatesApart) := by
  obtain ⟨c, hc, hview, hreached, hbare⟩ :=
    compile_of_build (G := fun _ => True) trivial spec.guideExtras_true hb
  obtain rfl : c = compiled := Except.ok.inj (hc.symm.trans h)
  let final := (t.parse .standard).tree
  have hready := readyToDraw_of_complete (View.complete_of_known hreached.known)
  have hbuilt : View.Fits (fun s _ => s.Built spec) [] final.root :=
    hready.mono (fun _ _ hk => hk.1)
  have hdescribed : View.Fits (Described final.data) [] final.root :=
    hready.mono (fun _ _ hk => hk.2.1)
  have hnames : (final.root.nodes.map Node.name).Nodup := hreached.names_nodup hbare
  obtain ⟨data, ms, hdata, hms, hall, -, hgroup⟩ :=
    Tree.assemble_ok (Tree.assemble_eq hreached)
  have hcells : c.visualization.group.cells.flatMap Cell.datasetNames =
      (Site.facets ⟨[], final.root⟩).flatMap (fun f => f.node.cellData ::
        (View.openUnitsIn f.view.children).flatMap
          (fun n => n.data.cellSources.map Dataset.name)) := by
    rw [hview, hgroup, Site.groupOf_cells]
    refine forall₂_flatMap_eq (View.marks_cells hbuilt hms) ?_
    intro cell f hf hdraws
    exact View.datasetNames_of_draws hready hf hdraws
  have hsources : data = final.root.nodes.flatMap (fun n => n.data.sources) := by
    have hdrawn : data ++ final.rootSite.selectionStores =
        final.root.nodes.flatMap (fun n => n.data.sources) ++ final.rootSite.selectionStores :=
      hall.symm
    exact List.append_cancel_right hdrawn
  have hapart : final.root.AggregatesApart ↔ t.root.AggregatesApart :=
    View.iff_of_strip_eq View.aggregatesApart_updateAll hreached.strip
  refine ⟨data, hdata, ?_, ?_⟩
  · rw [hview]
    exact hall
  · rw [hcells, hsources, ← hapart]
    exact View.datasetNames_nodup_iff hbuilt hdescribed hnames

/-- All datasets for two views of bars in rows differ in name. -/
theorem datasets_nodup_rowsOfBars : ∃ compiled t ds data,
    standard.compile (.rowsOfBars "low" "high") = .ok compiled ∧
      standard.build (.rowsOfBars "low" "high") = .ok (t, ds) ∧
        (t.parse .standard).tree.rootSite.rootData .standard = .ok data ∧
          (data.map Dataset.name ++
            compiled.visualization.group.cells.flatMap Cell.datasetNames).Nodup := by
  have happlies : (standard.build (.rowsOfBars "low" "high")).toOption.any (fun r =>
      decide r.1.root.AggregatesApart) = true := by
    decide +kernel
  have hcompiles : (standard.compile (.rowsOfBars "low" "high")).toOption.any
      (fun _ => true) = true := by
    decide +kernel
  obtain ⟨⟨t, ds⟩, hb, hapart⟩ := exists_ok_of_any happlies
  obtain ⟨compiled, hc, -⟩ := exists_ok_of_any hcompiles
  obtain ⟨data, hdata, -, hnodup⟩ := datasets_nodup_iff hc hb
  exact ⟨compiled, t, ds, data, hc, hb, hdata, hnodup.mpr (of_decide_eq_true hapart)⟩

/-- If one of the two views is named like the cell of the other one, the aggregate of the one outside
all cells has the name of the aggregate of the other one in each cell. -/
theorem datasets_clash : ¬ ∀ (compiler : Compiler) spec compiled t ds data,
    compiler.pipeline = .standard → compiler.compile spec = .ok compiled →
      compiler.build spec = .ok (t, ds) →
        (t.parse .standard).tree.rootSite.rootData .standard = .ok data →
          (data.map Dataset.name ++
            compiled.visualization.group.cells.flatMap Cell.datasetNames).Nodup := by
  intro hall
  have hbuilds : (standard.build (.rowsOfBars "a" "a_cell")).toOption.any (fun r =>
      ((r.1.parse .standard).tree.rootSite.rootData .standard).toOption.any (fun data =>
        "a_cell_aggregate" ∈ data.map Dataset.name)) = true := by
    decide +kernel
  have hcompiles : (standard.compile (.rowsOfBars "a" "a_cell")).toOption.any (fun c =>
      "a_cell_aggregate" ∈ c.visualization.group.cells.flatMap Cell.datasetNames) = true := by
    decide +kernel
  obtain ⟨⟨t, ds⟩, hb, hbuilds⟩ := exists_ok_of_any hbuilds
  obtain ⟨data, hdata, houter⟩ := exists_ok_of_any hbuilds
  obtain ⟨compiled, hc, hinner⟩ := exists_ok_of_any hcompiles
  have hnodup := hall standard _ compiled t ds data rfl hc hb hdata
  exact (List.nodup_append'.mp hnodup).2.2 (of_decide_eq_true houter) (of_decide_eq_true hinner)

end Compiler
end Trellis
