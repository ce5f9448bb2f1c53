import Trellis.Proofs.Facts

/-! The data phase: every site ends up with the data that the names and kinds around it ask for. -/
namespace Trellis

section

variable (h : Option String → Option String) (g : Components → Components)

namespace Site

theorem facetAncestors_amend (s : Site) :
    (s.mapNodes (Node.amend h g)).facetAncestors = s.facetAncestors.map (Node.amend h g) := by
  unfold facetAncestors mapNodes
  dsimp only
  rw [List.filter_map]
  rfl

theorem facetAncestor?_amend (s : Site) :
    (s.mapNodes (Node.amend h g)).facetAncestor? = s.facetAncestor?.map (Node.amend h g) := by
  unfold facetAncestor? mapNodes
  dsimp only
  rw [List.find?_map]
  rfl

theorem facetAncestor?_updateAll (s : Site) :
    (s.updateAll g).facetAncestor? = s.facetAncestor?.map (Node.update · g) :=
  facetAncestor?_amend id g s

theorem facetAncestor?_eq_none_updateAll (s : Site) :
    (s.updateAll g).facetAncestor? = none ↔ s.facetAncestor? = none := by
  rw [facetAncestor?_updateAll, Option.map_eq_none_iff]

theorem isRoot_mapNodes (f : Node → Node) (s : Site) : (s.mapNodes f).isRoot = s.isRoot := by
  unfold isRoot mapNodes
  simp

@[simp] theorem isRoot_updateAll (s : Site) : (s.updateAll g).isRoot = s.isRoot :=
  isRoot_mapNodes _ s

end Site

theorem View.nodes_updateAll (v : View) :
    (v.updateAll g).nodes = v.nodes.map (Node.update · g) :=
  View.nodes_mapNodes _ v

namespace DataComponent

theorem cell?_amend (s : Site) : cell? (s.mapNodes (Node.amend h g)) = cell? s := by
  unfold cell?
  rw [Site.facetAncestor?_amend, Option.map_map]
  rfl

theorem ofUnit_amend (s : Site) (u : UnitView) :
    ofUnit (s.mapNodes (Node.amend h g)) u = ofUnit s u := by
  have hcols : (s.mapNodes (Node.amend h g)).facetAncestors.flatMap Node.facetColumns =
      s.facetAncestors.flatMap Node.facetColumns := by
    rw [Site.facetAncestors_amend, List.flatMap_map]
    rfl
  unfold ofUnit
  rw [cell?_amend, hcols, Site.node_mapNodes]
  rfl

theorem ofFacet_amend (s : Site) : ofFacet (s.mapNodes (Node.amend h g)) = ofFacet s := by
  unfold ofFacet
  rw [cell?_amend, Site.node_mapNodes]
  rfl

theorem ofLayer_amend (s : Site) : ofLayer (s.mapNodes (Node.amend h g)) = ofLayer s := by
  unfold ofLayer
  rw [cell?_amend]

theorem rootSources_amend (input : Option DataDef) (v : View) :
    rootSources input (v.mapNodes (Node.amend h g)) = rootSources input v := by
  unfold rootSources
  rw [View.nodes_mapNodes, List.any_map, List.flatMap_map]
  rfl

@[simp] theorem cell?_updateAll (s : Site) : cell? (s.updateAll g) = cell? s := cell?_amend id g s

end DataComponent

/-- Titles and what the components hold do not count for the data. -/
theorem parse_amend (input : Option DataDef) (s : Site) :
    Pipeline.standard.parse input (s.mapNodes (Node.amend h g)) =
      Pipeline.standard.parse input s := by
  unfold Pipeline.standard
  dsimp only
  rw [Site.isRoot_mapNodes, DataComponent.ofFacet_amend, DataComponent.ofLayer_amend,
    Site.node_mapNodes]
  simp only [DataComponent.ofUnit_amend]
  -- what is left are the sources at the root, which look at the whole tree
  have hview : (s.mapNodes (Node.amend h g)).view = s.view.mapNodes (Node.amend h g) := rfl
  rw [hview, DataComponent.rootSources_amend]
  rfl

end

@[simp] theorem parse_updateAll (input : Option DataDef) (g : Components → Components) (s : Site) :
    Pipeline.standard.parse input (s.updateAll g) = Pipeline.standard.parse input s :=
  parse_amend id g input s

/-- The site has the data that it asks for. -/
def Described (input : Option DataDef) : Fact := fun s k =>
  k.data = some (Pipeline.standard.parse input s)

theorem described_siteBlind (input : Option DataDef) (phase : Phase) :
    (Described input).SiteBlind phase := by
  intro s k
  unfold Described
  rw [parse_updateAll]

theorem described_ownBlind (input : Option DataDef) {phase : Phase} (h : phase ≠ .data) :
    (Described input).OwnBlind phase := by
  intro s k
  unfold Described
  rw [Components.without_data h]

namespace View

theorem describe_fits (input : Option DataDef) (A : List Node) (v : View) :
    Fits ((Described input).both (.done .data)) A
      (v.describe (Pipeline.standard.parse input) A) := by
  induction v using induct generalizing A with
  | h n cs ih =>
    have hframe := describe_frame (Pipeline.standard.parse input) A (mk n cs)
    rw [describe, describeIn_eq] at hframe ⊢
    have hblind := (described_siteBlind input .data).both (Fact.done_siteBlind .data .data)
    refine fits_mk_iff.mpr ⟨⟨?_, rfl⟩, ?_⟩
    · -- what the site asks for is the same before and after the description
      unfold Described
      rw [← parse_updateAll input (Components.without .data) ⟨A, mk (Node.update _ _) _⟩,
        Site.updateAll, hframe]
      exact congrArg some (parse_updateAll input (Components.without .data) ⟨A, mk n cs⟩).symm
    · intro c hc
      obtain ⟨d, hd, rfl⟩ := List.mem_map.mp hc
      let described := n.update (fun k =>
        { k with data := some (Pipeline.standard.parse input ⟨A, mk n cs⟩) })
      have hd' := ih d hd (described :: A)
      apply hd'.below hblind
      rfl

end View

/-! ### What is described -/

namespace Node

/-- The data of a described node. -/
def data (n : Node) : DataComponent := n.components.data.getD .none

/-- A unit with an aggregate among what it shows. -/
def isAggregated (n : Node) : Bool := n.unit?.any UnitView.isAggregate

/-- The dataset outside all facets that holds a unit's records. -/
def rawData (n : Node) : String :=
  if n.isAggregated then Naming.aggregate n.name else Naming.main

theorem isUnit_of_isAggregated {n : Node} (h : n.isAggregated = true) : n.isUnit = true := by
  obtain ⟨u, hu, -⟩ := (Option.any_eq_true _ _).mp h
  rw [isUnit, hu]
  rfl

theorem isAggregated_unit {n : Node} {u : UnitView} (h : n.kind = .unit u) :
    n.isAggregated = u.isAggregate := by
  rw [isAggregated, unit?, h]
  rfl

end Node

theorem dataOrError_of_done {k : Components} {d : DataComponent} {phase : Phase}
    (hd : k.data = some d) (hc : k.completed = some phase) : k.dataOrError = .ok d := by
  have hcovers : Phase.covers k.completed .data = true := by
    rw [hc]
    show decide (Phase.data.rank ≤ phase.rank) = true
    exact decide_eq_true (Nat.zero_le phase.rank)
  unfold Components.dataOrError Components.ensure
  rw [if_pos hcovers, hd]
  rfl

section
variable {input : Option DataDef} {s : Site} {k : Components}

theorem Described.data_eq (h : Described input s s.node.components) :
    s.node.data = Pipeline.standard.parse input s := by
  rw [Node.data, h, Option.getD_some]

/-- The data that a view of some kind asks for. -/
def DataComponent.ofKind (s : Site) : DataComponent :=
  match s.node.kind with
  | .unit u => .ofUnit s u
  | .layer _ => .ofLayer s
  | .facet _ => .ofFacet s

/-- Only the root brings along more than its kind asks for. -/
theorem parse_eq (input : Option DataDef) (s : Site) :
    Pipeline.standard.parse input s =
      { DataComponent.ofKind s with
        sources := (if s.isRoot then DataComponent.rootSources input s.view else []) ++
          (DataComponent.ofKind s).sources } := by
  show (if s.isRoot then
      { DataComponent.ofKind s with
        sources := DataComponent.rootSources input s.view ++ (DataComponent.ofKind s).sources }
    else DataComponent.ofKind s) = _
  split <;> rfl

theorem parse_input_unit (h : s.node.isUnit = true) :
    (Pipeline.standard.parse input s).input = s.node.rawData := by
  obtain ⟨u, hu⟩ := Node.kind_of_isUnit h
  rw [parse_eq, DataComponent.ofKind, hu]
  unfold DataComponent.ofUnit Node.rawData
  dsimp only
  rw [Node.isAggregated_unit hu]
  -- the input is the same within cells and outside of them
  by_cases ha : u.isAggregate = true
  · simp only [ha]
    cases DataComponent.cell? s <;> rfl
  · simp [ha]

/-- A unit in a cell reads the records of the cell, or its aggregate of them. -/
theorem parse_source_unit {f : Node} (h : s.node.isUnit = true) (hf : s.facetAncestor? = some f) :
    (Pipeline.standard.parse input s).source =
      if s.node.isAggregated then Naming.cellAggregate s.node.name else f.cellData := by
  obtain ⟨u, hu⟩ := Node.kind_of_isUnit h
  have hcell : DataComponent.cell? s = some f.cellData := by
    rw [DataComponent.cell?, hf, Option.map_some]
  rw [parse_eq, DataComponent.ofKind, hu]
  unfold DataComponent.ofUnit
  dsimp only
  rw [Node.isAggregated_unit hu, hcell]
  by_cases ha : u.isAggregate = true
  · simp [ha]
  · simp [ha]

/-- A unit in a cell brings along there its aggregate of the records of the cell, if it has one. -/
theorem parse_cellSources_unit (input : Option DataDef) {f : Node} (h : s.node.isUnit = true)
    (hf : s.facetAncestor? = some f) :
    ∃ transform, (Pipeline.standard.parse input s).cellSources =
      if s.node.isAggregated then
        [.derived (Naming.cellAggregate s.node.name) f.cellData transform] else [] := by
  obtain ⟨u, hu⟩ := Node.kind_of_isUnit h
  have hcell : DataComponent.cell? s = some f.cellData := by
    rw [DataComponent.cell?, hf, Option.map_some]
  refine ⟨[Transform.ofUnit u (s.facetAncestors.flatMap Node.facetColumns)], ?_⟩
  rw [parse_eq, DataComponent.ofKind, hu, Node.isAggregated_unit hu]
  unfold DataComponent.ofUnit
  dsimp only
  rw [hcell]
  cases u.isAggregate with
  | false => rfl
  | true => rfl

/-- A facet splits the records of the cell it lies in, or all of them. -/
theorem parse_facetRoot (h : s.node.isFacet = true) :
    (Pipeline.standard.parse input s).facetRoot =
      some ⟨s.node.cellData, (s.facetAncestor?.map Node.cellData).getD Naming.main⟩ := by
  obtain ⟨f, hf⟩ := Node.kind_of_isFacet h
  rw [parse_eq, DataComponent.ofKind, hf]
  rfl

theorem Described.facetRoot_eq (h : Described input s s.node.components)
    (hf : s.node.isFacet = true) : s.node.data.facetRoot =
      some ⟨s.node.cellData, (s.facetAncestor?.map Node.cellData).getD Naming.main⟩ :=
  calc s.node.data.facetRoot
      = (Pipeline.standard.parse input s).facetRoot := congrArg DataComponent.facetRoot h.data_eq
    _ = some ⟨s.node.cellData, (s.facetAncestor?.map Node.cellData).getD Naming.main⟩ :=
      parse_facetRoot hf

end

/-- Units that are described read their own records. -/
theorem input_eq_rawData {input : Option DataDef} {A : List Node} {v : View}
    (h : View.Fits (Described input) A v) :
    ∀ n ∈ v.nodes, n.isUnit = true → n.data.input = n.rawData := by
  intro n hn hu
  obtain ⟨s, hs, rfl⟩ := View.mem_nodes_iff.mp hn
  rw [(h s hs).data_eq]
  exact parse_input_unit hu

end Trellis
