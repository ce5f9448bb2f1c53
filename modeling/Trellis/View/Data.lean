import Trellis.View.Build

/-!
Which dataset each view reads and which datasets it brings along.

All records live in `main`, the input with a column for each time unit in use. A facet splits `main`,
or the cell of the facet around it. A unit that aggregates has its aggregated records once outside
all facets, for scale domains, and once more within its cell.
-/

namespace Trellis

namespace Node

/-- The field definitions of a node that name a time unit and no aggregate. -/
def timeUnitFieldDefs (n : Node) : List FieldDef :=
  let all := match n.kind with
    | .unit u => u.fieldDefs
    | .facet f => f.fieldDefs
    | .layer _ => []
  all.filter (fun f => f.timeUnit.isSome && f.aggregate.isNone)

/-- Whether a unit has a selection of single records. -/
def needsIdentifier (n : Node) : Bool :=
  n.unit?.any (fun u => u.selection.values.any (fun s => s.type ≠ .interval))

/-- The columns a facet splits by. -/
def facetColumns (n : Node) : List String := (n.facet?.map FacetView.columns).getD []

end Node

namespace Transform

/-- The aggregate of a unit: a record for each value of the columns that are not aggregated and of
those the facets around it split by, with every aggregated column once. -/
def ofUnit (u : UnitView) (facetColumns : List String) : Transform :=
  let groups := (u.fieldDefs.filter (fun f => f.aggregate.isNone)).map FieldDef.column
  let outputs := u.fieldDefs.filterMap (fun f => f.aggregate.map (fun op =>
    (op, if f.isCount then none else f.field, f.column)))
  let once := outputs.foldl (fun kept o =>
    if kept.any (fun k => k.2.2 == o.2.2) then kept else kept ++ [o]) []
  .aggregate ((groups ++ facetColumns).foldl
    (fun kept g => if kept.contains g then kept else kept ++ [g]) []) once

end Transform

namespace DataComponent

/-- The records of the cell a site lies in. -/
def cell? (s : Site) : Option String := s.facetAncestor?.map Node.cellData

def ofUnit (s : Site) (u : UnitView) : DataComponent :=
  if !u.isAggregate then
    ⟨(cell? s).getD Naming.main, Naming.main, [], [], Option.none⟩
  else
    -- grouped by all facets around the unit, so that both aggregates have the same columns
    let input := Naming.aggregate s.node.name
    let transform := Transform.ofUnit u (s.facetAncestors.flatMap Node.facetColumns)
    let sources := [Dataset.derived input Naming.main [transform]]
    match cell? s with
    | some cell =>
      let name := Naming.cellAggregate s.node.name
      ⟨name, input, sources, [.derived name cell [transform]], Option.none⟩
    | Option.none => ⟨input, input, sources, [], Option.none⟩

/-- The values a header shows, and for columns their number. -/
def headerSources (n : Node) (c : Channel) : List Dataset :=
  match n.fieldDef? c with
  | Option.none => []
  | some f =>
    let name := n.qualify c.name
    .derived name Naming.main [.group f.column] ::
      if c = .column then [.derived (Naming.layoutData name) name [.distinct f.column]] else []

def ofFacet (s : Site) : DataComponent :=
  let split := (cell? s).getD Naming.main
  ⟨split, Naming.main, headerSources s.node .row ++ headerSources s.node .column, [],
    some ⟨s.node.cellData, split⟩⟩

def ofLayer (s : Site) : DataComponent :=
  ⟨(cell? s).getD Naming.main, Naming.main, [], [], Option.none⟩

/-- The formulas that compute the time-unit columns of these definitions, each column once. -/
def timeUnitTransforms (fs : List FieldDef) : List Transform :=
  (fs.foldl (fun (done, transforms) f =>
    match f.timeUnit, f.field with
    | some unit, some field =>
      if done.contains f.column then (done, transforms)
      else (done ++ [f.column], transforms ++ [.timeUnit f.column unit field])
    | _, _ => (done, transforms)) (([] : List String), [])).2

/-- The input and the data every view starts from. -/
def rootSources (input : Option DataDef) (root : View) : List Dataset :=
  let identifiers := if root.nodes.any Node.needsIdentifier then
    [Transform.identify Naming.identifier] else []
  let formulas := timeUnitTransforms (root.nodes.flatMap Node.timeUnitFieldDefs)
  [⟨Naming.source, Option.none, input, []⟩,
    .derived Naming.main Naming.source (identifiers ++ formulas)]

end DataComponent

/-- A way to describe and emit the data of views. When a site is described, the nodes above it have
been. -/
structure Pipeline where
  /-- The data of a site, in a tree with the given input. -/
  parse : Option DataDef → Site → DataComponent
  /-- The datasets outside all facets. -/
  assemble : DataComponent → List Dataset
  /-- The datasets within the cell of the enclosing facet. -/
  assembleCell : DataComponent → List Dataset

/-- The pipeline described above; the root also brings along the input. -/
def Pipeline.standard : Pipeline where
  parse input s :=
    let component := match s.node.kind with
      | .unit u => .ofUnit s u
      | .layer _ => .ofLayer s
      | .facet _ => .ofFacet s
    if s.isRoot then
      { component with sources := DataComponent.rootSources input s.view ++ component.sources }
    else component
  assemble := DataComponent.sources
  assembleCell := DataComponent.cellSources

end Trellis
