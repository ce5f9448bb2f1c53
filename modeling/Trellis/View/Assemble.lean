import Trellis.Output.Group
import Trellis.View.Data
import Trellis.View.Guides
import Trellis.View.Scales
import Trellis.View.Selections
import Trellis.View.Sizes

/-!
Assembling what has been worked out for the views into groups, from the root down. Layers draw the
views under them in their own group; each facet opens a group for its cells.
-/

namespace Trellis

namespace Site

/-- The group of a site that draws these marks besides its headers. -/
def groupOf (s : Site) (marks : List GroupMark) : Group :=
  .mk s.unitSignals s.gridLayout?
    (s.headerMarks.map (fun m => m.elim .title .header) ++ marks)
    s.groupScales s.groupAxes s.groupLegends

/-- The datasets of all units in a facet's cells. -/
def cellData (pipeline : Pipeline) (units : List Node) : Except PhaseError (List Dataset) :=
  units.foldlM (fun done n => do
    return done ++ pipeline.assembleCell (← n.components.dataOrError)) []

/-- The cells a facet has worked out, reading what it splits now. -/
def cellMark (n : Node) : Except PhaseError CellMark := do
  let d ← n.components.dataOrError
  match n.components.mark.head? with
  | some (.cell m) => return { m with root := d.facetRoot.getD m.root }
  | _ => throw .cellMissing

end Site

/-- The mark of a unit as a mark of its group. -/
def MarkComponent.unit? : MarkComponent → Option GroupMark
  | unit m => some (.unit m)
  | cell _ => none

namespace View

mutual

/-- The marks of a view. -/
def marks (pipeline : Pipeline) (ancestors : List Node) :
    View → Except CompileError (List GroupMark)
  | mk n cs => do
    (n.components.ensure .markGroup).mapError .phase
    match n.kind, cs with
    | .unit _, _ => return n.components.mark.filterMap MarkComponent.unit?
    | .layer _, cs => marksIn pipeline (n :: ancestors) cs
    | .facet _, [] => throw (.malformed (.childlessFacet n.index))
    | .facet _, child :: rest =>
      let m ← (Site.cellMark n).mapError .phase
      let data ← (Site.cellData pipeline (openUnitsIn (child :: rest))).mapError .phase
      let inner ← marks pipeline (n :: ancestors) child
      return [.cell m data (Site.groupOf ⟨n :: ancestors, child⟩ inner)]

def marksIn (pipeline : Pipeline) (ancestors : List Node) :
    List View → Except CompileError (List GroupMark)
  | [] => .ok []
  | v :: rest => do
    let ms ← marks pipeline ancestors v
    return ms ++ (← marksIn pipeline ancestors rest)

end

end View

namespace Site

def marks (s : Site) (pipeline : Pipeline) : Except CompileError (List GroupMark) :=
  s.view.marks pipeline s.ancestors

/-- What a site draws in its group. -/
def group (s : Site) (pipeline : Pipeline) : Except CompileError Group := do
  return s.groupOf (← s.marks pipeline)

/-- The datasets outside all facets, which only the root emits. -/
def rootData (s : Site) (pipeline : Pipeline) : Except CompileError (List Dataset) :=
  if !s.isRoot then .ok []
  else s.view.nodes.foldlM (fun done n => do
    let d ← n.components.dataOrError.mapError .phase
    return done ++ pipeline.assemble d) []

end Site

namespace Tree

/-- The visualization of a tree that has been worked out. -/
def assemble (t : Tree) (pipeline : Pipeline) : Except CompileError Visualization := do
  if t.parsed ≠ some .last then throw (.phase .unfinished)
  let s := t.rootSite
  let data ← s.rootData pipeline
  let group ← s.group pipeline
  return {
    title := t.root.node.title
    data := data ++ s.selectionStores
    signals := s.sizeSignals t.config ++ s.topSignals
    group }

end Tree
end Trellis
