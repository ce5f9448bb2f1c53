import Trellis.Output.Group
import Trellis.View.Outcome

/-!
Scales. Units build a scale for each scale channel they show. A layer or facet takes the scales it
shares out of the views under it and merges those of one channel: the first keeps its properties, the
domains are united. Scales that stay inside a facet read the records of its cells.
-/

namespace Trellis

namespace Scale

/-- The columns a position or other channel of a unit shows. -/
def domainRefs (u : UnitView) (c : Channel) (f : FieldDef) (input : String) : List DataRef :=
  ScaleDomain.appendNew [⟨input, f.column⟩]
    ((u.secondaryFieldDef? c).toList.map (fun g => ⟨input, g.column⟩))

/-- The range of a scale that does not choose one. -/
def defaultRange (s : Site) (config : Config) (c : Channel) (type : ScaleType) (f : FieldDef)
    (asked : ScaleDef) : ScaleRange :=
  match c with
  | .x | .y =>
    let d := c.dimension?.getD .width
    if type.isDiscrete && (s.declaredSize? d).isNone then
      .step (asked.rangeStep.getD config.scale.rangeStep)
    else .size d
  | .color =>
    if type = .sequential then .named "ramp"
    else if f.measure = .ordinal then .named "ordinal"
    else .named "category"
  | .shape => .named "symbol"
  | .size => .values (.arr [.int 9, .int 361])
  | .opacity => .values (.arr [.real (ScaleConfig.decimal 3 (-1)), .real (ScaleConfig.decimal 8 (-1))])
  | _ => .size .width

/-- The scale a unit builds for a channel, if it shows anything there. -/
def ofUnit? (s : Site) (config : Config) (u : UnitView) (input : String) (c : Channel) :
    Option Scale :=
  (u.positionFieldDef? c).map (fun f =>
    let asked := f.scale.getD .unset
    let type := asked.type.getD (defaultType c f.measure u.mark.type)
    let domain := match asked.domain with
      | some values => .values values
      | none => .data (domainRefs u c f input)
    let range := asked.range.elim (defaultRange s config c type f asked) .values
    let scale : Scale := ⟨type, domain, range, none, none, none, asked.zero, asked.nice⟩
    if c.isPositional then scale.withPadding asked config.scale else scale)

/-- All scales of a unit. -/
def ofUnit (s : Site) (config : Config) (u : UnitView) (input : String) : Dict Channel Scale :=
  .ofList (Channel.scaleChannels.filterMap (fun c => (ofUnit? s config u input c).map (c, ·)))

/-- Adds scales to those merged so far. -/
def mergeInto (merged : Dict Channel Scale) (scales : Dict Channel Scale) : Dict Channel Scale :=
  scales.entries.foldl (fun merged (c, s) =>
    match merged.get? c with
    | some held => merged.insert c (held.unionDomain s)
    | none => merged.insert c s) merged

end Scale

/-- A dataset and the one to read in its place. -/
structure DataRename where
  source : String
  target : String
deriving DecidableEq, Repr

namespace View

/-- The scales of a view that the node above shares. -/
def sharedScales (r : Resolve) (v : View) : Dict Channel Scale :=
  v.node.components.scales.filter (fun c _ => r.shares .scale c)

/-- The view without the scales that the node above shares. -/
def dropSharedScales (r : Resolve) (v : View) : View :=
  v.update (fun c => { c with scales := c.scales.filter (fun ch _ => !r.shares .scale ch) })

/-- The scales of views side by side that the node above shares, merged by channel. -/
def mergedScales (r : Resolve) (views : List View) : Dict Channel Scale :=
  views.foldl (fun merged v => Scale.mergeInto merged (v.sharedScales r)) .empty

/-- Which datasets scales inside a facet's cells read in place of others: the cell's records for what
is split, and a unit's own records for those it has outside all facets. -/
def cellRenames (root : FacetRoot) (units : List Node) : Except PhaseError (List DataRename) :=
  units.foldlM (fun renames n => do
    let d ← n.components.dataOrError
    let rename : DataRename := ⟨d.input, d.source⟩
    return if renames.contains rename then renames else renames ++ [rename])
    [⟨root.data, root.name⟩]

def renameScales (renames : List DataRename) (c : Components) : Components :=
  { c with
    scales := c.scales.mapValues (fun s =>
      renames.foldl (fun s r => s.renameData r.source r.target) s) }

/-- The views in a facet's cells with their scales reading the cells' records. -/
def localizeScales (n : Node) (cells : List View) : Except PhaseError (List View) :=
  if !n.isFacet then .ok cells
  else do
    let d ← n.components.dataOrError
    match d.facetRoot with
    | none => return cells
    | some root =>
      let renames ← cellRenames root (openUnitsIn cells)
      return cells.map (mapNodes (Node.update · (renameScales renames)))

/-- Resolves the scales of the views under a layer or facet. -/
def mergeScales : View → Outcome
  | mk n cs =>
    -- shared scales leave the cells before the renames, so they go on reading records of all cells
    let merged := mergedScales n.resolve cs
    let cells := cs.map (dropSharedScales n.resolve)
    Outcome.ofExcept (mk n cells) .phase (localizeScales n cells) (fun cells =>
      mk (n.update (fun c => { c with scales := merged })) cells)

/-- The scale phase on one view. -/
def scaleStep (config : Config) : Step := fun ancestors v =>
  match v.node.kind with
  | .unit u => Outcome.ofExcept v .phase v.node.components.dataOrError (fun d =>
      v.update (fun c => { c with scales := Scale.ofUnit ⟨ancestors, v⟩ config u d.input }))
  | _ => v.mergeScales

end View

namespace Site

/-- The scales drawn in the group of a view. -/
def groupScales (s : Site) : List NamedScale :=
  s.groupMembers.flatMap (fun m =>
    m.node.components.scales.entries.map (fun (c, scale) =>
      ⟨m.node.qualify c.name, scale, m.sizeSignal⟩))

end Site
end Trellis
