import Trellis.View.Outcome

/-!
Marks. A unit's mark carries a visual property for each channel it shows, with positions, bars and
colors filled in where a channel is missing. A facet's mark is the group that repeats its child.
-/

namespace Trellis

namespace UnitView

/-- The columns that tell the series of a path apart: those of color and detail. -/
def seriesColumns (u : UnitView) : List String :=
  ([Channel.color, .detail].filterMap u.fieldDef?).foldl (fun kept f =>
    if f.aggregate.isSome || kept.contains f.column then kept else kept ++ [f.column]) []

end UnitView

namespace Encode

/-- What a unit at a site shows on a channel through the scale of another. -/
def valueOf (s : Site) (scaled : Channel) : ChannelDef → EncodeValue
  | .field f => .scaled (s.scaleName scaled) f.column
  | .value j => .constant j

/-- The extent of a rectangle along a channel: a whole band, the width of a tick, or down to zero. -/
def extent (s : Site) (u : UnitView) (c c2 : Channel) (d : Dimension) (e : EncodeEntry) :
    EncodeEntry :=
  -- the type counts that the scale in use has, which may be that of another unit
  if (s.scale? c).any (fun scale => scale.type = .band) then
    e.insert d.name (.band (s.scaleName c))
  else if u.mark.type = .tick then e.insert d.name (.constant (.int 1))
  else if u.encoding.contains c2 then e
  else e.insert c2.name (.baseline (s.scaleName c))

/-- The near end of a position. Bars, rectangles and rules without one span the group, other marks
but paths stand in its middle. -/
def near (s : Site) (u : UnitView) (c c2 : Channel) (d : Dimension) (e : EncodeEntry) :
    EncodeEntry :=
  match u.encoding.get? c with
  | some (.field f) =>
    let e := e.insert c.name (.scaled (s.scaleName c) f.column)
    if u.mark.type.isRect then extent s u c c2 d e else e
  | some (.value j) => e.insert c.name (.constant j)
  | none =>
    if (u.mark.type = .bar || u.mark.type = .rect || u.mark.type = .rule) &&
        !u.encoding.contains c2 then
      (e.insert c.name (.constant (.int 0))).insert c2.name (.groupSize d)
    else if u.mark.type.isPath then e
    else e.insert c.name (.groupMiddle d)

/-- Both ends of a position; the far one uses the scale of the near one. -/
def position (s : Site) (u : UnitView) (c c2 : Channel) (d : Dimension) (e : EncodeEntry) :
    EncodeEntry :=
  let e := near s u c c2 d e
  match u.encoding.get? c2 with
  | some far => e.insert c2.name (valueOf s c far)
  | none => e

/-- Color fills or strokes the mark. -/
def color (s : Site) (config : Config) (u : UnitView) (e : EncodeEntry) : EncodeEntry :=
  e.insert (if u.mark.isFilled then "fill" else "stroke")
    (match u.encoding.get? .color with
      | some d => valueOf s .color d
      | none => .constant (.str config.markColor))

/-- The property that size stands for. -/
def sizeProperty : MarkType → String
  | .text => "fontSize"
  | .line | .rule => "strokeWidth"
  | _ => "size"

/-- Size, shape and opacity; circles and squares have their shape by themselves. -/
def appearance (s : Site) (u : UnitView) (e : EncodeEntry) : EncodeEntry :=
  let e := [(Channel.size, sizeProperty u.mark.type), (.shape, "shape"),
      (.opacity, "opacity")].foldl (fun e (c, property) =>
    match u.encoding.get? c with
    | some d => e.insert property (valueOf s c d)
    | none => e) e
  if e.contains "shape" then e
  else match u.mark.type with
    | .circle => e.insert "shape" (.constant (.str "circle"))
    | .square => e.insert "shape" (.constant (.str "square"))
    | _ => e

/-- Text and tooltip, as labels. -/
def texts (config : Config) (u : UnitView) (e : EncodeEntry) : EncodeEntry :=
  [Channel.text, .tooltip].foldl (fun e c =>
    match u.encoding.get? c with
    | some (.field f) => e.insert c.name (.signal (f.label none .datum config).expression)
    | some (.value j) => e.insert c.name (.constant j)
    | none => e) e

/-- All visual properties of a unit's mark. -/
def entry (s : Site) (config : Config) (u : UnitView) : EncodeEntry :=
  texts config u <| appearance s u <| color s config u <|
    position s u .y .y2 .height <| position s u .x .x2 .width .empty

end Encode

namespace UnitMark

/-- The mark of a unit that reads a dataset; paths are split into their series. -/
def ofUnit (s : Site) (config : Config) (u : UnitView) (source : String) : UnitMark :=
  let name := s.node.qualify "marks"
  let columns := u.seriesColumns
  { name
    type := u.mark.type
    source
    update := Encode.entry s config u
    series := if u.mark.type.isPath && !columns.isEmpty then
      some ⟨s.node.qualify "pathgroup", "faceted_path_" ++ name, columns⟩ else none }

end UnitMark

namespace CellMark

/-- The sizes and the style of the group a view is drawn in. -/
def groupEntry (v : View) (style : CellStyle) : EncodeEntry :=
  (EncodeEntry.ofStyle style).insert Dimension.width.name (.signal (v.sizeSignal .width))
    |>.insert Dimension.height.name (.signal (v.sizeSignal .height))

/-- What a view says of the cell it is repeated in. -/
def childEntry (config : Config) (v : View) : EncodeEntry :=
  match v.node.kind with
  | .unit u => groupEntry v u.cell
  | .layer _ => groupEntry v config.cell.style
  | .facet _ => .empty

/-- The cells of a facet that splits a dataset; the facet's own cell style counts most. -/
def ofFacet (n : Node) (config : Config) (f : FacetView) (root : FacetRoot) (child : View) :
    CellMark :=
  { name := n.qualify "cell"
    root
    groupby := f.columns
    crossed := f.isCrossed
    update := (childEntry config child).extend (EncodeEntry.ofStyle config.facetCell) }

end CellMark

namespace View

/-- The view a facet repeats. -/
def facetChild (v : View) : Except StructureError View :=
  match v.children with
  | c :: _ => .ok c
  | [] => .error (.childlessFacet v.node.index)

/-- The cells of a facet. -/
def cellMark (config : Config) (v : View) (f : FacetView) : Except CompileError CellMark := do
  let child ← v.facetChild.mapError .malformed
  let d ← v.node.components.dataOrError.mapError .phase
  match d.facetRoot with
  | some root => return .ofFacet v.node config f root child
  | none => throw (.phase .facetDataMissing)

/-- The mark phase on one view; layers have no mark of their own. -/
def markStep (config : Config) : Step := fun ancestors v =>
  match v.node.kind with
  | .unit u => Outcome.ofExcept v .phase v.node.components.dataOrError (fun d =>
      v.update (fun c =>
        { c with mark := [.unit (.ofUnit ⟨ancestors, v⟩ config u d.source)] }))
  | .layer _ => .ok v
  | .facet f => Outcome.ofExcept v id (cellMark config v f) (fun m =>
      v.update (fun c => { c with mark := [.cell m] }))

end View
end Trellis
