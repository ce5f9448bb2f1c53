import Trellis.Output.Group
import Trellis.View.Outcome

/-!
Sizes of views: declared, or following the step of a discrete scale, or taken from the configuration.
A layer is as large as the largest view under it, a facet's cell as large as the facet's child.
-/

namespace Trellis

namespace View

def sizeOfUnit (s : Site) (config : Config) (d : Dimension) : SizeValue :=
  match s.declaredSize? d with
  | some size => .fixed size
  | none =>
    if (s.scale? d.channel).any Scale.isStepSized then .rangeStep else .fixed (config.cellSize d)

/-- How the sizes of a view come about. -/
def sizes (s : Site) (config : Config) : Dict Dimension SizeValue :=
  match s.node.kind with
  | .unit _ => .ofList (Dimension.all.map (fun d => (d, sizeOfUnit s config d)))
  | .layer _ => .ofList (Dimension.all.map (fun d => (d, .merged)))
  | .facet _ => .empty

/-- The layout-size phase on one view. -/
def sizeStep (config : Config) : Step := fun ancestors v =>
  .ok (v.update (fun c => { c with layoutSize := sizes ⟨ancestors, v⟩ config }))

end View

namespace Scale

/-- The paddings that count for the extent of a discrete scale. Between n points lie n - 1 steps, so
points have a whole step as inner padding. -/
def extentPadding (s : Scale) : Binary64 × Binary64 :=
  let outer := (s.paddingOuter <|> s.padding).getD .zero
  let inner := match s.type with
    | .point => .ofNat 1
    | _ => (s.paddingInner <|> s.padding).getD .zero
  (inner, outer)

end Scale

namespace Site

/-- The size of a unit. The scale it names may lie within a facet cell, out of sight of the signal. -/
def unitSize (s : Site) (config : Config) (d : Dimension) : Expression :=
  let fixed := match s.node.components.layoutSize.get? d with
    | some (.fixed size) => size
    | _ => config.cellSize d
  -- a step counts even where a size is declared, if the scale is that of another unit
  match s.scale? d.channel with
  | none => .size fixed
  | some scale =>
    match scale.step? with
    | none => .size fixed
    | some step =>
      let (inner, outer) := scale.extentPadding
      .bandspace (s.scaleName d.channel) inner outer step

/-- The size of a layer. -/
def layerSize (s : Site) (d : Dimension) : Expression :=
  .largest (s.view.children.map (View.sizeSignal d))

end Site

namespace View

mutual

/-- The size signals of a view and of all within it; a layer's come after those it is made of. -/
def sizeSignals (config : Config) (ancestors : List Node) : View → List Signal
  | mk n cs =>
    let site : Site := ⟨ancestors, mk n cs⟩
    match n.kind with
    | .unit _ => Dimension.all.map (fun d => .computed (n.qualify d.name) (site.unitSize config d))
    | .layer _ => sizeSignalsIn config (n :: ancestors) cs ++
        Dimension.all.map (fun d => .computed (n.qualify d.name) (site.layerSize d))
    | .facet _ => sizeSignalsIn config (n :: ancestors) cs

def sizeSignalsIn (config : Config) (ancestors : List Node) : List View → List Signal
  | [] => []
  | v :: rest => sizeSignals config ancestors v ++ sizeSignalsIn config ancestors rest

end

end View

namespace Site

def sizeSignals (s : Site) (config : Config) : List Signal := s.view.sizeSignals config s.ancestors

/-- The grid of a facet; other views have none. -/
def gridLayout? (s : Site) : Option GridLayout :=
  s.node.facet?.map (fun f => ⟨(f.fieldDef? .column).map (fun g =>
    ⟨Naming.layoutData (s.node.qualify Channel.column.name), g.columnWith (some Naming.distinct)⟩)⟩)

end Site
end Trellis
