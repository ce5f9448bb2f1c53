import Trellis.View.Marks

/-!
Axes, headers and legends. Units build them for the scales they use; a layer or facet takes over
those it shares. Axes that a facet takes over go into the header or footer along their side, so they
are drawn once for each row or column; a layer keeps the first axis of each channel.
-/

namespace Trellis

namespace Axis

/-- The axis of a unit for x or y, if it shows a field there and does not switch the axis off. -/
def ofUnit? (s : Site) (u : UnitView) (c : Channel) : Option Axis := do
  let f ← u.positionFieldDef? c
  let asked ← match u.fieldDef? c with
    | some near => near.axisDef?
    | none => some .unset
  let continuous := (s.scale? c).any (fun scale => !scale.type.isDiscrete)
  return {
    scale := s.scaleName c
    orient := asked.orient.getD (.ofChannel c)
    title := asked.title.getD f.displayTitle
    format := asked.format
    grid := asked.grid.getD continuous
    extra := asked.extra }

def ofUnit (s : Site) (u : UnitView) : Dict Channel (List Axis) :=
  .ofList (Channel.axisChannels.filterMap (fun c => (ofUnit? s u c).map (fun a => (c, [a]))))

end Axis

namespace Legend

/-- The visual property a legend explains. -/
def propertyOf (mark : MarkDef) (c : Channel) : String :=
  if c = .color then (if mark.isFilled then "fill" else "stroke") else c.name

/-- The legend of a unit for a channel, if it shows a field there through a scale and does not switch
the legend off. Continuous colors get a gradient. -/
def ofUnit? (s : Site) (u : UnitView) (c : Channel) : Option Legend := do
  let f ← u.fieldDef? c
  let asked ← f.legendDef?
  let scale ← s.scale? c
  let gradient := c = .color && !f.measure.isDiscrete && !scale.type.isDiscrete
  return {
    property := propertyOf u.mark c
    scale := s.scaleName c
    title := asked.title.getD f.displayTitle
    format := asked.format
    type := asked.type <|> if gradient then some "gradient" else none
    extra := asked.extra }

def ofUnit (s : Site) (u : UnitView) : Dict Channel Legend :=
  .ofList (Channel.legendChannels.filterMap (fun c => (ofUnit? s u c).map (c, ·)))

/-- Moves what one node holds for a channel to another, which keeps what it has. -/
def moveUp {α : Type} (parent child : Dict Channel α) (c : Channel) :
    Dict Channel α × Dict Channel α :=
  match child.get? c with
  | some a => (parent.insertIfNew c a, child.erase c)
  | none => (parent, child)

end Legend

/-- How often axes were met on each side. -/
structure SideCount where
  top : Nat
  bottom : Nat
  left : Nat
  right : Nat
deriving DecidableEq, Repr, Inhabited

namespace SideCount

def zero : SideCount := ⟨0, 0, 0, 0⟩

def get (n : SideCount) : Orient → Nat
  | .top => n.top
  | .bottom => n.bottom
  | .left => n.left
  | .right => n.right

def add (n : SideCount) : Orient → SideCount
  | .top => { n with top := n.top + 1 }
  | .bottom => { n with bottom := n.bottom + 1 }
  | .left => { n with left := n.left + 1 }
  | .right => { n with right := n.right + 1 }

/-- Leaves the first axis on each side and puts the later ones on the opposite side. -/
def place (n : SideCount) (a : Axis) : SideCount × Axis :=
  (n.add a.orient, if n.get a.orient = 0 then a else { a with orient := a.orient.opposite })

def placeAll (n : SideCount) : List Axis → SideCount × List Axis
  | [] => (n, [])
  | a :: rest =>
    let (n, a) := n.place a
    let (n, rest) := placeAll n rest
    (n, a :: rest)

/-- Places the axes of the channels that a test picks, in channel order. -/
def placePicked (pick : Channel → Bool) (n : SideCount) :
    List (Channel × List Axis) → SideCount × List (Channel × List Axis)
  | [] => (n, [])
  | (c, axes) :: rest =>
    let (n, axes) := if pick c then n.placeAll axes else (n, axes)
    let (n, rest) := placePicked pick n rest
    (n, (c, axes) :: rest)

end SideCount

namespace View

/-- Takes the shared axes out of the views under a layer, the first of each channel being kept, and
spreads the others over the sides. -/
def mergeAxes (r : Resolve) : SideCount → Dict Channel (List Axis) → List View →
    Dict Channel (List Axis) × List View
  | _, taken, [] => (taken, [])
  | n, taken, v :: rest =>
    let axes := v.node.components.axes
    let taken := (axes.filter (fun c _ => r.shares .axis c)).entries.foldl
      (fun taken (c, a) => taken.insertIfNew c a) taken
    let (n, kept) := n.placePicked (fun _ => true)
      (axes.filter (fun c _ => !r.shares .axis c)).entries
    let (taken, rest) := mergeAxes r n taken rest
    (taken, v.update (fun c => { c with axes := .ofList kept }) :: rest)

/-- An empty part of a header around a view. -/
def headerPart (child : View) (h : HeaderChannel) (labels : Bool) : HeaderPart :=
  ⟨labels, child.sizeSignal h.dimension, []⟩

/-- The header of a facet binding around its child, and the child without the title it gives up. -/
def facetHeader (config : Config) (child : View) (h : HeaderChannel) (f : FieldDef) :
    LayoutHeader × View :=
  let asked := f.header.getD .unset
  let own := asked.title.getD f.displayTitle
  let (title, child) := match child.node.components.headers.get? h with
    | some inner =>
      let (title, inner) := LayoutHeader.mergeTitle own inner
      (title, child.update (fun c => { c with headers := c.headers.insert h inner }))
    | none => (own, child)
  ({ title := some title
     label := some (f.label asked.format .parent config)
     field := some f.column
     header := [child.headerPart h true]
     footer := [] }, child)

/-- Lays out a facet's own header along one channel, if the facet binds it. -/
def addHeader (config : Config) (n : Node) (f : FacetView) (h : HeaderChannel) (child : View) :
    Node × View :=
  match f.fieldDef? h.channel with
  | none => (n, child)
  | some g =>
    let (header, child) := facetHeader config child h g
    (n.update (fun c => { c with headers := c.headers.insert h header }), child)

/-- Moves the axes of a channel from a facet's child into the facet's headers, if they are shared. -/
def liftAxes (c : Channel) (n : Node) (child : View) : Node × View :=
  if !n.resolve.shares .axis c then (n, child)
  else match HeaderChannel.forAxis? c, child.node.components.axes.get? c with
    | some h, some axes =>
      let fresh := child.headerPart h false
      let add (headers : Dict HeaderChannel LayoutHeader) (a : Axis) :=
        headers.insert h ((headers.getD h .empty).addAxis (.ofOrient a.orient) fresh a)
      (n.update (fun k => { k with headers := axes.foldl add k.headers }),
        child.update (fun k => { k with axes := k.axes.erase c }))
    | _, _ => (n, child)

/-- The headers of a facet, columns first, and the axes of its child moved into them. -/
def facetGuides (config : Config) (n : Node) (f : FacetView) (child : View) : Node × View :=
  -- the headers come first: each starts out without axes
  let (n, child) := addHeader config n f .column child
  let (n, child) := addHeader config n f .row child
  let (n, child) := liftAxes .x n child
  liftAxes .y n child

/-- The axis and header phase on one view. -/
def guideStep (config : Config) : Step := fun ancestors v =>
  match v, v.node.kind with
  | v, .unit u => .ok (v.update (fun c => { c with axes := Axis.ofUnit ⟨ancestors, v⟩ u }))
  | mk n cs, .layer _ =>
    let (axes, cs) := mergeAxes n.resolve .zero .empty cs
    .ok (mk (n.update (fun c => { c with axes })) cs)
  | mk n [], .facet _ => .failed (mk n []) (.malformed (.childlessFacet n.index))
  | mk n (child :: rest), .facet f =>
    let (n, child) := facetGuides config n f child
    .ok (mk n (child :: rest))

/-- Takes the shared legends out of the views under a node, the first of each channel being kept. -/
def mergeLegends (r : Resolve) : Dict Channel Legend → List View →
    Dict Channel Legend × List View
  | taken, [] => (taken, [])
  | taken, v :: rest =>
    let held := v.node.components.legends
    let (taken, kept) := held.keys.foldl (fun (parent, child) c =>
      if r.shares .legend c then Legend.moveUp parent child c else (parent, child)) (taken, held)
    let (taken, rest) := mergeLegends r taken rest
    (taken, v.update (fun c => { c with legends := kept }) :: rest)

/-- Resolves the legends of the views under a layer or facet. -/
def collectLegends : View → View
  | mk n cs =>
    let (legends, cs) := mergeLegends n.resolve .empty cs
    mk (n.update (fun c => { c with legends })) cs

/-- The legend phase on one view. -/
def legendStep : Step := fun ancestors v =>
  match v.node.kind with
  | .unit u => .ok (v.update (fun c => { c with legends := Legend.ofUnit ⟨ancestors, v⟩ u }))
  | _ => .ok v.collectLegends

end View

namespace Site

/-- The axes drawn in the group of a view. -/
def groupAxes (s : Site) : List Axis :=
  s.groupMembers.flatMap (fun m => m.node.components.axes.values.flatten)

/-- The legends drawn in the group of a view. -/
def groupLegends (s : Site) : List Legend :=
  s.groupMembers.flatMap (fun m => m.node.components.legends.values)

/-- The groups with the titles, headers and footers around a facet's cells. -/
def headerMarks (s : Site) : List (TitleMark ⊕ HeaderMark) :=
  [HeaderChannel.row, .column].flatMap (fun h =>
    match s.node.components.headers.get? h with
    | none => []
    | some header =>
      let title : List (TitleMark ⊕ HeaderMark) := header.title.toList.map (fun t =>
        .inl ⟨s.node.qualify (h.name ++ "_title"), h, t⟩)
      title ++ HeaderSlot.all.flatMap (fun slot => (header.parts slot).map (fun part =>
        .inr {
          name := s.node.qualify (h.name ++ "_" ++ slot.name)
          channel := h
          slot
          source := header.field.map (fun column => (s.node.qualify h.name, column))
          label := if part.labels then header.label else none
          sizeSignal := part.sizeSignal
          axes := part.axes })))

end Site
end Trellis
