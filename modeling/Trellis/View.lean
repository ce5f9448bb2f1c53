import Trellis.Output.Mark
import Trellis.Phase

/-!
The view tree. Each node has a name, a kind, its decisions on sharing, and the components worked out
for it so far; a view is a node with the views under it.

A `Site` is a view together with the nodes above it, nearest first, so what a view takes from its
surroundings is a function of its site.
-/

namespace Trellis

abbrev Encoding : Type := Dict Channel ChannelDef

structure UnitView where
  mark : MarkDef
  /-- The channels the mark can show, normalized. -/
  encoding : Encoding
  selection : Dict String SelectionDef
  size : Size
  /-- The style of the group the unit is drawn in. -/
  cell : CellStyle
deriving Inhabited

/-- The row and column bindings of a facet that lead to data, normalized. -/
structure FacetView where
  facet : Dict Channel FieldDef
deriving Inhabited

inductive ViewKind where
  | unit (unit : UnitView)
  | layer (size : Size)
  | facet (facet : FacetView)
deriving Inhabited

/-- How the size of a view in one dimension comes about. -/
inductive SizeValue where
  | fixed (size : Binary64)
  /-- From the step of a discrete scale. -/
  | rangeStep
  /-- From the sizes of the views under it. -/
  | merged
deriving DecidableEq, Repr, Inhabited

/-- A mark before it is put into a group. -/
inductive MarkComponent where
  | unit (mark : UnitMark)
  | cell (mark : CellMark)
deriving Inhabited

def MarkComponent.toJson : MarkComponent → Json
  | unit m => m.toJson
  | cell m => m.toJson

/-- What has been worked out for a node; each phase fills its own part. -/
structure Components where
  data : Option DataComponent
  scales : Dict Channel Scale
  layoutSize : Dict Dimension SizeValue
  selection : Dict String Selection
  mark : List MarkComponent
  axes : Dict Channel (List Axis)
  headers : Dict HeaderChannel LayoutHeader
  legends : Dict Channel Legend
  completed : Option Phase
deriving Inhabited

/-- Nothing is worked out yet. -/
def Components.empty : Components :=
  ⟨none, .empty, .empty, .empty, [], .empty, .empty, .empty, none⟩

structure Node where
  /-- The place in pre-order, from 0. -/
  index : Nat
  name : String
  title : Option String
  kind : ViewKind
  resolve : Resolve
  components : Components
deriving Inhabited

inductive View where
  | mk (node : Node) (children : List View)
deriving Inhabited

/-- A view with the nodes above it, nearest first. -/
structure Site where
  ancestors : List Node
  view : View
deriving Inhabited

namespace UnitView

def fieldDef? (u : UnitView) (c : Channel) : Option FieldDef :=
  (u.encoding.get? c).bind ChannelDef.fieldDef?

/-- The field definitions of all channels, in channel order. -/
def fieldDefs (u : UnitView) : List FieldDef := u.encoding.values.filterMap ChannelDef.fieldDef?

/-- The field definition of the far end of a position. -/
def secondaryFieldDef? (u : UnitView) (c : Channel) : Option FieldDef :=
  c.secondary?.bind u.fieldDef?

/-- The field definition of a channel, for x and y also that of the far end. -/
def positionFieldDef? (u : UnitView) (c : Channel) : Option FieldDef :=
  u.fieldDef? c <|> u.secondaryFieldDef? c

def isAggregate (u : UnitView) : Bool := u.fieldDefs.any (fun f => f.aggregate.isSome)

end UnitView

namespace FacetView

def fieldDef? (f : FacetView) (c : Channel) : Option FieldDef := f.facet.get? c

/-- The bound field definitions, row before column. -/
def fieldDefs (f : FacetView) : List FieldDef :=
  [Channel.row, Channel.column].filterMap f.fieldDef?

/-- The columns of the data it splits by, row before column. -/
def columns (f : FacetView) : List String := f.fieldDefs.map FieldDef.column

/-- Cells are laid out over both rows and columns. -/
def isCrossed (f : FacetView) : Bool := f.facet.contains .row && f.facet.contains .column

end FacetView

namespace Node

def unit? (n : Node) : Option UnitView :=
  match n.kind with
  | .unit u => some u
  | _ => none

def facet? (n : Node) : Option FacetView :=
  match n.kind with
  | .facet f => some f
  | _ => none

def isUnit (n : Node) : Bool := n.unit?.isSome

def isFacet (n : Node) : Bool := n.facet?.isSome

def isLayer (n : Node) : Bool :=
  match n.kind with
  | .layer _ => true
  | _ => false

/-- The field definition of a channel: in the encoding of a unit or the grid of a facet. -/
def fieldDef? (n : Node) (c : Channel) : Option FieldDef :=
  match n.kind with
  | .unit u => u.fieldDef? c
  | .facet f => f.fieldDef? c
  | .layer _ => none

/-- The size a node declares itself. -/
def ownSize? (n : Node) (d : Dimension) : Option Binary64 :=
  match n.kind with
  | .unit u => u.size.get? d
  | .layer size => size.get? d
  | .facet _ => none

/-- A local name behind the node's name. -/
def qualify (n : Node) (text : String) : String := Naming.qualify n.name text

/-- The records of a facet's cell. -/
def cellData (n : Node) : String := n.qualify "facet"

def update (n : Node) (f : Components → Components) : Node := { n with components := f n.components }

end Node

namespace View

def node : View → Node
  | mk n _ => n

def children : View → List View
  | mk _ cs => cs

/-- Changes the node and leaves what is under it. -/
def updateNode (f : Node → Node) : View → View
  | mk n cs => mk (f n) cs

def update (f : Components → Components) (v : View) : View := v.updateNode (Node.update · f)

mutual

/-- Changes every node of the view. -/
def mapNodes (f : Node → Node) : View → View
  | mk n cs => mk (f n) (mapNodesIn f cs)

def mapNodesIn (f : Node → Node) : List View → List View
  | [] => []
  | v :: rest => mapNodes f v :: mapNodesIn f rest

end

mutual

/-- The nodes of the view, parents before children. -/
def nodes : View → List Node
  | mk n cs => n :: nodesIn cs

def nodesIn : List View → List Node
  | [] => []
  | v :: rest => nodes v ++ nodesIn rest

end

mutual

/-- The sites of the view and of all under it, parents before children. -/
def sites (ancestors : List Node) : View → List Site
  | mk n cs => ⟨ancestors, mk n cs⟩ :: sitesIn (n :: ancestors) cs

def sitesIn (ancestors : List Node) : List View → List Site
  | [] => []
  | v :: rest => sites ancestors v ++ sitesIn ancestors rest

end

mutual

/-- The sites of the views drawn in the same group: layers draw what is under them in their own
group, units and facets end the walk. -/
def groupSites (ancestors : List Node) : View → List Site
  | mk n cs =>
    ⟨ancestors, mk n cs⟩ :: if n.isLayer then groupSitesIn (n :: ancestors) cs else []

def groupSitesIn (ancestors : List Node) : List View → List Site
  | [] => []
  | v :: rest => groupSites ancestors v ++ groupSitesIn ancestors rest

end

mutual

/-- The units under a view that no facet in between encloses. -/
def openUnits : View → List Node
  | mk n cs => if n.isUnit then n :: openUnitsIn cs else if n.isFacet then [] else openUnitsIn cs

def openUnitsIn : List View → List Node
  | [] => []
  | v :: rest => openUnits v ++ openUnitsIn rest

end

/-- The name of the signal with the size of a view; that of a facet is the size of its cell. -/
def sizeSignal (d : Dimension) : View → String
  | mk n [] => n.qualify d.name
  | mk n (c :: _) => if n.isFacet then c.sizeSignal d else n.qualify d.name

end View

namespace Site

def node (s : Site) : Node := s.view.node

def isRoot (s : Site) : Bool := s.ancestors.isEmpty

/-- The node and those above it, nearest first. -/
def lineage (s : Site) : List Node := s.node :: s.ancestors

def children (s : Site) : List Site := s.view.children.map (fun c => ⟨s.lineage, c⟩)

/-- The site and those under it, parents before children. -/
def preOrder (s : Site) : List Site := s.view.sites s.ancestors

/-- The units under the site, in traversal order. -/
def units (s : Site) : List Site := s.preOrder.filter (fun t => t.node.isUnit)

def groupMembers (s : Site) : List Site := s.view.groupSites s.ancestors

/-- The facets above the site, nearest first. -/
def facetAncestors (s : Site) : List Node := s.ancestors.filter Node.isFacet

/-- The nearest facet above the site. -/
def facetAncestor? (s : Site) : Option Node := s.ancestors.find? Node.isFacet

/-- The nearest node, from the site's own upwards, that holds a scale for a channel. A shared scale
is held by the node that shares it, so this is the scale in use. -/
def scaleOwner? (s : Site) (c : Channel) : Option Node :=
  s.lineage.find? (fun n => n.components.scales.contains c.primary)

def scale? (s : Site) (c : Channel) : Option Scale :=
  (s.scaleOwner? c).bind (fun n => n.components.scales.get? c.primary)

/-- The name of the scale a site uses for a channel. -/
def scaleName (s : Site) (c : Channel) : String :=
  ((s.scaleOwner? c).getD s.node).qualify c.primary.name

/-- The size a node declares, or the nearest of the layers directly above it. -/
def declaredSize? (s : Site) (d : Dimension) : Option Binary64 :=
  (s.node :: s.ancestors.takeWhile Node.isLayer).findSome? (fun n => n.ownSize? d)

def sizeSignal (s : Site) (d : Dimension) : String := s.view.sizeSignal d

end Site
end Trellis
