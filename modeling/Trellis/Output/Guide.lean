import Trellis.Field

/-!
Axes, legends and facet headers as they are emitted.
-/

namespace Trellis

structure Axis where
  /-- The name of the scale it shows. -/
  scale : String
  orient : Orient
  title : String
  format : Option String
  grid : Bool
  /-- Further properties, which win over those above. -/
  extra : Dict String Json
deriving Inhabited

def Axis.toJson (a : Axis) : Json :=
  .object ([("scale", .str a.scale), ("orient", .str a.orient.name), ("title", .str a.title)] ++
    Json.optional "format" .str a.format ++ (if a.grid then [("grid", .bool true)] else []) ++
    a.extra.entries)

structure Legend where
  /-- The visual property it explains, such as fill or size. -/
  property : String
  /-- The name of the scale it shows. -/
  scale : String
  title : String
  format : Option String
  type : Option String
  /-- Further properties, which win over those above. -/
  extra : Dict String Json
deriving Inhabited

def Legend.toJson (l : Legend) : Json :=
  .object ([(l.property, .str l.scale), ("title", .str l.title)] ++
    Json.optional "format" .str l.format ++ Json.optional "type" .str l.type ++ l.extra.entries)

/-- The two places along a facet channel: before the cells and behind them. -/
inductive HeaderSlot where
  | header
  | footer
deriving DecidableEq, Repr, Inhabited

namespace HeaderSlot

def all : List HeaderSlot := [.header, .footer]

def name : HeaderSlot → String
  | header => "header"
  | footer => "footer"

/-- The place of an axis by its side. -/
def ofOrient : Orient → HeaderSlot
  | .top | .left => header
  | .bottom | .right => footer

end HeaderSlot

/-- A header or footer: whether it labels the facet values, its extent, and its axes. -/
structure HeaderPart where
  labels : Bool
  /-- The signal with the size of a cell along the header. -/
  sizeSignal : String
  axes : List Axis
deriving Inhabited

/-- The title, labels, header and footer along a facet channel. -/
structure LayoutHeader where
  title : Option String
  label : Option Label
  /-- The column the facet splits by. -/
  field : Option String
  header : List HeaderPart
  footer : List HeaderPart
deriving Inhabited

namespace LayoutHeader

/-- Nothing is laid out. -/
def empty : LayoutHeader := ⟨none, none, none, [], []⟩

def parts (h : LayoutHeader) : HeaderSlot → List HeaderPart
  | .header => h.header
  | .footer => h.footer

def withParts (h : LayoutHeader) (slot : HeaderSlot) (parts : List HeaderPart) : LayoutHeader :=
  match slot with
  | .header => { h with header := parts }
  | .footer => { h with footer := parts }

/-- Puts an axis into the first part of its place, which starts out as `fresh`. -/
def addAxis (h : LayoutHeader) (slot : HeaderSlot) (fresh : HeaderPart) (axis : Axis) :
    LayoutHeader :=
  match h.parts slot with
  | [] => h.withParts slot [{ fresh with axes := fresh.axes ++ [axis] }]
  | p :: rest => h.withParts slot ({ p with axes := p.axes ++ [axis] } :: rest)

/-- The title of a facet joined with the one its child has for the same channel, which the child
gives up. -/
def mergeTitle (title : String) (child : LayoutHeader) : String × LayoutHeader :=
  let merged := match child.title with
    | some inner => if inner.isEmpty then title else title ++ " / " ++ inner
    | none => title
  (merged, { child with title := none })

end LayoutHeader
end Trellis
