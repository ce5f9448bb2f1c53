import Trellis.Output.Mark

/-!
Groups as they are emitted: what one view draws, with the groups of facet cells nested inside.
-/

namespace Trellis

/-- A scale under its name, with the names of the size signals its range may span. -/
structure NamedScale where
  name : String
  scale : Scale
  sizeSignal : Dimension → String
deriving Inhabited

def NamedScale.toJson (s : NamedScale) : Json := s.scale.toJson s.name s.sizeSignal

/-- Where the number of grid columns is found: a column of a dataset's first record. -/
structure ColumnCount where
  data : String
  column : String
deriving DecidableEq, Repr, Inhabited

def ColumnCount.expression (c : ColumnCount) : String :=
  "data('" ++ c.data ++ "')[0][" ++ Text.quoted c.column ++ "]"

/-- The grid of a facet. Without a column channel it has a single column. -/
structure GridLayout where
  columns : Option ColumnCount
deriving DecidableEq, Repr, Inhabited

def GridLayout.toJson (l : GridLayout) : Json :=
  .object [
    ("padding", .object [("row", .int 10), ("column", .int 10)]),
    ("offset", .int 10),
    ("columns", match l.columns with
      | some c => signalRef c.expression
      | none => .int 1),
    ("bounds", .str "full")]

mutual

/-- A mark within a group. -/
inductive GroupMark where
  | unit (mark : UnitMark)
  | title (mark : TitleMark)
  | header (mark : HeaderMark)
  /-- The cells of a facet, with the datasets and the content of each cell. -/
  | cell (mark : CellMark) (data : List Dataset) (content : Group)

/-- What a view draws. -/
inductive Group where
  | mk (signals : List Signal) (layout : Option GridLayout) (marks : List GroupMark)
    (scales : List NamedScale) (axes : List Axis) (legends : List Legend)

end

instance : Inhabited Group := ⟨.mk [] none [] [] [] []⟩
instance : Inhabited GroupMark := ⟨.unit default⟩

namespace Group

def signals : Group → List Signal
  | mk signals _ _ _ _ _ => signals

def layout : Group → Option GridLayout
  | mk _ layout _ _ _ _ => layout

def marks : Group → List GroupMark
  | mk _ _ marks _ _ _ => marks

def scales : Group → List NamedScale
  | mk _ _ _ scales _ _ => scales

def axes : Group → List Axis
  | mk _ _ _ _ axes _ => axes

def legends : Group → List Legend
  | mk _ _ _ _ _ legends => legends

end Group

mutual

def GroupMark.toJson : GroupMark → Json
  | .unit m => m.toJson
  | .title m => m.toJson
  | .header m => m.toJson
  | .cell m data content =>
    .object (m.members ++ Json.unlessEmpty "data" Dataset.toJson data ++ content.members)

def Group.marksToJson : List GroupMark → List Json
  | [] => []
  | m :: rest => m.toJson :: Group.marksToJson rest

/-- The members of a group; empty lists are left out. -/
def Group.members : Group → List (String × Json)
  | .mk signals layout marks scales axes legends =>
    Json.unlessEmpty "signals" Signal.toJson signals ++
      Json.optional "layout" GridLayout.toJson layout ++
      (if marks.isEmpty then [] else [("marks", .arr (Group.marksToJson marks))]) ++
      Json.unlessEmpty "scales" NamedScale.toJson scales ++
      Json.unlessEmpty "axes" Axis.toJson axes ++
      Json.unlessEmpty "legends" Legend.toJson legends

end

def Group.toJson (g : Group) : Json := .object g.members

/-- A complete visualization: the group of the root with its data and the sizes of all views. -/
structure Visualization where
  title : Option String
  data : List Dataset
  /-- Signals besides those of the root's group, and emitted before them. -/
  signals : List Signal
  group : Group
deriving Inhabited

def Visualization.toJson (v : Visualization) : Json :=
  let .mk signals layout marks scales axes legends := v.group
  .object ([
    ("$schema", .str Naming.schema), ("autosize", .str "pad"), ("padding", .int 5)] ++
    Json.optional "title" .str v.title ++ Json.unlessEmpty "data" Dataset.toJson v.data ++
    (Group.mk (v.signals ++ signals) layout marks scales axes legends).members)

end Trellis
