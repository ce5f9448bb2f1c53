import Trellis.Output.Guide
import Trellis.Output.Signal
import Trellis.Scale

/-!
Marks as they are emitted: the mark of a unit, the group of a facet's cells, and the groups around
the cells that carry titles, labels and shared axes.
-/

namespace Trellis

/-- The value of a visual property. -/
inductive EncodeValue where
  | scaled (scale field : String)
  /-- The width of a band. -/
  | band (scale : String)
  /-- Where zero lies on a scale. -/
  | baseline (scale : String)
  | constant (value : Json)
  | signal (expression : String)
  | groupSize (dimension : Dimension)
  /-- The middle of the group. -/
  | groupMiddle (dimension : Dimension)
deriving Inhabited

namespace EncodeValue

/-- One half. -/
def half : Binary64 := ⟨false, Nat.pow 2 52, -53⟩

def groupField (d : Dimension) : String × Json := ("field", .object [("group", .str d.name)])

def toJson : EncodeValue → Json
  | scaled scale field => .object [("scale", .str scale), ("field", .str field)]
  | band scale => .object [("scale", .str scale), ("band", .bool true)]
  | baseline scale => .object [("scale", .str scale), ("value", .int 0)]
  | constant value => .object [("value", value)]
  | signal expression => signalRef expression
  | groupSize d => .object [groupField d]
  | groupMiddle d => .object [groupField d, ("mult", .real half)]

end EncodeValue

/-- Visual properties by name. -/
abbrev EncodeEntry : Type := Dict String EncodeValue

namespace EncodeEntry

def toJson (e : EncodeEntry) : Json := .object (e.entries.map (fun (k, v) => (k, v.toJson)))

/-- The properties set by a style. -/
def ofStyle (s : CellStyle) : EncodeEntry :=
  .ofList (s.properties.map (fun (k, j) => (k, .constant j)))

end EncodeEntry

/-- The `encode` member of a mark. -/
def encodeUpdate (update : Json) : Json := .object [("update", update)]

/-- How the records of a path are split into one path for each series. -/
structure Series where
  /-- The name of the group around the paths. -/
  group : String
  /-- The name of the records of one path. -/
  data : String
  groupby : List String
deriving DecidableEq, Repr, Inhabited

/-- The mark of a unit. -/
structure UnitMark where
  name : String
  type : MarkType
  source : String
  update : EncodeEntry
  series : Option Series
deriving Inhabited

namespace UnitMark

/-- The mark, reading a dataset. -/
def bodyToJson (m : UnitMark) (data : String) : Json :=
  .object [
    ("name", .str m.name), ("type", .str m.type.primitive), ("style", Json.strings [m.type.name]),
    ("from", .object [("data", .str data)]), ("encode", encodeUpdate m.update.toJson)]

/-- The mark, within a group for each series if there are any. -/
def toJson (m : UnitMark) : Json :=
  match m.series with
  | none => m.bodyToJson m.source
  | some s =>
    .object [
      ("name", .str s.group), ("type", .str "group"),
      ("from", .object [("facet", .object [
        ("name", .str s.data), ("data", .str m.source), ("groupby", Json.strings s.groupby)])]),
      ("encode", encodeUpdate (.object (Dimension.all.map (fun d =>
        (d.name, (EncodeValue.groupSize d).toJson))))),
      ("marks", .arr [m.bodyToJson s.data])]

end UnitMark

/-- The group that repeats a facet's child for each value, or each pair of values, of its fields. -/
structure CellMark where
  name : String
  root : FacetRoot
  groupby : List String
  /-- Rows and columns are crossed: each pair has a cell, in ascending order. -/
  crossed : Bool
  update : EncodeEntry
deriving Inhabited

namespace CellMark

def members (m : CellMark) : List (String × Json) :=
  let facet := [("name", .str m.root.name), ("data", .str m.root.data),
    ("groupby", Json.strings m.groupby)] ++
    if m.crossed then [("aggregate", .object [("cross", .bool true)])] else []
  let sort := .object [("field", Json.strings (m.groupby.map (accessor Scope.datum.name))),
    ("order", Json.strings ["ascending", "ascending"])]
  [("name", .str m.name), ("type", .str "group"),
    ("from", .object [("facet", .object facet)]), ("encode", encodeUpdate m.update.toJson)] ++
    if m.crossed then [("sort", sort)] else []

def toJson (m : CellMark) : Json := .object m.members

end CellMark

/-- The title along a facet channel. -/
structure TitleMark where
  name : String
  channel : HeaderChannel
  title : String
deriving DecidableEq, Repr, Inhabited

def TitleMark.toJson (m : TitleMark) : Json :=
  let update := [("text", .object [("value", .str m.title)]),
    ("align", .object [("value", .str "center")])] ++
    if m.channel = .row then [("angle", .object [("value", .int 270)])] else []
  .object [
    ("name", .str m.name), ("type", .str "group"), ("role", .str (m.channel.name ++ "-title")),
    ("marks", .arr [.object [
      ("type", .str "text"), ("role", .str (m.channel.name ++ "-title-text")),
      ("style", .str "guide-title"), ("encode", encodeUpdate (.object update))]])]

/-- A header or footer along a facet channel. -/
structure HeaderMark where
  name : String
  channel : HeaderChannel
  slot : HeaderSlot
  /-- The dataset with a record for each facet value, and the column that orders it. -/
  source : Option (String × String)
  label : Option Label
  sizeSignal : String
  axes : List Axis
deriving Inhabited

namespace HeaderMark

def titleToJson (channel : HeaderChannel) (label : Label) : Json :=
  .object ([
    ("text", signalRef label.expression), ("offset", .int 10), ("style", .str "guide-label"),
    ("orient", .str (match channel with
      | .row => "left"
      | .column => "top"))] ++
    if channel = .row then
      [("encode", encodeUpdate (.object [("angle", .object [("value", .int 0)])]))]
    else [])

def toJson (m : HeaderMark) : Json :=
  .object ([
    ("name", .str m.name), ("type", .str "group"),
    ("role", .str (m.channel.name ++ "-" ++ m.slot.name))] ++
    (match m.source with
      | some (data, column) => [("from", .object [("data", .str data)]),
          ("sort", .object [("field", .str (accessor Scope.datum.name column)),
            ("order", .str "ascending")])]
      | none => []) ++
    Json.optional "title" (titleToJson m.channel) m.label ++
    (if m.sizeSignal.isEmpty then []
      else [("encode", encodeUpdate (.object [
        (m.channel.dimension.name, signalRef m.sizeSignal)]))]) ++
    Json.unlessEmpty "axes" Axis.toJson m.axes)

end HeaderMark
end Trellis
