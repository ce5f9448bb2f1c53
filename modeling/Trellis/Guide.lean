import Trellis.Channel

/-!
What a field definition may ask of the scale, axis, legend and header that show it.
-/

namespace Trellis

inductive ScaleType where
  | linear
  | log
  | pow
  | sqrt
  | time
  | utc
  | sequential
  | ordinal
  | band
  | point
deriving DecidableEq, Repr, Inhabited

namespace ScaleType

def all : List ScaleType :=
  [.linear, .log, .pow, .sqrt, .time, .utc, .sequential, .ordinal, .band, .point]

def name : ScaleType → String
  | linear => "linear"
  | log => "log"
  | pow => "pow"
  | sqrt => "sqrt"
  | time => "time"
  | utc => "utc"
  | sequential => "sequential"
  | ordinal => "ordinal"
  | band => "band"
  | point => "point"

/-- Scales that take separate values rather than a continuum. -/
def isDiscrete : ScaleType → Bool
  | ordinal | band | point => true
  | _ => false

def decode : Decode ScaleType := Decode.choice all name

end ScaleType

/-- Scale properties a field definition sets. -/
structure ScaleDef where
  type : Option ScaleType
  domain : Option (List Json)
  range : Option Json
  rangeStep : Option Binary64
  padding : Option Binary64
  paddingInner : Option Binary64
  paddingOuter : Option Binary64
  zero : Option Bool
  nice : Option Bool
deriving Inhabited

namespace ScaleDef

/-- Nothing is set. -/
def unset : ScaleDef := ⟨none, none, none, none, none, none, none, none, none⟩

def decode : Decode ScaleDef := fun j => do
  let fields ← Fields.ofJson 9 j
  return {
    type := ← fields.optional 0 "type" ScaleType.decode
    domain := ← fields.optional 1 "domain" (Decode.list Decode.any)
    range := ← fields.optional 2 "range" Decode.any
    rangeStep := ← fields.optional 3 "rangeStep" Decode.number
    padding := ← fields.optional 4 "padding" Decode.number
    paddingInner := ← fields.optional 5 "paddingInner" Decode.number
    paddingOuter := ← fields.optional 6 "paddingOuter" Decode.number
    zero := ← fields.optional 7 "zero" Decode.bool
    nice := ← fields.optional 8 "nice" Decode.bool }

def toJson (s : ScaleDef) : Json :=
  .object [
    ("type", Json.ofOption (fun t => .str t.name) s.type),
    ("domain", Json.ofOption .arr s.domain),
    ("range", Json.ofOption id s.range),
    ("rangeStep", Json.ofOption .real s.rangeStep),
    ("padding", Json.ofOption .real s.padding),
    ("paddingInner", Json.ofOption .real s.paddingInner),
    ("paddingOuter", Json.ofOption .real s.paddingOuter),
    ("zero", Json.ofOption .bool s.zero),
    ("nice", Json.ofOption .bool s.nice)]

end ScaleDef

/-- The side of a view an axis is drawn on. -/
inductive Orient where
  | top
  | bottom
  | left
  | right
deriving DecidableEq, Repr, Inhabited

namespace Orient

def all : List Orient := [.top, .bottom, .left, .right]

def name : Orient → String
  | top => "top"
  | bottom => "bottom"
  | left => "left"
  | right => "right"

def opposite : Orient → Orient
  | top => bottom
  | bottom => top
  | left => right
  | right => left

/-- The side of an axis that does not choose one. -/
def ofChannel (c : Channel) : Orient :=
  match c.primary with
  | .y => left
  | _ => bottom

def decode : Decode Orient := Decode.choice all name

end Orient

/-- Axis properties a field definition sets, with those this library does not know in `extra`. -/
structure AxisDef where
  orient : Option Orient
  title : Option String
  format : Option String
  grid : Option Bool
  extra : Dict String Json
deriving Inhabited

namespace AxisDef

/-- Nothing is set. -/
def unset : AxisDef := ⟨none, none, none, none, .empty⟩

def decode : Decode AxisDef := fun j => do
  let fields ← Fields.ofObject j
  return {
    orient := ← fields.optional 0 "orient" Orient.decode
    title := ← fields.optional 1 "title" Decode.string
    format := ← fields.optional 2 "format" Decode.string
    grid := ← fields.optional 3 "grid" Decode.bool
    extra := .ofList (fields.others ["orient", "title", "format", "grid"]) }

def toJson (a : AxisDef) : Json :=
  .object ([
    ("orient", Json.ofOption (fun o => .str o.name) a.orient),
    ("title", Json.ofOption .str a.title),
    ("format", Json.ofOption .str a.format),
    ("grid", Json.ofOption .bool a.grid)] ++ a.extra.entries)

end AxisDef

/-- Legend properties a field definition sets, with those this library does not know in `extra`. -/
structure LegendDef where
  title : Option String
  format : Option String
  type : Option String
  extra : Dict String Json
deriving Inhabited

namespace LegendDef

/-- Nothing is set. -/
def unset : LegendDef := ⟨none, none, none, .empty⟩

def decode : Decode LegendDef := fun j => do
  let fields ← Fields.ofObject j
  return {
    title := ← fields.optional 0 "title" Decode.string
    format := ← fields.optional 1 "format" Decode.string
    type := ← fields.optional 2 "type" Decode.string
    extra := .ofList (fields.others ["title", "format", "type"]) }

def toJson (l : LegendDef) : Json :=
  .object ([
    ("title", Json.ofOption .str l.title),
    ("format", Json.ofOption .str l.format),
    ("type", Json.ofOption .str l.type)] ++ l.extra.entries)

end LegendDef

/-- Header properties a facet binding sets. -/
structure HeaderDef where
  title : Option String
  format : Option String
deriving DecidableEq, Repr, Inhabited

namespace HeaderDef

/-- Nothing is set. -/
def unset : HeaderDef := ⟨none, none⟩

def decode : Decode HeaderDef := fun j => do
  let fields ← Fields.ofJson 2 j
  return {
    title := ← fields.optional 0 "title" Decode.string
    format := ← fields.optional 1 "format" Decode.string }

def toJson (h : HeaderDef) : Json :=
  .object [("title", Json.ofOption .str h.title), ("format", Json.ofOption .str h.format)]

end HeaderDef

/-- Whether a guide is left to itself, switched off, or given properties. -/
inductive GuideChoice (α : Type) where
  | automatic
  | disabled
  | custom (properties : α)

namespace GuideChoice

variable {α : Type}

instance : Inhabited (GuideChoice α) := ⟨automatic⟩

/-- The properties of the guide; none where it is switched off. -/
def resolve (unset : α) : GuideChoice α → Option α
  | automatic => some unset
  | disabled => none
  | custom a => some a

/-- Null switches the guide off; only absence leaves it to itself. -/
def ofField (fields : Fields) (index : Nat) (name : String) (d : Decode α) :
    Except ReadError (GuideChoice α) :=
  match fields.get? index name with
  | none => .ok .automatic
  | some .null => .ok .disabled
  | some j => .custom <$> d j

/-- Both choices without properties are written as null. -/
def toJson (f : α → Json) : GuideChoice α → Json
  | custom a => f a
  | _ => .null

end GuideChoice
end Trellis
