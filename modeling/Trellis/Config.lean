import Trellis.Channel

/-!
Compile configuration: cell sizes and styles, scale defaults, colors and label formats.
-/

namespace Trellis

/-- Styling of a group mark. -/
structure CellStyle where
  fill : Option String
  stroke : Option String
  clip : Option Bool
deriving DecidableEq, Repr, Inhabited

/-- Default size and styling of a view. -/
structure CellConfig where
  width : Binary64
  height : Binary64
  style : CellStyle
deriving DecidableEq, Repr, Inhabited

/-- Defaults of scales. -/
structure ScaleConfig where
  rangeStep : Binary64
  bandPaddingInner : Binary64
  bandPaddingOuter : Binary64
  pointPadding : Binary64
deriving DecidableEq, Repr, Inhabited

structure Config where
  cell : CellConfig
  /-- The styling of every facet cell, which views inside a facet take over. -/
  facetCell : CellStyle
  scale : ScaleConfig
  markColor : String
  numberFormat : String
  timeFormat : String
deriving DecidableEq, Repr, Inhabited

namespace CellStyle

/-- Nothing is set. -/
def unset : CellStyle := ⟨none, none, none⟩

/-- What the second style sets wins. -/
def extend (base cover : CellStyle) : CellStyle :=
  ⟨cover.fill <|> base.fill, cover.stroke <|> base.stroke, cover.clip <|> base.clip⟩

/-- The properties that are set, as values. -/
def properties (s : CellStyle) : List (String × Json) :=
  Json.optional "fill" .str s.fill ++ Json.optional "stroke" .str s.stroke ++
    Json.optional "clip" .bool s.clip

def ofFields (fields : Fields) : Except ReadError CellStyle := do
  return {
    fill := ← fields.optional 0 "fill" Decode.string
    stroke := ← fields.optional 1 "stroke" Decode.string
    clip := ← fields.optional 2 "clip" Decode.bool }

def decode : Decode CellStyle := fun j => do ofFields (← Fields.ofJson 3 j)

def toJson (s : CellStyle) : Json := .object s.properties

end CellStyle

namespace CellConfig

def default : CellConfig := ⟨.ofNat 200, .ofNat 200, .unset⟩

/-- Sizes and style properties stand side by side in one object. -/
def decode : Decode CellConfig := fun j => do
  let fields ← Fields.ofObject j
  return {
    width := ← fields.withDefault 0 "width" default.width Decode.number
    height := ← fields.withDefault 1 "height" default.height Decode.number
    style := ← CellStyle.ofFields fields }

def toJson (c : CellConfig) : Json :=
  .object ([("width", .real c.width), ("height", .real c.height)] ++ c.style.properties)

end CellConfig

namespace ScaleConfig

/-- The number written significand · 10^exponent. -/
def decimal (significand : Nat) (exponent : Int) : Binary64 :=
  (Binary64.ofScientific? false significand exponent).getD .zero

def default : ScaleConfig := ⟨.ofNat 21, decimal 1 (-1), decimal 5 (-2), decimal 5 (-1)⟩

def decode : Decode ScaleConfig := fun j => do
  let fields ← Fields.ofJson 4 j
  return {
    rangeStep := ← fields.withDefault 0 "rangeStep" default.rangeStep Decode.number
    bandPaddingInner :=
      ← fields.withDefault 1 "bandPaddingInner" default.bandPaddingInner Decode.number
    bandPaddingOuter :=
      ← fields.withDefault 2 "bandPaddingOuter" default.bandPaddingOuter Decode.number
    pointPadding := ← fields.withDefault 3 "pointPadding" default.pointPadding Decode.number }

def toJson (s : ScaleConfig) : Json :=
  .object [
    ("rangeStep", .real s.rangeStep),
    ("bandPaddingInner", .real s.bandPaddingInner),
    ("bandPaddingOuter", .real s.bandPaddingOuter),
    ("pointPadding", .real s.pointPadding)]

end ScaleConfig

namespace Config

def default : Config where
  cell := .default
  facetCell := ⟨none, some "#ccc", none⟩
  scale := .default
  markColor := "#4c78a8"
  numberFormat := "s"
  timeFormat := "%b %d, %Y"

/-- The facet part, whose only field is the cell style. -/
def decodeFacet : Decode CellStyle := fun j => do
  let fields ← Fields.ofJson 1 j
  fields.withDefault 0 "cell" default.facetCell CellStyle.decode

def decode : Decode Config := fun j => do
  let fields ← Fields.ofJson 6 j
  return {
    cell := ← fields.withDefault 0 "cell" default.cell CellConfig.decode
    facetCell := ← fields.withDefault 1 "facet" default.facetCell decodeFacet
    scale := ← fields.withDefault 2 "scale" default.scale ScaleConfig.decode
    markColor := ← fields.withDefault 3 "markColor" default.markColor Decode.string
    numberFormat := ← fields.withDefault 4 "numberFormat" default.numberFormat Decode.string
    timeFormat := ← fields.withDefault 5 "timeFormat" default.timeFormat Decode.string }

def toJson (c : Config) : Json :=
  .object [
    ("cell", c.cell.toJson),
    ("facet", .object [("cell", c.facetCell.toJson)]),
    ("scale", c.scale.toJson),
    ("markColor", .str c.markColor),
    ("numberFormat", .str c.numberFormat),
    ("timeFormat", .str c.timeFormat)]

/-- The size of a view that neither declares nor derives one. -/
def cellSize (c : Config) : Dimension → Binary64
  | .width => c.cell.width
  | .height => c.cell.height

end Config
end Trellis
