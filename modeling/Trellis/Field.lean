import Trellis.Config
import Trellis.Guide
import Trellis.Text.Quoted
import Trellis.Text.Uppercase

/-!
Field definitions: which column a channel shows, under which name it is found in the data, and how
it is titled and labelled.
-/

namespace Trellis

open Text

/-- How the values of a field are measured. -/
inductive FieldType where
  | nominal
  | ordinal
  | quantitative
  | temporal
deriving DecidableEq, Repr, Inhabited

namespace FieldType

def all : List FieldType := [.nominal, .ordinal, .quantitative, .temporal]

def name : FieldType → String
  | nominal => "nominal"
  | ordinal => "ordinal"
  | quantitative => "quantitative"
  | temporal => "temporal"

def isDiscrete : FieldType → Bool
  | nominal | ordinal => true
  | _ => false

def decode : Decode FieldType := Decode.choice all name

end FieldType

structure FieldDef where
  field : Option String
  type : Option FieldType
  aggregate : Option String
  timeUnit : Option String
  title : Option String
  scale : Option ScaleDef
  axis : GuideChoice AxisDef
  legend : GuideChoice LegendDef
  header : Option HeaderDef
deriving Inhabited

/-- The record an expression reads a field from. -/
inductive Scope where
  | datum
  | parent
deriving DecidableEq, Repr

def Scope.name : Scope → String
  | datum => "datum"
  | parent => "parent"

/-- The expression that reads a column of an object. -/
def accessor (object column : String) : String := object ++ "[" ++ quoted column ++ "]"

namespace FieldDef

/-- No property is set. -/
def unset : FieldDef := ⟨none, none, none, none, none, none, .automatic, .automatic, none⟩

/-- The measurement type, nominal where there is none yet. -/
def measure (f : FieldDef) : FieldType := f.type.getD .nominal

def isCount (f : FieldDef) : Bool := f.aggregate == some "count"

/-- A definition that leads to data: it has a field, or counts records. -/
def hasField (f : FieldDef) : Bool := f.field.isSome || f.isCount

def axisDef? (f : FieldDef) : Option AxisDef := f.axis.resolve .unset

def legendDef? (f : FieldDef) : Option LegendDef := f.legend.resolve .unset

/-- Fills in a missing type: aggregates are quantitative, time units temporal, all else nominal. -/
def normalize (f : FieldDef) : FieldDef :=
  { f with
    type := f.type <|>
      some (if f.aggregate.isSome then .quantitative
        else if f.timeUnit.isSome then .temporal
        else .nominal) }

/-- The column this definition reads: the raw field, or one derived by an aggregate or a time
unit. -/
def column (f : FieldDef) : String :=
  let field := f.field.getD ""
  if f.isCount then "count_*"
  else match f.aggregate, f.timeUnit with
    | some op, _ => op ++ "_" ++ field
    | none, some unit => unit ++ "_" ++ field
    | none, none => field

/-- The column name behind a leading word, if there is one. -/
def columnWith (f : FieldDef) : (lead : Option String) → String
  | some lead => lead ++ "_" ++ f.column
  | none => f.column

/-- The expression that reads the column within a record. -/
def access (f : FieldDef) (lead : Option String) (scope : Scope) : String :=
  accessor scope.name (f.columnWith lead)

/-- The title given, or one made of the aggregate or time unit and the field. -/
def displayTitle (f : FieldDef) : String :=
  let field := f.field.getD ""
  match f.title with
  | some t => t
  | none =>
    if f.isCount then "Number of Records"
    else match f.aggregate, f.timeUnit with
      | some op, _ => uppercase op ++ "(" ++ field ++ ")"
      | none, some unit => uppercase unit ++ "(" ++ field ++ ")"
      | none, none => field

end FieldDef

/-- How the value of a label becomes text. -/
inductive Label where
  | number (value format : String)
  | time (value format : String)
  | plain (value : String)
deriving DecidableEq, Repr

/-- The expression of a label. -/
def Label.expression : Label → String
  | number value format => "format(" ++ value ++ ", " ++ singleQuoted format ++ ")"
  | time value format => "timeFormat(" ++ value ++ ", " ++ singleQuoted format ++ ")"
  | plain value => "''+" ++ value

namespace FieldDef

/-- Numbers and dates take the format given, or that of the configuration. -/
def label (f : FieldDef) (format : Option String) (scope : Scope) (config : Config) : Label :=
  let value := f.access none scope
  match f.measure with
  | .quantitative => .number value (format.getD config.numberFormat)
  | .temporal => .time value (format.getD config.timeFormat)
  | .nominal | .ordinal => .plain value

def decode : Decode FieldDef := fun j => do
  let fields ← Fields.ofJson 9 j
  return {
    field := ← fields.optional 0 "field" Decode.string
    type := ← fields.optional 1 "type" FieldType.decode
    aggregate := ← fields.optional 2 "aggregate" Decode.string
    timeUnit := ← fields.optional 3 "timeUnit" Decode.string
    title := ← fields.optional 4 "title" Decode.string
    scale := ← fields.optional 5 "scale" ScaleDef.decode
    axis := ← GuideChoice.ofField fields 6 "axis" AxisDef.decode
    legend := ← GuideChoice.ofField fields 7 "legend" LegendDef.decode
    header := ← fields.optional 8 "header" HeaderDef.decode }

def toJson (f : FieldDef) : Json :=
  .object [
    ("field", Json.ofOption .str f.field),
    ("type", Json.ofOption (fun t => .str t.name) f.type),
    ("aggregate", Json.ofOption .str f.aggregate),
    ("timeUnit", Json.ofOption .str f.timeUnit),
    ("title", Json.ofOption .str f.title),
    ("scale", Json.ofOption ScaleDef.toJson f.scale),
    ("axis", f.axis.toJson AxisDef.toJson),
    ("legend", f.legend.toJson LegendDef.toJson),
    ("header", Json.ofOption HeaderDef.toJson f.header)]

end FieldDef

/-- What a channel is bound to: a constant or a field. -/
inductive ChannelDef where
  | value (constant : Json)
  | field (definition : FieldDef)
deriving Inhabited

namespace ChannelDef

def fieldDef? : ChannelDef → Option FieldDef
  | field f => some f
  | value _ => none

/-- A constant: a record with the one field `value`. -/
def decodeValue : Decode ChannelDef := fun j => do
  let fields ← Fields.ofJson 1 j
  return .value (← fields.required 0 "value" Decode.any)

/-- A constant wherever it can be read as one, else a field. -/
def decode : Decode ChannelDef :=
  Decode.orElse decodeValue (fun j => do return .field (← FieldDef.decode j))

def toJson : ChannelDef → Json
  | value j => .object [("value", j)]
  | field f => f.toJson

end ChannelDef
end Trellis
