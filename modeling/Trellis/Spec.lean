import Trellis.Field
import Trellis.Mark
import Trellis.Resolve

/-!
View specifications: units that show one mark, layers that lay views over each other, and facets
that repeat one view over a grid.
-/

namespace Trellis

/-- Input data, inline or by address. -/
structure DataDef where
  values : Option (List Json)
  url : Option String
  format : Option Json
deriving Inhabited

inductive SelectionType where
  | single
  | multi
  | interval
deriving DecidableEq, Repr, Inhabited

/-- An interactive selection a unit declares. -/
structure SelectionDef where
  type : SelectionType
  fields : Option (List String)
  encodings : Option (List Channel)
  /-- The event stream that triggers it. -/
  on : Option String
deriving DecidableEq, Repr, Inhabited

/-- What every view may say of itself. Data and configuration only count on the root. -/
structure ViewProps where
  name : Option String
  title : Option String
  data : Option DataDef
  config : Option Config
deriving Inhabited

/-- A size a unit or layer may declare. -/
structure Size where
  width : Option Binary64
  height : Option Binary64
deriving DecidableEq, Repr, Inhabited

def Size.get? (s : Size) : Dimension → Option Binary64
  | .width => s.width
  | .height => s.height

structure UnitSpec where
  props : ViewProps
  size : Size
  mark : MarkDef
  encoding : Dict Channel ChannelDef
  selection : Dict String SelectionDef
deriving Inhabited

structure LayerSpec where
  props : ViewProps
  size : Size
  resolve : Resolve
deriving Inhabited

structure FacetSpec where
  props : ViewProps
  facet : Dict Channel FieldDef
  resolve : Resolve
deriving Inhabited

inductive Spec where
  | unit (spec : UnitSpec)
  | layer (spec : LayerSpec) (children : List Spec)
  | facet (spec : FacetSpec) (child : Spec)
deriving Inhabited

namespace Spec

def props : Spec → ViewProps
  | unit s => s.props
  | layer s _ => s.props
  | facet s _ => s.props

def name? (s : Spec) : Option String := s.props.name

def title? (s : Spec) : Option String := s.props.title

def data? (s : Spec) : Option DataDef := s.props.data

def config? (s : Spec) : Option Config := s.props.config

/-- The kind of view. -/
def kind : Spec → String
  | unit _ => "unit"
  | layer .. => "layer"
  | facet .. => "facet"

end Spec

namespace DataDef

def decode : Decode DataDef := fun j => do
  let fields ← Fields.ofJson 3 j
  return {
    values := ← fields.optional 0 "values" (Decode.list Decode.any)
    url := ← fields.optional 1 "url" Decode.string
    format := ← fields.optional 2 "format" Decode.any }

/-- The properties that are given. -/
def properties (d : DataDef) : List (String × Json) :=
  Json.optional "values" .arr d.values ++ Json.optional "url" .str d.url ++
    Json.optional "format" id d.format

def toJson (d : DataDef) : Json := .object d.properties

end DataDef

namespace SelectionType

def all : List SelectionType := [.single, .multi, .interval]

def name : SelectionType → String
  | single => "single"
  | multi => "multi"
  | interval => "interval"

def decode : Decode SelectionType := Decode.choice all name

end SelectionType

namespace SelectionDef

def decode : Decode SelectionDef := fun j => do
  let fields ← Fields.ofJson 4 j
  return {
    type := ← fields.required 0 "type" SelectionType.decode
    fields := ← fields.optional 1 "fields" (Decode.list Decode.string)
    encodings := ← fields.optional 2 "encodings" (Decode.list Channel.decode)
    on := ← fields.optional 3 "on" Decode.string }

def toJson (s : SelectionDef) : Json :=
  .object [
    ("type", .str s.type.name),
    ("fields", Json.ofOption Json.strings s.fields),
    ("encodings", Json.ofOption (fun cs => Json.strings (cs.map Channel.name)) s.encodings),
    ("on", Json.ofOption .str s.on)]

end SelectionDef
end Trellis
