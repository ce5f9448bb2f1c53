import Trellis.Channel

/-!
Mark types: which channels a mark can encode, what it is drawn as, and whether color fills it.
-/

namespace Trellis

inductive MarkType where
  | point
  | circle
  | square
  | bar
  | line
  | area
  | rule
  | text
  | tick
  | rect
deriving DecidableEq, Repr, Inhabited

/-- A mark with its own choice of filling, if it makes one. -/
structure MarkDef where
  type : MarkType
  filled : Option Bool
deriving DecidableEq, Repr, Inhabited

namespace MarkType

def all : List MarkType := [.point, .circle, .square, .bar, .line, .area, .rule, .text, .tick, .rect]

def name : MarkType → String
  | point => "point"
  | circle => "circle"
  | square => "square"
  | bar => "bar"
  | line => "line"
  | area => "area"
  | rule => "rule"
  | text => "text"
  | tick => "tick"
  | rect => "rect"

/-- The primitive a mark is drawn with. -/
def primitive : MarkType → String
  | point | circle | square => "symbol"
  | bar | rect | tick => "rect"
  | line => "line"
  | area => "area"
  | rule => "rule"
  | text => "text"

/-- Marks drawn as rectangles. -/
def isRect (m : MarkType) : Bool := m.primitive == "rect"

/-- Marks that join their records to one path. -/
def isPath : MarkType → Bool
  | line | area => true
  | _ => false

def supports (m : MarkType) : Channel → Bool
  | .x | .y | .color | .opacity | .tooltip | .detail => true
  | .x2 | .y2 => m = .rule || m = .bar || m = .rect || m = .area
  | .size =>
    m = .point || m = .circle || m = .square || m = .text || m = .line || m = .rule
  | .shape => m = .point
  | .text => m = .text
  | .row | .column => false

def decode : Decode MarkType := Decode.choice all name

end MarkType

namespace MarkDef

/-- Points, lines and rules are stroked unless they say otherwise; all else is filled. -/
def isFilled (m : MarkDef) : Bool :=
  m.filled.getD !(m.type = .point || m.type = .line || m.type = .rule)

/-- The long form, an object with a type. -/
def decodeLong : Decode MarkDef := fun j => do
  let fields ← Fields.ofObject j
  let filled ← fields.optional 1 "filled" Decode.bool
  let type ← fields.required 0 "type" MarkType.decode
  return ⟨type, filled⟩

/-- The bare type, or the long form. -/
def decode : Decode MarkDef :=
  Decode.orElse (fun j => do return ⟨← MarkType.decode j, none⟩) decodeLong

def toJson (m : MarkDef) : Json :=
  .object ([("type", .str m.type.name)] ++ Json.optional "filled" .bool m.filled)

end MarkDef
end Trellis
