import Trellis.Binary64
import Trellis.Dict

/-!
JSON values. Whole numbers that fit a signed or unsigned 64-bit word are kept as integers, all other
numbers as binary64. Members of an object stand in increasing key order, each key once; `object`
brings any list of members into that form.
-/

namespace Trellis

inductive Json where
  | null
  | bool (value : Bool)
  | int (value : Int)
  | real (value : Binary64)
  | str (value : String)
  | arr (items : List Json)
  | obj (members : List (String × Json))
deriving Inhabited, Repr

namespace Json

/-- The object with these members; the last of several with one key counts. -/
def object (members : List (String × Json)) : Json := .obj (Dict.ofList members).entries

def ofDict (members : Dict String Json) : Json := .obj members.entries

/-- Null for nothing. -/
def ofOption {α : Type} (f : α → Json) : Option α → Json
  | none => .null
  | some a => f a

def ofNat (n : Nat) : Json := .int n

def strings (texts : List String) : Json := .arr (texts.map .str)

def pair (a b : Json) : Json := .arr [a, b]

/-- The member of this name, or none at all for nothing. -/
def optional {α : Type} (name : String) (f : α → Json) (value : Option α) : List (String × Json) :=
  match value with
  | none => []
  | some a => [(name, f a)]

/-- A list member, left out when the list is empty. -/
def unlessEmpty {α : Type} (name : String) (f : α → Json) (values : List α) :
    List (String × Json) :=
  if values.isEmpty then [] else [(name, .arr (values.map f))]

end Json
end Trellis
