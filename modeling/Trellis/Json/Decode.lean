import Trellis.Json

/-!
Reading typed values from JSON.

A record is an object, whose unknown members are ignored, or an array of its fields in order, of
which the last ones may be missing. An optional field takes null for absent; a field with a default
does not take null. A choice is its name, or an object with that name as only member, holding null.
-/

namespace Trellis

/-- Why a JSON value is not the typed value asked for. The two faults of a view have texts of their
own. -/
inductive ReadError where
  | viewNotObject
  | viewWithoutKind
  | mismatch (expected : String)
deriving DecidableEq, Repr

def ReadError.message : ReadError → String
  | .viewNotObject => "a view specification must be an object"
  | .viewWithoutKind => "a view specification needs one of 'mark', 'layer' or 'facet'"
  | .mismatch expected => "expected " ++ expected

/-- A reader of one type. -/
abbrev Decode (α : Type) : Type := Json → Except ReadError α

namespace Decode

variable {α β : Type}

def fail (expected : String) : Except ReadError α := .error (.mismatch expected)

def any : Decode Json := .ok

def string : Decode String
  | .str s => .ok s
  | _ => fail "a string"

def bool : Decode Bool
  | .bool b => .ok b
  | _ => fail "a truth value"

/-- A number, an integer being rounded to the nearest binary64. -/
def number : Decode Binary64
  | .int i => .ok (.ofInt i)
  | .real x => .ok x
  | _ => fail "a number"

/-- Every item in turn; the first failure counts. -/
def each (item : Decode α) : List Json → Except ReadError (List α)
  | [] => .ok []
  | j :: rest => do
    let a ← item j
    let as ← each item rest
    return a :: as

def list (item : Decode α) : Decode (List α)
  | .arr js => each item js
  | _ => fail "an array"

/-- Null is absent. -/
def nullable (inner : Decode α) : Decode (Option α)
  | .null => .ok none
  | j => some <$> inner j

/-- The value with this name. -/
def named (all : List α) (name : α → String) (s : String) : Except ReadError α :=
  match all.find? (fun a => name a == s) with
  | some a => .ok a
  | none => fail "a known name"

/-- One of a fixed list of values, by name. -/
def choice (all : List α) (name : α → String) : Decode α
  | .str s => named all name s
  | .obj [(k, .null)] => named all name k
  | _ => fail "a name"

/-- Every member in turn, the name and then the value. -/
def eachMember (key : String → Except ReadError α) (item : Decode β) :
    List (String × Json) → Except ReadError (List (α × β))
  | [] => .ok []
  | (k, j) :: rest => do
    let a ← key k
    let b ← item j
    let es ← eachMember key item rest
    return (a, b) :: es

/-- A map from names that `key` can read. -/
def dict [Ord α] [Std.TransOrd α] [Std.LawfulEqOrd α] (key : String → Except ReadError α)
    (item : Decode β) : Decode (Dict α β)
  | .obj members => do return .ofList (← eachMember key item members)
  | _ => fail "an object"

/-- The first reader, or the second where it fails. -/
def orElse (first second : Decode α) : Decode α := fun j =>
  match first j with
  | .ok a => .ok a
  | .error _ => second j

end Decode

/-- Where the fields of a record are taken from. -/
inductive Fields where
  | named (members : List (String × Json))
  | positional (items : List Json)

namespace Fields

variable {α : Type}

/-- The fields of a record that may have up to `count` of them. -/
def ofJson (count : Nat) (j : Json) : Except ReadError Fields :=
  match j with
  | .obj members => .ok (.named members)
  | .arr items => if items.length ≤ count then .ok (.positional items) else Decode.fail "fewer items"
  | _ => Decode.fail "an object or an array"

/-- The fields of a record that has to be an object. -/
def ofObject : Json → Except ReadError Fields
  | .obj members => .ok (.named members)
  | _ => Decode.fail "an object"

def get? (fields : Fields) (index : Nat) (name : String) : Option Json :=
  match fields with
  | .named members => Dict.lookup name members
  | .positional items => items[index]?

def required (fields : Fields) (index : Nat) (name : String) (d : Decode α) : Except ReadError α :=
  match fields.get? index name with
  | some j => d j
  | none => Decode.fail ("the field " ++ name)

/-- Absent and null are both none. -/
def optional (fields : Fields) (index : Nat) (name : String) (d : Decode α) :
    Except ReadError (Option α) :=
  match fields.get? index name with
  | some j => Decode.nullable d j
  | none => .ok none

/-- Only absence gives the default. -/
def withDefault (fields : Fields) (index : Nat) (name : String) (default : α) (d : Decode α) :
    Except ReadError α :=
  match fields.get? index name with
  | some j => d j
  | none => .ok default

/-- Members outside a list of names. -/
def others (fields : Fields) (names : List String) : List (String × Json) :=
  match fields with
  | .named members => members.filter (fun m => !names.contains m.1)
  | .positional _ => []

end Fields
end Trellis
