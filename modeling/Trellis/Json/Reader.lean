import Trellis.Json

/-!
Reading JSON text: values, objects and arrays nested up to a given depth, blanks between tokens.

`value` returns what is left of the text, so a reader can look at the value before it asks whether
the text ends there. Names that repeat in an object keep the last value. A string may not hold
control characters, nor a surrogate that has no partner; a number may not be beyond binary64.
-/

namespace Trellis.Json

/-- Why a text is not JSON. -/
inductive SyntaxError where
  | unfinished
  | unexpected (found : Char)
  | controlCharacter
  | badEscape
  | badNumber
  | numberOutOfRange
  | tooDeep
  | trailing
deriving DecidableEq, Repr

def SyntaxError.message : SyntaxError → String
  | .unfinished => "the text ends too early"
  | .unexpected found => "unexpected character " ++ String.singleton found
  | .controlCharacter => "control character in a string"
  | .badEscape => "invalid escape in a string"
  | .badNumber => "invalid number"
  | .numberOutOfRange => "number out of range"
  | .tooDeep => "nested too deeply"
  | .trailing => "characters after the value"

/-- The deepest nesting accepted in a specification text. -/
def depthLimit : Nat := 127

def isBlank (c : Char) : Bool := c = ' ' || c = '\n' || c = '\t' || c = '\r'

def skipBlanks (cs : List Char) : List Char := cs.dropWhile isBlank

/-- The error for characters that start nothing allowed here. -/
def refuse {α : Type} : List Char → Except SyntaxError α
  | [] => .error .unfinished
  | c :: _ => .error (.unexpected c)

/-- The rest after exactly these characters. -/
def expect : List Char → List Char → Except SyntaxError (List Char)
  | [], cs => .ok cs
  | e :: es, c :: cs => if c = e then expect es cs else .error (.unexpected c)
  | _ :: _, [] => .error .unfinished

/-! ### Strings -/

def hexValue? (c : Char) : Option Nat :=
  if '0' ≤ c ∧ c ≤ '9' then some (c.toNat - 48)
  else if 'a' ≤ c ∧ c ≤ 'f' then some (c.toNat - 87)
  else if 'A' ≤ c ∧ c ≤ 'F' then some (c.toNat - 55)
  else none

/-- The number written in four hexadecimal digits. -/
def hex4 : List Char → Except SyntaxError (Nat × List Char)
  | a :: b :: c :: d :: rest =>
    match hexValue? a, hexValue? b, hexValue? c, hexValue? d with
    | some a, some b, some c, some d => .ok (((a * 16 + b) * 16 + c) * 16 + d, rest)
    | _, _, _, _ => .error .badEscape
  | _ => .error .unfinished

/-- The character of a `\u` escape, behind the `u`: one code unit, or a pair of surrogates. -/
def unicodeEscape (cs : List Char) : Except SyntaxError (Char × List Char) := do
  let (n, rest) ← hex4 cs
  if 0xDC00 ≤ n ∧ n ≤ 0xDFFF then .error .badEscape
  else if 0xD800 ≤ n ∧ n ≤ 0xDBFF then
    match rest with
    | '\\' :: 'u' :: rest =>
      let (low, rest) ← hex4 rest
      if 0xDC00 ≤ low ∧ low ≤ 0xDFFF then
        .ok (Char.ofNat (0x10000 + (n - 0xD800) * 0x400 + (low - 0xDC00)), rest)
      else .error .badEscape
    | _ => .error .badEscape
  else .ok (Char.ofNat n, rest)

/-- The character of an escape, behind its backslash. -/
def escaped : List Char → Except SyntaxError (Char × List Char)
  | '"' :: rest => .ok ('"', rest)
  | '\\' :: rest => .ok ('\\', rest)
  | '/' :: rest => .ok ('/', rest)
  | 'b' :: rest => .ok ('\x08', rest)
  | 'f' :: rest => .ok ('\x0c', rest)
  | 'n' :: rest => .ok ('\n', rest)
  | 'r' :: rest => .ok ('\r', rest)
  | 't' :: rest => .ok ('\t', rest)
  | 'u' :: rest => unicodeEscape rest
  | [] => .error .unfinished
  | _ => .error .badEscape

/-- The characters of a string up to its closing quote, put before `done` in reverse. -/
def stringTail : (fuel : Nat) → (done : List Char) → List Char →
    Except SyntaxError (String × List Char)
  | 0, _, _ => .error .unfinished
  | _, _, [] => .error .unfinished
  | fuel + 1, done, c :: rest =>
    if c = '"' then .ok (String.ofList done.reverse, rest)
    else if c = '\\' then do
      let (c, rest) ← escaped rest
      stringTail fuel (c :: done) rest
    else if c.toNat < 32 then .error .controlCharacter
    else stringTail fuel (c :: done) rest

/-! ### Numbers -/

def isDigit (c : Char) : Bool := '0' ≤ c && c ≤ '9'

def digitValue (c : Char) : Nat := c.toNat - 48

/-- The largest significand kept; digits that would lead beyond it only count as places. -/
def maxSignificand : Nat := Nat.pow 2 64 - 1

/-- Appends digits to a significand as long as it stays within `maxSignificand`, and says how many it
took. -/
def appendDigits (significand taken : Nat) : List Char → Nat × Nat
  | [] => (significand, taken)
  | d :: ds =>
    let next := significand * 10 + digitValue d
    if next ≤ maxSignificand then appendDigits next (taken + 1) ds else (significand, taken)

def naturalValue (ds : List Char) : Nat := ds.foldl (fun n d => n * 10 + digitValue d) 0

def realNumber (negative : Bool) (significand : Nat) (exponent : Int) : Except SyntaxError Json :=
  match Binary64.ofScientific? negative significand exponent with
  | some x => .ok (.real x)
  | none => .error .numberOutOfRange

/-- An exponent part, if there is one. -/
def exponentPart (cs : List Char) : Except SyntaxError (Option Int × List Char) :=
  match cs with
  | c :: rest =>
    if c = 'e' ∨ c = 'E' then
      let (negative, rest) := match rest with
        | '+' :: rest => (false, rest)
        | '-' :: rest => (true, rest)
        | rest => (false, rest)
      let ds := rest.takeWhile isDigit
      if ds.isEmpty then .error .badNumber
      else
        let n : Int := naturalValue ds
        .ok (some (if negative then -n else n), rest.dropWhile isDigit)
    else .ok (none, cs)
  | [] => .ok (none, cs)

/-- A whole number: an integer where it fits a 64-bit word, signed if negative, else binary64. -/
def whole (negative : Bool) (significand : Nat) : Except SyntaxError Json :=
  if !negative then .ok (.int significand)
  else if 0 < significand ∧ significand ≤ Nat.pow 2 63 then .ok (.int (-significand))
  else realNumber true significand 0

/-- A number behind its sign. -/
def unsigned (negative : Bool) (cs : List Char) : Except SyntaxError (Json × List Char) := do
  let ds := cs.takeWhile isDigit
  let rest := cs.dropWhile isDigit
  if ds.isEmpty then .error .badNumber
  else if ds.head? = some '0' ∧ 1 < ds.length then .error .badNumber
  else
    let (significand, taken) := appendDigits 0 0 ds
    -- whole digits that no longer fit count as places before the point
    let dropped : Int := ds.length - taken
    match rest with
    | '.' :: rest =>
      let fs := rest.takeWhile isDigit
      if fs.isEmpty then .error .badNumber
      else
        let (significand, places) := appendDigits significand 0 fs
        let (e, rest) ← exponentPart (rest.dropWhile isDigit)
        return (← realNumber negative significand (dropped - places + e.getD 0), rest)
    | rest =>
      match ← exponentPart rest with
      | (some e, rest) => return (← realNumber negative significand (dropped + e), rest)
      | (none, rest) =>
        if dropped = 0 then return (← whole negative significand, rest)
        else return (← realNumber negative significand dropped, rest)

/-! ### Values -/

/-- Items up to the closing bracket, from the first item on. -/
def items (item : List Char → Except SyntaxError (Json × List Char)) :
    (fuel : Nat) → List Char → Except SyntaxError (List Json × List Char)
  | 0, _ => .error .unfinished
  | fuel + 1, cs => do
    let (j, rest) ← item cs
    match skipBlanks rest with
    | ',' :: rest =>
      let (js, rest) ← items item fuel rest
      return (j :: js, rest)
    | ']' :: rest => return ([j], rest)
    | rest => refuse rest

/-- Members up to the closing brace, from the first name on. -/
def members (item : List Char → Except SyntaxError (Json × List Char)) (fuel : Nat) :
    Nat → List Char → Except SyntaxError (List (String × Json) × List Char)
  | 0, _ => .error .unfinished
  | steps + 1, cs => do
    match skipBlanks cs with
    | '"' :: rest =>
      let (name, rest) ← stringTail fuel [] rest
      let rest ← expect [':'] (skipBlanks rest)
      let (j, rest) ← item rest
      match skipBlanks rest with
      | ',' :: rest =>
        let (ms, rest) ← members item fuel steps rest
        return ((name, j) :: ms, rest)
      | '}' :: rest => return ([(name, j)], rest)
      | rest => refuse rest
    | rest => refuse rest

/-- A value that holds no other. -/
def scalar (fuel : Nat) : List Char → Except SyntaxError (Json × List Char)
  | 'n' :: rest => return (.null, ← expect ['u', 'l', 'l'] rest)
  | 't' :: rest => return (.bool true, ← expect ['r', 'u', 'e'] rest)
  | 'f' :: rest => return (.bool false, ← expect ['a', 'l', 's', 'e'] rest)
  | '"' :: rest => do
    let (s, rest) ← stringTail fuel [] rest
    return (.str s, rest)
  | '-' :: rest => unsigned true rest
  | c :: rest => if isDigit c then unsigned false (c :: rest) else .error (.unexpected c)
  | [] => .error .unfinished

/-- One value, nested at most `depth` levels, and the text behind it. `fuel` is at least the length
of the text. -/
def value (fuel : Nat) : (depth : Nat) → List Char → Except SyntaxError (Json × List Char)
  | 0, cs =>
    match skipBlanks cs with
    | '[' :: _ => .error .tooDeep
    | '{' :: _ => .error .tooDeep
    | cs => scalar fuel cs
  | depth + 1, cs =>
    match skipBlanks cs with
    | '[' :: rest =>
      match skipBlanks rest with
      | ']' :: rest => return (.arr [], rest)
      | _ => do
        let (js, rest) ← items (value fuel depth) fuel rest
        return (.arr js, rest)
    | '{' :: rest =>
      match skipBlanks rest with
      | '}' :: rest => return (.obj [], rest)
      | _ => do
        let (ms, rest) ← members (value fuel depth) fuel fuel rest
        return (object ms, rest)
    | cs => scalar fuel cs

/-- The value a text starts with, and what follows it. -/
def readValue (depth : Nat) (text : String) : Except SyntaxError (Json × List Char) :=
  let cs := text.toList
  value (cs.length + 1) depth cs

/-- Nothing but blanks is left. -/
def finish (rest : List Char) : Except SyntaxError Unit :=
  if (skipBlanks rest).isEmpty then .ok () else .error .trailing

/-- The one value a text holds. -/
def parse (depth : Nat) (text : String) : Except SyntaxError Json := do
  let (j, rest) ← readValue depth text
  finish rest
  return j

end Trellis.Json
