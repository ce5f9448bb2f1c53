/-!
String literals in expressions and in JSON text.

`quoted` writes a double-quoted literal: quote, backslash and control characters are escaped, all
else stays. `singleQuoted` writes a single-quoted one and escapes the single quote only.
-/

namespace Trellis.Text

def hexDigit (n : Nat) : Char := "0123456789abcdef".toList.getD n '0'

/-- The written form of one character inside double quotes. -/
def escape (c : Char) : List Char :=
  if c = '"' then ['\\', '"']
  else if c = '\\' then ['\\', '\\']
  else if c = '\x08' then ['\\', 'b']
  else if c = '\x0c' then ['\\', 'f']
  else if c = '\n' then ['\\', 'n']
  else if c = '\r' then ['\\', 'r']
  else if c = '\t' then ['\\', 't']
  else if c.toNat < 32 then
    ['\\', 'u', '0', '0', hexDigit (c.toNat / 16), hexDigit (c.toNat % 16)]
  else [c]

/-- A double-quoted literal. -/
def quoted (s : String) : String :=
  "\"" ++ String.ofList (s.toList.flatMap escape) ++ "\""

/-- A single-quoted literal. A backslash in the text is not escaped. -/
def singleQuoted (s : String) : String :=
  "'" ++ String.ofList (s.toList.flatMap (fun c => if c = '\'' then ['\\', '\''] else [c])) ++ "'"

end Trellis.Text
