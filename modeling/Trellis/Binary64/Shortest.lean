import Trellis.Binary64

/-!
The shortest decimal that reads back as a given binary64 number, and its two written forms.

`digits` takes the first of the grids of 1, 2, … 17 digits that has a point within the rounding
interval, and on that grid the point nearest to the number.
-/

namespace Trellis.Binary64

/-- Which of two equally near decimals is taken. -/
inductive Tie where
  | toEven
  | away
deriving DecidableEq, Repr

/-- A decimal significand · 10^exponent. -/
structure Decimal where
  significand : Nat
  exponent : Int
deriving DecidableEq, Repr, Inhabited

/-- The rounding interval of a mantissa and exponent, in quarters of a unit: its lower end, the
number itself and its upper end, in units of 2^(exponent - 2). -/
def quarters (m : Nat) (e : Int) : Nat × Nat × Nat :=
  (if m = Nat.pow 2 52 ∧ minExponent < e then 4 * m - 1 else 4 * m - 2, 4 * m, 4 * m + 2)

/-- The decimal exponent of the leading digit of num/den, for a positive fraction. -/
def leadingExponent (num den : Nat) : Int :=
  if den ≤ num then ((Nat.toDigits 10 (num / den)).length : Int) - 1
  else .negSucc (((List.range 400).find? (fun k => den ≤ num * Nat.pow 10 (k + 1))).getD 0)

/-- The nearer of the two grid points around the number that lie in its interval. The grid has the
step 10^p; all values are in units of 2^(e - 2). -/
def gridPoint? (tie : Tie) (m : Nat) (e p : Int) : Option Nat :=
  let (lower, value, upper) := quarters m e
  let two := e - 2
  let scale (n : Nat) : Nat := n * Nat.pow 2 two.toNat * Nat.pow 10 (-p).toNat
  let step : Nat := Nat.pow 10 p.toNat * Nat.pow 2 (-two).toNat
  let below := scale value / step
  -- the ends of the interval round to an even mantissa only
  let inside (d : Nat) : Bool :=
    if m % 2 = 0 then scale lower ≤ d * step ∧ d * step ≤ scale upper
    else scale lower < d * step ∧ d * step < scale upper
  let excess := scale value - below * step
  let shortfall := (below + 1) * step - scale value
  match inside below, inside (below + 1) with
  | false, false => none
  | true, false => some below
  | false, true => some (below + 1)
  | true, true =>
    if excess < shortfall then some below
    else if shortfall < excess then some (below + 1)
    else match tie with
      | .toEven => some (if below % 2 = 0 then below else below + 1)
      | .away => some (below + 1)

/-- Drops the zeros at the end of a significand. -/
def stripZeros : Nat → Decimal → Decimal
  | 0, d => d
  | fuel + 1, d =>
    if d.significand % 10 = 0 ∧ d.significand ≠ 0 then
      stripZeros fuel ⟨d.significand / 10, d.exponent + 1⟩
    else d

/-- The fewest digits that read back as this magnitude. -/
def digits (tie : Tie) (x : Binary64) : Decimal :=
  if x.mantissa = 0 then ⟨0, 0⟩
  else
    let (num, den) := x.fraction
    let lead := leadingExponent num den
    let found := (List.range 17).findSome? (fun (k : Nat) =>
      let p := lead - k
      (gridPoint? tie x.mantissa x.exponent p).map (fun d => (⟨d, p⟩ : Decimal)))
    stripZeros 20 (found.getD ⟨0, 0⟩)

def zeros (n : Nat) : String := String.ofList (List.replicate n '0')

/-- Positional digits, with a point only before a fraction. -/
def Decimal.positional (d : Decimal) : String :=
  let ds := toString d.significand
  if 0 ≤ d.exponent then ds ++ zeros d.exponent.toNat
  else
    let places := (-d.exponent).toNat
    if ds.length ≤ places then "0." ++ zeros (places - ds.length) ++ ds
    else
      String.ofList (ds.toList.take (ds.length - places)) ++ "." ++
        String.ofList (ds.toList.drop (ds.length - places))

def sign (x : Binary64) : String := if x.negative then "-" else ""

/-- Positional throughout, whole numbers without a point. -/
def plainText (x : Binary64) : String :=
  if x.isZero then x.sign ++ "0" else x.sign ++ (x.digits .away).positional

/-- Positional from 10^-5 up to 10^16 with at least one decimal place, else with an exponent. -/
def markedText (x : Binary64) : String :=
  if x.isZero then x.sign ++ "0.0"
  else
    let d := x.digits .toEven
    let ds := toString d.significand
    let point : Int := d.exponent + ds.length
    x.sign ++
      if -5 < point ∧ point ≤ 16 then
        if 0 ≤ d.exponent then d.positional ++ ".0" else d.positional
      else
        let mantissa := String.ofList (ds.toList.take 1) ++
          (if ds.length = 1 then "" else "." ++ String.ofList (ds.toList.drop 1))
        let e := point - 1
        mantissa ++ "e" ++ (if e < 0 then "-" else "+") ++ toString e.natAbs

end Trellis.Binary64
