/-!
Finite binary64 numbers in exact arithmetic: a sign, a mantissa and a power of two.

Every operation rounds a quotient of natural numbers once, to nearest with ties to even
(`Binary64.ratio?`), so nothing here rests on machine floating point.
-/

namespace Trellis

/-- The number ±mantissa · 2^exponent. Values built here have a mantissa below 2^53 and the least
exponent, from -1074 up, that allows it. -/
structure Binary64 where
  negative : Bool
  mantissa : Nat
  exponent : Int
deriving DecidableEq, Repr, Inhabited

namespace Binary64

def minExponent : Int := -1074
def maxExponent : Int := 971

/-- The quotient rounded to the nearest natural number, a half to the even one. -/
def roundHalfEven (num den : Nat) : Nat :=
  let q := num / den
  let r := num % den
  if 2 * r < den ∨ (2 * r = den ∧ q % 2 = 0) then q else q + 1

/-- The fraction num/den divided by 2^e, again as a fraction. -/
def unscale (num den : Nat) (e : Int) : Nat × Nat :=
  (num * Nat.pow 2 (-e).toNat, den * Nat.pow 2 e.toNat)

/-- The exponent under which num/den has a mantissa of 53 bits, or the least one. -/
def exponentOf (num den : Nat) : Int :=
  let e : Int := (num.log2 : Int) - den.log2 - 53
  let (n, d) := unscale num den e
  -- the logarithms leave the quotient within one bit of 53
  max (if Nat.pow 2 53 ≤ n / d then e + 1 else e) minExponent

/-- The nearest number to num/den; none where that is beyond the largest. -/
def ratio? (negative : Bool) (num den : Nat) : Option Binary64 :=
  if num = 0 then some ⟨negative, 0, minExponent⟩
  else
    let e := exponentOf num den
    let (n, d) := unscale num den e
    let m := roundHalfEven n d
    -- rounding up may carry into a bit more
    let (m, e) := if m = Nat.pow 2 53 then (Nat.pow 2 52, e + 1) else (m, e)
    if maxExponent < e then none else some ⟨negative, m, e⟩

def zero : Binary64 := ⟨false, 0, minExponent⟩

def isZero (x : Binary64) : Bool := x.mantissa == 0

/-- The magnitude as a fraction. -/
def fraction (x : Binary64) : Nat × Nat :=
  (x.mantissa * Nat.pow 2 x.exponent.toNat, Nat.pow 2 (-x.exponent).toNat)

def mul? (x y : Binary64) : Option Binary64 :=
  let (a, b) := x.fraction
  let (c, d) := y.fraction
  ratio? (x.negative != y.negative) (a * c) (b * d)

/-- The quotient by a number other than zero. -/
def div? (x y : Binary64) : Option Binary64 :=
  let (a, b) := x.fraction
  let (c, d) := y.fraction
  ratio? (x.negative != y.negative) (a * d) (b * c)

/-- The nearest number to an integer; zero for one out of range, which takes over 300 digits. -/
def ofInt (i : Int) : Binary64 := (ratio? (i < 0) i.natAbs 1).getD zero

def ofNat (n : Nat) : Binary64 := ofInt n

/-- The nearest number to 10^k, for k up to 308. -/
def powerOfTen (k : Nat) : Binary64 := (ratio? false (Nat.pow 10 k) 1).getD zero

/-- Multiplies by a power of ten in one rounded step, or divides by its inverse. Below 10^-308 it
first divides by 10^308, at most as often as `steps` says; three divisions take any number to zero.
None where the result is too large. -/
def scaleByTen? : (steps : Nat) → Binary64 → (exponent : Int) → Option Binary64
  | steps, x, exponent =>
    if exponent.natAbs ≤ 308 then
      let power := powerOfTen exponent.natAbs
      if 0 ≤ exponent then x.mul? power else x.div? power
    else if x.isZero then some x
    else if 0 ≤ exponent then none
    else match steps with
      | 0 => some x
      | steps + 1 => (x.div? (powerOfTen 308)).bind (fun y => scaleByTen? steps y (exponent + 308))

/-- The number written significand · 10^exponent. Both the significand and its scaling are rounded,
so long significands may come out one unit beside the nearest number. -/
def ofScientific? (negative : Bool) (significand : Nat) (exponent : Int) : Option Binary64 := do
  let x ← ratio? false significand 1
  let y ← scaleByTen? 4 x exponent
  return { y with negative }

end Binary64
end Trellis
