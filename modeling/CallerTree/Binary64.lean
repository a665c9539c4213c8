/-!
# Rounding to binary64

Decimal fractions in settings are rounded to the nearest number with 53 significant bits before they
are used. All arithmetic here is exact.
-/

namespace CallerTree

/-- The number `significand * 2 ^ exponent`. -/
structure Binary64 where
  significand : Nat
  exponent : Int
  deriving DecidableEq, Repr

namespace Binary64

/-- The quotient rounded to the nearest integer, a half to the even neighbour. -/
def roundDiv (num den : Nat) : Nat :=
  let q := num / den
  let r := num % den
  if den < 2 * r ∨ den = 2 * r ∧ q % 2 = 1 then q + 1 else q

/-- `num / (den * 2 ^ e)` as a fraction of natural numbers. -/
def scaled (num den : Nat) (e : Int) : Nat × Nat :=
  if 0 ≤ e then (num, den * Nat.pow 2 e.toNat) else (num * Nat.pow 2 (-e).toNat, den)

/-- The exponent of the highest bit of `num / den`. -/
def magnitude (num den : Nat) : Int :=
  let e : Int := (num.log2 : Int) - den.log2
  let (a, b) := scaled num den e
  if b ≤ a then e else e - 1

/-- The exponent of the last bit of the smallest positive number. -/
def leastExponent : Int := -1074

/-- The number nearest to `num / den`, unless that is too large. -/
def round? (num den : Nat) : Option Binary64 :=
  if num = 0 then some ⟨0, 0⟩
  else
    let e := max (magnitude num den - 52) leastExponent
    let (a, b) := scaled num den e
    let m := roundDiv a b
    if 1024 ≤ (m.log2 : Int) + e then none else some ⟨m, e⟩

/-- The number as a fraction. -/
def fraction (x : Binary64) : Nat × Nat :=
  if 0 ≤ x.exponent then (x.significand * Nat.pow 2 x.exponent.toNat, 1)
  else (x.significand, Nat.pow 2 (-x.exponent).toNat)

def floor (x : Binary64) : Nat := x.fraction.1 / x.fraction.2

/-- The rounded product. -/
def mul? (x y : Binary64) : Option Binary64 :=
  round? (x.fraction.1 * y.fraction.1) (x.fraction.2 * y.fraction.2)

end Binary64

end CallerTree
