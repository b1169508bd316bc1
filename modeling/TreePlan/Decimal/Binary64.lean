/-!
# Doubles

Positive numbers `mantissa · 2 ^ exponent` with a mantissa of 53 bits, and the one nearest to
a given decimal number. All arithmetic is exact.
-/

namespace TreePlan

/-- A finite number that is not negative: `mantissa · 2 ^ exponent`. -/
structure Binary64 where
  mantissa : Nat
  exponent : Int
  deriving DecidableEq, Repr

namespace Binary64

/-- The exponent of the numbers next to zero. -/
def minExponent : Int := -1074

def maxExponent : Int := 971

/-- The quotient rounded to the nearest natural number, halves to the even one. -/
def roundQuotient (numerator denominator : Nat) : Nat :=
  let quotient := numerator / denominator
  let twice := 2 * (numerator % denominator)
  if twice < denominator then quotient
  else if denominator < twice then quotient + 1
  else quotient + quotient % 2

/-- The quotient divided by `2 ^ exponent`, as numerator and denominator. -/
def scale (numerator denominator : Nat) (exponent : Int) : Nat × Nat :=
  if 0 ≤ exponent then (numerator, denominator * Nat.pow 2 exponent.toNat)
  else (numerator * Nat.pow 2 (-exponent).toNat, denominator)

/-- The double nearest to a positive quotient, or none if it is too large for any. -/
def ofQuotient? (numerator denominator : Nat) : Option Binary64 :=
  -- With this exponent the quotient has 53 or 54 bits.
  let guess : Int := (numerator.log2 : Int) - (denominator.log2 : Int) - 53
  let (n, d) := scale numerator denominator guess
  let exponent := max minExponent (if n / d < Nat.pow 2 53 then guess else guess + 1)
  let (n, d) := scale numerator denominator exponent
  let mantissa := roundQuotient n d
  -- Rounding up may have carried over into one bit more.
  let (mantissa, exponent) :=
    if mantissa = Nat.pow 2 53 then (Nat.pow 2 52, exponent + 1) else (mantissa, exponent)
  if maxExponent < exponent then none else some ⟨mantissa, exponent⟩

def digitCount (n : Nat) : Nat := (Nat.repr n).length

/-- The double nearest to `digits · 10 ^ power`, or none if it is too large for any. Powers
that decide by themselves are never computed. -/
def ofDecimal? (digits : Nat) (power : Int) : Option Binary64 :=
  let order := (digitCount digits : Int) + power
  if digits = 0 || order < -330 then some ⟨0, minExponent⟩
  else if 320 < order then none
  else if 0 ≤ power then ofQuotient? (digits * Nat.pow 10 power.toNat) 1
  else ofQuotient? digits (Nat.pow 10 (-power).toNat)

end Binary64

end TreePlan
