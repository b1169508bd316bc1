import TreePlan.Decimal.Binary64

/-!
# The shortest decimal text of a double

Among all decimal numbers that are nearer to a double than to any other, the one with the
fewest digits, and of those the nearest. It is written without an exponent.
-/

namespace TreePlan.Binary64

/-- A decimal number: `digits · 10 ^ power`. -/
structure Decimal where
  digits : Nat
  power : Int
  deriving DecidableEq, Repr

/-- The unit `2 ^ (exponent - 2)` measured in units of `10 ^ power`, as numerator and
denominator. -/
def unitRatio (exponent power : Int) : Nat × Nat :=
  let fine := exponent - 2
  let two := Nat.pow 2 fine.natAbs
  let ten := Nat.pow 10 power.natAbs
  ((if 0 ≤ fine then two else 1) * (if 0 ≤ power then 1 else ten),
   (if 0 ≤ fine then 1 else two) * (if 0 ≤ power then ten else 1))

/-- The multiple of `10 ^ power` nearest to a double among those that read back as it. The
neighbours of a double are half a unit of its mantissa away from it, but the one below a
power of two is nearer. -/
def onGrid? (x : Binary64) (power : Int) : Option Decimal :=
  let (n, d) := unitRatio x.exponent power
  let below := if x.mantissa = Nat.pow 2 52 && minExponent < x.exponent then 1 else 2
  let low := (4 * x.mantissa - below) * n
  let high := (4 * x.mantissa + 2) * n
  let value := 4 * x.mantissa * n
  -- Halves are rounded to even, so the bounds read back as an even mantissa only.
  let even := x.mantissa % 2 = 0
  let readsBack (c : Nat) : Bool :=
    if even then low ≤ c * d && c * d ≤ high else low < c * d && c * d < high
  let floor := value / d
  match readsBack floor, readsBack (floor + 1) with
  | true, true =>
    if 2 * (value % d) < d || (2 * (value % d) = d && floor % 2 = 0) then some ⟨floor, power⟩
    else some ⟨floor + 1, power⟩
  | true, false => some ⟨floor, power⟩
  | false, true => some ⟨floor + 1, power⟩
  | false, false => none

def firstOnGrid (x : Binary64) : (fuel : Nat) → (power : Int) → Decimal
  | 0, power => ⟨0, power⟩
  | fuel + 1, power =>
    -- The first grid that is hit is the coarsest, so its number has the fewest digits.
    match x.onGrid? power with
    | some decimal => decimal
    | none => firstOnGrid x fuel (power - 1)

/-- The shortest decimal number that reads back as a double. -/
def shortest (x : Binary64) : Decimal :=
  if x.mantissa = 0 then ⟨0, 0⟩ else x.firstOnGrid 660 310

/-- A decimal number without an exponent, with a point in every case. -/
def Decimal.text (x : Decimal) : String :=
  let digits := Nat.repr x.digits
  if 0 ≤ x.power then digits ++ String.ofList (List.replicate x.power.toNat '0') ++ ".0"
  else
    let places := x.power.natAbs
    let padded := (List.replicate (places + 1 - digits.length) '0') ++ digits.toList
    let split := padded.length - places
    String.ofList (padded.take split ++ '.' :: padded.drop split)

end TreePlan.Binary64
