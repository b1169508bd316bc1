/-!
# Ranges of characters

Sets of characters given by the ranges of their code points.
-/

namespace TreePlan.Text

/-- Whether a character is in one of the ranges, each from its first to its last code point. -/
def inRanges (ranges : List (Nat × Nat)) (c : Char) : Bool :=
  ranges.any fun (first, last) => first ≤ c.toNat && c.toNat ≤ last

end TreePlan.Text
