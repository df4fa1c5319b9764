import Phrasebook.Text.CodePoint

/-!
# Phrasebook — tables of code point ranges

A property of code points is given by the inclusive ranges where it holds, in ascending order.
-/

namespace Phrasebook

/-- Inclusive ranges of code point numbers. -/
abbrev Ranges := List (Nat × Nat)

/-- Whether a number lies in one of the ranges. -/
def Ranges.contains (ranges : Ranges) (n : Nat) : Bool :=
  ranges.any fun (low, high) => low ≤ n && n ≤ high

end Phrasebook
