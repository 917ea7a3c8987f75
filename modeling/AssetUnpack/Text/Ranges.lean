/-!
# Ranges of characters

A property of characters is a table of ranges of their numbers, in ascending order.
-/

namespace AssetUnpack.Text

/-- Ranges of numbers, each with its first and its last. -/
abbrev Ranges := List (Nat × Nat)

/-- Whether a number lies in one of the ranges. -/
def Ranges.contains (ranges : Ranges) (n : Nat) : Bool :=
  ranges.any fun r => r.1 ≤ n && n ≤ r.2

end AssetUnpack.Text
