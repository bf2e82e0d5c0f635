/-
  Sets of characters given by ranges of code points.
-/

namespace HclQuery.Unicode

/-- The code point of `c` lies in one of the ranges, both ends included. -/
def inRanges (ranges : List (Nat × Nat)) (c : Char) : Bool :=
  ranges.any fun r => r.1 ≤ c.toNat && c.toNat ≤ r.2

/-- An ASCII character is judged by `ascii`, every other one by the table `ranges`. -/
def classify (ascii : Char → Bool) (ranges : List (Nat × Nat)) (c : Char) : Bool :=
  if c.toNat < 0x80 then ascii c else inRanges ranges c

end HclQuery.Unicode
