/-
  Blank characters, as of Unicode 14: the characters that stripping removes from both ends of a
  text. The zero-width space and the byte-order mark are not blank.
-/
import HclQuery.Unicode.Ranges

namespace HclQuery.Unicode

/-- The blank characters beyond ASCII. -/
def blankRanges : List (Nat × Nat) :=
  [(0x85, 0x85), (0xA0, 0xA0), (0x1680, 0x1680), (0x2000, 0x200A), (0x2028, 0x2029),
   (0x202F, 0x202F), (0x205F, 0x205F), (0x3000, 0x3000)]

/-- A blank: tab to carriage return, the four separators before the space, the space itself, or
    a blank beyond ASCII. -/
def isBlank : Char → Bool :=
  classify (fun c => (9 ≤ c.toNat && c.toNat ≤ 13) || (28 ≤ c.toNat && c.toNat ≤ 32)) blankRanges

end HclQuery.Unicode
