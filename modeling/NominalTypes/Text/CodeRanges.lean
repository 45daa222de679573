/-!
# Sets of characters given by ranges of code points

A property of characters that a standard fixes by enumeration is held here as a list of closed
ranges in increasing order.

- `Text.inRanges ranges c`: the code point of `c` lies in one of the ranges.
-/

namespace NominalTypes.Text

/-- Membership in a list of closed ranges in increasing order: the search ends at the first range
that begins beyond the character. -/
def inRanges : List (Nat × Nat) → Char → Bool
  | [], _ => false
  | (low, high) :: rest, c =>
    if c.toNat < low then false
    else if c.toNat ≤ high then true
    else inRanges rest c

end NominalTypes.Text
