/-!
# Sets of characters given by ranges

A property of characters that a standard fixes by enumeration is kept as a list
of closed ranges of code points.
-/

namespace Betty.Text

/-- Does the code point of `c` lie in one of the closed ranges? -/
def inRanges (ranges : List (Nat × Nat)) (c : Char) : Bool :=
  ranges.any fun range => range.1 ≤ c.toNat && c.toNat ≤ range.2

end Betty.Text
