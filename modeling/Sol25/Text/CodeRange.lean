/-!
Ranges of code points, in which the tables of Unicode properties are written.
-/

set_option autoImplicit false
set_option relaxedAutoImplicit false

namespace Sol25.Text

/-- The code points from the first number to the second, both included. -/
abbrev CodeRange := Nat × Nat

/-- Whether one of `ranges` holds the code point of `c`. -/
def CodeRange.covers (ranges : List CodeRange) (c : Char) : Bool :=
  ranges.any fun range ↦ range.1 ≤ c.toNat && c.toNat ≤ range.2

end Sol25.Text
