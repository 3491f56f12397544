/-! # Sets of code points

A set of code points is given by inclusive ranges, as the tables of character
properties list them.
-/

namespace Monkey.Text

/-- A set of code points, as inclusive ranges. -/
abbrev CodePoints := List (Nat × Nat)

/-- Whether a character is in a set. -/
def CodePoints.contains (ranges : CodePoints) (c : Char) : Bool :=
  ranges.any fun (first, last) => first ≤ c.toNat && c.toNat ≤ last

end Monkey.Text
