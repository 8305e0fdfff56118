/-! # Sets of code points

A property of characters is kept as the list of the intervals of code points that have it.
-/

namespace Polish.Text

/-- A set of code points, as closed intervals in increasing order. -/
abbrev Ranges := List (Nat × Nat)

def Ranges.contains (ranges : Ranges) (c : Char) : Bool :=
  ranges.any fun (first, last) => first ≤ c.toNat && c.toNat ≤ last

end Polish.Text
