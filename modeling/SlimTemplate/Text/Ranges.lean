/-!
Sets of characters given by inclusive ranges of code points, the form in which the Unicode
tables of this library are kept.
-/

namespace SlimTemplate.Text

/-- Inclusive ranges of code points, in increasing order. -/
abbrev CodeRanges := List (Nat × Nat)

def CodeRanges.contains (ranges : CodeRanges) (c : Char) : Bool :=
  ranges.any fun (first, last) => first ≤ c.toNat && c.toNat ≤ last

end SlimTemplate.Text
