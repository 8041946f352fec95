/-!
# Sets of code points, as ranges

A Unicode property is a set of code points. It is written here as a list of closed ranges
`(first, last)`, and a character has the property when some range holds its code point.
-/

namespace MiniC.Text

/-- A set of code points: each pair is a closed range `(first, last)`. -/
abbrev Ranges := List (Nat × Nat)

/-- Whether some range holds the code point of `c`. -/
def Ranges.contains (ranges : Ranges) (c : Char) : Bool :=
  ranges.any fun range => range.1 ≤ c.toNat && c.toNat ≤ range.2

/-- Membership is membership in one of the ranges. -/
theorem Ranges.contains_iff (ranges : Ranges) (c : Char) :
    ranges.contains c = true ↔ ∃ range ∈ ranges, range.1 ≤ c.toNat ∧ c.toNat ≤ range.2 := by
  simp [Ranges.contains]

end MiniC.Text
