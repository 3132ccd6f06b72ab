/-
Sets of characters as ranges.

`Ranges` lists the code points of a property as closed ranges.  A table of a property
is checked by `isAscending`, which says that its ranges are in order and do not touch,
and by `size`, the number of its code points.
-/
import ConfigTemplate.Text.Basic

namespace ConfigTemplate

/-- Closed ranges of code points. -/
abbrev Ranges := List (Nat × Nat)

namespace Ranges

/-- Whether the code point of a character lies in one of the ranges. -/
def contains (rs : Ranges) (c : Char) : Bool :=
  rs.any fun (first, last) => first ≤ c.toNat && c.toNat ≤ last

/-- Whether each range begins beyond the end of the one before, with a gap between. -/
def isAscending : Ranges → Bool
  | [] => true
  | [(first, last)] => first ≤ last
  | (first, last) :: (next, bound) :: rs =>
    first ≤ last && last + 1 < next && isAscending ((next, bound) :: rs)

/-- How many code points there are in the ranges. -/
def size (rs : Ranges) : Nat :=
  rs.foldl (fun n (first, last) => n + (last + 1 - first)) 0

theorem contains_eq_true_iff {rs : Ranges} {c : Char} :
    rs.contains c = true ↔ ∃ r ∈ rs, r.1 ≤ c.toNat ∧ c.toNat ≤ r.2 := by
  simp [contains]

end Ranges

end ConfigTemplate
