/-!
# Classes of characters as ranges

A class of characters is given by a table of inclusive ranges of code points, in ascending order.
-/

namespace Reckoner.Text

/-- Whether a character lies in one of the ranges of a table. -/
def inRanges (table : List (Nat × Nat)) (c : Char) : Bool :=
  table.any fun (low, high) ↦ low ≤ c.toNat && c.toNat ≤ high

theorem inRanges_iff {table : List (Nat × Nat)} {c : Char} :
    inRanges table c = true ↔ ∃ r ∈ table, r.1 ≤ c.toNat ∧ c.toNat ≤ r.2 := by
  simp only [inRanges, List.any_eq_true, Bool.and_eq_true, decide_eq_true_eq]

end Reckoner.Text
