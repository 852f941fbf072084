/-!
# Sets of code points as ranges

Unicode properties are kept as lists of closed ranges of code points, in increasing order. This file
holds the one question asked of such a list. The lists themselves stand with the properties they
describe (`Verdict.Text.Word`, `Verdict.Text.Digit`, `Verdict.Text.Printable`).
-/

namespace Verdict.Text

/-- Whether the code point of `c` lies in one of the closed ranges. -/
def inRanges (ranges : List (Nat × Nat)) (c : Char) : Bool :=
  ranges.any fun (low, high) => low ≤ c.toNat && c.toNat ≤ high

theorem inRanges_iff {ranges : List (Nat × Nat)} {c : Char} :
    inRanges ranges c = true ↔ ∃ r ∈ ranges, r.1 ≤ c.toNat ∧ c.toNat ≤ r.2 := by
  simp [inRanges]

end Verdict.Text
