/-
# Character ranges

A property of characters is given as an ascending list of ranges of code points.
-/

namespace EntityQuery.Text

/-- Whether a code point lies in one of the ranges.  The ranges ascend, so the search ends at the
first range above the code point. -/
def inRanges : List (Nat × Nat) → Nat → Bool
  | [], _ => false
  | (low, high) :: rest, n => if n < low then false else n ≤ high || inRanges rest n

/-- A code point in one of the ranges is found only at a range that holds it. -/
theorem exists_mem_of_inRanges {ranges : List (Nat × Nat)} {n : Nat}
    (h : inRanges ranges n = true) : ∃ r ∈ ranges, r.1 ≤ n ∧ n ≤ r.2 := by
  induction ranges with
  | nil => simp [inRanges] at h
  | cons r rest ih =>
    obtain ⟨low, high⟩ := r
    by_cases hlow : n < low
    · simp [inRanges, hlow] at h
    · simp only [inRanges, hlow, if_false, Bool.or_eq_true, decide_eq_true_eq] at h
      rcases h with h | h
      · exact ⟨(low, high), by simp, by omega, h⟩
      · obtain ⟨r, hr, h⟩ := ih h
        exact ⟨r, by simp [hr], h⟩

end EntityQuery.Text
