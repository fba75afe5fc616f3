/-!
# Classes of code points as ranges

A class of characters is given by the ascending list of its maximal ranges of code points, both
ends included. `inRanges` decides membership and stops at the first range that starts beyond the
code point, which is right because the ranges ascend. `Ascending` says that a list is of this
form; `inRanges_iff` says that for such a list membership is membership in one of its ranges.
-/

namespace LoxTree.Text

/-- Whether `n` lies in one of the ranges, which are given in ascending order. -/
def inRanges : List (Nat × Nat) → Nat → Bool
  | [], _ => false
  | (low, high) :: rest, n =>
    if n < low then false else if n ≤ high then true else inRanges rest n

/-- The ranges are non-empty, ascending and disjoint, and the first starts at `start` or later. -/
def Ascending (start : Nat) : List (Nat × Nat) → Prop
  | [] => True
  | (low, high) :: rest => start ≤ low ∧ low ≤ high ∧ Ascending (high + 1) rest

/-- Whether ranges ascend is decided by looking at them in turn. -/
instance Ascending.decidable (start : Nat) : (ranges : List (Nat × Nat)) →
    Decidable (Ascending start ranges)
  | [] => .isTrue trivial
  | (low, high) :: rest =>
    have := Ascending.decidable (high + 1) rest
    inferInstanceAs (Decidable (start ≤ low ∧ low ≤ high ∧ Ascending (high + 1) rest))

/-- Ranges that ascend from `start` lie at `start` or above. -/
theorem Ascending.start_le {start : Nat} {ranges : List (Nat × Nat)} (h : Ascending start ranges)
    {low high : Nat} (hmem : (low, high) ∈ ranges) : start ≤ low := by
  induction ranges generalizing start with
  | nil => simp at hmem
  | cons range rest ih =>
    obtain ⟨l, r⟩ := range
    obtain ⟨h₁, h₂, h₃⟩ := h
    rcases List.mem_cons.1 hmem with heq | hmem
    · cases heq; exact h₁
    · have := ih h₃ hmem; omega

/-- For ascending ranges, `inRanges` is membership in one of them. -/
theorem inRanges_iff {start : Nat} {ranges : List (Nat × Nat)} (h : Ascending start ranges)
    (n : Nat) : inRanges ranges n = true ↔ ∃ r ∈ ranges, r.1 ≤ n ∧ n ≤ r.2 := by
  induction ranges generalizing start with
  | nil => simp [inRanges]
  | cons range rest ih =>
    obtain ⟨low, high⟩ := range
    obtain ⟨h₁, h₂, h₃⟩ := h
    unfold inRanges
    by_cases hlow : n < low
    · simp only [hlow, if_true, Bool.false_eq_true, false_iff, not_exists, not_and]
      intro r hr hle
      rcases List.mem_cons.1 hr with rfl | hr
      · simp at hle; omega
      · have := h₃.start_le hr; omega
    · by_cases hhigh : n ≤ high
      · simp only [hlow, hhigh, if_true, if_false, true_iff]
        exact ⟨(low, high), by simp, by simp; omega⟩
      · simp only [hlow, hhigh, if_false, ih h₃]
        constructor
        · rintro ⟨r, hr, hb⟩; exact ⟨r, by simp [hr], hb⟩
        · rintro ⟨r, hr, hb⟩
          rcases List.mem_cons.1 hr with rfl | hr
          · simp at hb; omega
          · exact ⟨r, hr, hb⟩

end LoxTree.Text
