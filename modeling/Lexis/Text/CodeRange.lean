/-
# Tables of code points

A character property of the Unicode standard is a set of code points, written
here as the ascending list of its maximal ranges.  Membership walks the list
and stops at the first range that does not lie wholly below the code point, so
that the common low code points are decided at once.
-/

namespace Lexis

/-- A table of code points: closed ranges `(first, last)`, in ascending order. -/
abbrev CodeRanges := List (Nat × Nat)

namespace CodeRanges

/-- Whether the code point `n` lies in one of the ranges.  The first range that
ends at `n` or later decides, since the ranges ascend. -/
def contains : CodeRanges → Nat → Bool
  | [], _ => false
  | (first, last) :: ranges, n => if n ≤ last then decide (first ≤ n) else contains ranges n

/-- Whether the ranges are well-formed, ascending and apart, all above `low`. -/
def ascendsFrom (low : Nat) : CodeRanges → Bool
  | [] => true
  | (first, last) :: ranges => decide (low ≤ first) && decide (first ≤ last) &&
      ascendsFrom (last + 1) ranges

/-- In an ascending table no code point below the first bound is listed. -/
theorem not_mem_of_lt {low n : Nat} {ranges : CodeRanges} (h : ascendsFrom low ranges = true)
    (hn : n < low) : ¬ ∃ r ∈ ranges, r.1 ≤ n ∧ n ≤ r.2 := by
  induction ranges generalizing low with
  | nil => simp
  | cons r ranges ih =>
    obtain ⟨first, last⟩ := r
    simp only [ascendsFrom, Bool.and_eq_true, decide_eq_true_eq] at h
    have := ih h.2 (by omega)
    rintro ⟨r, hr, h₁, h₂⟩
    rcases List.mem_cons.1 hr with rfl | hr
    · simp only at h₁; omega
    · exact this ⟨r, hr, h₁, h₂⟩

/-- In an ascending table, walking up to the deciding range is membership in
any of the ranges. -/
theorem contains_iff {low n : Nat} {ranges : CodeRanges} (h : ascendsFrom low ranges = true) :
    ranges.contains n = true ↔ ∃ r ∈ ranges, r.1 ≤ n ∧ n ≤ r.2 := by
  induction ranges generalizing low with
  | nil => simp [contains]
  | cons r ranges ih =>
    obtain ⟨first, last⟩ := r
    simp only [ascendsFrom, Bool.and_eq_true, decide_eq_true_eq] at h
    simp only [contains]
    split
    · rename_i hn
      have := not_mem_of_lt (n := n) h.2 (by omega)
      constructor
      · intro h₁
        exact ⟨_, List.mem_cons_self, of_decide_eq_true h₁, hn⟩
      · rintro ⟨r, hr, h₁, h₂⟩
        rcases List.mem_cons.1 hr with rfl | hr
        · exact decide_eq_true h₁
        · exact absurd ⟨r, hr, h₁, h₂⟩ this
    · rename_i hn
      rw [ih h.2]
      constructor
      · rintro ⟨r, hr, h'⟩
        exact ⟨r, List.mem_cons_of_mem _ hr, h'⟩
      · rintro ⟨r, hr, h'⟩
        rcases List.mem_cons.1 hr with rfl | hr
        · exact absurd h'.2 hn
        · exact ⟨r, hr, h'⟩

end CodeRanges

end Lexis
