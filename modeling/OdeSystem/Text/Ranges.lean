/-!
Sets of code points, given as increasing lists of closed ranges. A character property of the Unicode
standard is such a list, and membership is a look-up that stops at the first range that ends late enough.
-/

namespace OdeSystem.Text

/-- Whether `n` lies in one of the ranges. The ranges increase, so a range that starts later ends the search. -/
def inRanges : List (Nat × Nat) → Nat → Bool
  | [], _ => false
  | (first, last) :: rest, n => first ≤ n && (n ≤ last || inRanges rest n)

theorem inRanges_cons {first last n : Nat} {rest : List (Nat × Nat)} :
    inRanges ((first, last) :: rest) n = true ↔ first ≤ n ∧ (n ≤ last ∨ inRanges rest n = true) := by
  simp [inRanges]

/-- What is found lies between the ends of a listed range. -/
theorem exists_mem_of_inRanges {ranges : List (Nat × Nat)} {n : Nat} (h : inRanges ranges n = true) :
    ∃ r ∈ ranges, r.1 ≤ n ∧ n ≤ r.2 := by
  induction ranges with
  | nil => simp [inRanges] at h
  | cons r rest ih =>
    obtain ⟨hfirst, hlast | hrest⟩ := inRanges_cons.mp h
    · exact ⟨r, by simp, hfirst, hlast⟩
    · obtain ⟨q, hq, hle⟩ := ih hrest
      exact ⟨q, by simp [hq], hle⟩

end OdeSystem.Text
