import Mathlib.Data.List.Basic

/-!
Texts with further parentheses. Two lists, of characters or of tokens, are the same but that some groups of the one
stand in a second pair of parentheses in the other.
-/

namespace OdeSystem

/-- Lists that are the same but for second pairs of parentheses, each directly around a group whose inside has a given
property. -/
inductive Enclosed {α : Type} (opening closing : α) (inside : List α → Prop) : List α → List α → Prop
  | plain (xs : List α) : Enclosed opening closing inside xs xs
  | group {front inner xs ys : List α} (h : inside inner) (rest : Enclosed opening closing inside xs ys) :
      Enclosed opening closing inside (front ++ opening :: (inner ++ closing :: xs))
        (front ++ opening :: opening :: (inner ++ closing :: closing :: ys))

namespace Enclosed
variable {α : Type} {opening closing : α} {inside inside' : List α → Prop} {xs ys : List α}

theorem imp (himp : ∀ inner, inside inner → inside' inner) (h : Enclosed opening closing inside xs ys) :
    Enclosed opening closing inside' xs ys := by
  induction h with
  | plain xs => exact .plain xs
  | group hinner _ ih => exact .group (himp _ hinner) ih

theorem append_left (front : List α) (h : Enclosed opening closing inside xs ys) :
    Enclosed opening closing inside (front ++ xs) (front ++ ys) := by
  cases h with
  | plain xs => exact .plain _
  | group hinner rest =>
    rw [← List.append_assoc, ← List.append_assoc]
    exact .group hinner rest

theorem isEmpty_eq (h : Enclosed opening closing inside xs ys) : xs.isEmpty = ys.isEmpty := by
  cases h with
  | plain xs => rfl
  | @group front _ _ _ _ _ => cases front <;> rfl

theorem mem_iff (h : Enclosed opening closing inside xs ys) {x : α} : x ∈ xs ↔ x ∈ ys := by
  induction h with
  | plain xs => exact Iff.rfl
  | group _ _ ih => simp [ih, or_left_comm]

end Enclosed

end OdeSystem
