/-!
The two sides of an equation. Vector notation is read around the first sign of equality; a scalar equation has
exactly one, and something on either side of it.
-/

namespace OdeSystem.Notation

/-- What stands before and behind the first sign of equality. -/
def splitEquation : List Char → Option (List Char × List Char)
  | [] => none
  | c :: rest =>
    if c = '=' then some ([], rest) else (splitEquation rest).map fun (left, right) => (c :: left, right)

/-- The sides of an equation with one sign of equality and nothing missing. -/
def sides? (text : List Char) : Option (List Char × List Char) :=
  match splitEquation text with
  | some (left, right) =>
    if left.isEmpty ∨ right.isEmpty ∨ right.contains '=' then none else some (left, right)
  | none => none

theorem splitEquation_eq_some_iff {text left right : List Char} :
    splitEquation text = some (left, right) ↔ text = left ++ '=' :: right ∧ '=' ∉ left := by
  induction text generalizing left with
  | nil => simp [splitEquation]
  | cons c rest ih =>
    by_cases hc : c = '='
    · cases left with
      | nil => simp [splitEquation, hc]
      | cons d ds => simp only [splitEquation, hc, ↓reduceIte]; grind
    · simp only [splitEquation, hc, ↓reduceIte, Option.map_eq_some_iff, Prod.exists, Prod.mk.injEq]
      constructor
      · rintro ⟨l, r, h, rfl, rfl⟩
        obtain ⟨rfl, hl⟩ := ih.mp h
        exact ⟨rfl, by simp [hl, Ne.symm hc]⟩
      · rintro ⟨h, hl⟩
        cases left with
        | nil => simp [hc] at h
        | cons d ds =>
          obtain ⟨rfl, rfl⟩ := List.cons.inj h
          exact ⟨ds, right, ih.mpr ⟨rfl, fun hm => hl (List.mem_cons_of_mem _ hm)⟩, rfl, rfl⟩

end OdeSystem.Notation
