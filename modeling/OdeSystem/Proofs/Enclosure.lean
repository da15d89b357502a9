import OdeSystem.Proofs.Formula.Parenthesis
import OdeSystem.Proofs.Notation.Enclosed
import OdeSystem.Proofs.Orientation

/-!
Further parentheses on the right of an equation. Around what stands in parentheses already, and around the whole side,
they lead to an equation that defines the same and has the same values.
-/

namespace OdeSystem

open Notation Text
open Formula (Tree isBare)
open Formula.Tree (Regrouped)

/-- An error without the expression that it quotes. -/
def EvalError.unquoted : EvalError → EvalError
  | formula _ cause => formula "" cause
  | error => error

namespace Equation

/-- Equations that define the same, wait for the same helpers, and have the same values and faults everywhere, though
they may be written differently. -/
structure Agrees (e e' : Equation) : Prop where
  kind : e.kind = e'.kind
  name : e.name = e'.name
  dependencies : e.dependencies = e'.dependencies
  eval : ∀ state time helpers, (e.eval state time helpers).mapError EvalError.unquoted =
    (e'.eval state time helpers).mapError EvalError.unquoted

/-! ### Derivatives by their trees -/

/-- The derivative of a variable, given the normal form of the expression and the tree of that. -/
def derivativeFrom (name normal : List Char) (tree : Tree) : Equation :=
  ⟨.derivative, String.ofList name, String.ofList normal, [],
    ⟨String.ofList normal, String.ofList (formulaOf (tokens normal)), tree, Table.sortNames tree.names⟩⟩

/-- Neither the values nor the faults of a derivative show how groups are nested. -/
theorem agrees_regrouped {tree tree' : Tree} (h : Regrouped tree tree') (name normal normal' : List Char) :
    Agrees (derivativeFrom name normal tree) (derivativeFrom name normal' tree') where
  kind := rfl
  name := rfl
  dependencies := rfl
  eval state time helpers := by
    simp only [Equation.eval, Expression.eval, derivativeFrom, h.names_eq, h.eval_eq]
    cases tree'.eval (Scope.restrict ⟨state, time, helpers⟩ (Table.sortNames tree'.names)).get? with
    | error fault => rfl
    | ok value => cases Outcome.ofValue value <;> rfl

section
variable {isFunction : String → Bool} {name side right right' : List Char}

/-- What reading an equation with a derivative on the left gives. -/
theorem reading_derivative (hside : IsDerivative isFunction name side) (right : List Char) :
    reading isFunction (String.ofList (side ++ '=' :: right)) =
      if (findSpacedFunction isFunction (tokens (canonicalText right))).isSome ∨
          (normalText isFunction right).isEmpty ∨ (normalText isFunction right).contains '=' then
        .error .malformed
      else
        ((Tree.ofText (formulaOf (tokens (normalText isFunction right)))).mapError fun _ => .formula).map
          (derivativeFrom name (normalText isFunction right)) := by
  have hfound : (findSpacedFunction isFunction (tokens (canonicalText (side ++ '=' :: right)))).isSome =
      (findSpacedFunction isFunction (tokens (canonicalText right))).isSome :=
    Bool.eq_iff_iff.mpr (isSome_findSpacedFunction_iff.trans
      ((hside.spacedInText_left right).trans isSome_findSpacedFunction_iff.symm))
  simp only [reading, ofText, String.toList_ofList, hfound, hside.normalText_left,
    parts?_derivative_left hside.identifier]
  split
  · rename_i hspaced
    rw [if_pos (.inl hspaced)]
    rfl
  · rename_i hspaced
    by_cases hmalformed : (normalText isFunction right).isEmpty ∨ (normalText isFunction right).contains '='
    · rw [if_pos hmalformed, if_pos (.inr hmalformed)]
      rfl
    · rw [if_neg hmalformed, if_neg (not_or.mpr ⟨hspaced, hmalformed⟩)]
      simp only [Expression.ofText, Notation.formula, String.toList_ofList]
      cases Tree.ofText (formulaOf (tokens (normalText isFunction right))) <;> rfl

/-- Derivatives of one variable agree when their expressions have the same tree but for groups around groups. -/
theorem reading_regrouped (hside : IsDerivative isFunction name side)
    (hspaced : SpacedInText isFunction right ↔ SpacedInText isFunction right')
    (hempty : (normalText isFunction right).isEmpty = (normalText isFunction right').isEmpty)
    (hequals : '=' ∈ normalText isFunction right ↔ '=' ∈ normalText isFunction right')
    (htrees : Matched Eq Regrouped (Tree.ofText (formulaOf (tokens (normalText isFunction right))))
      (Tree.ofText (formulaOf (tokens (normalText isFunction right'))))) :
    Matched Eq Agrees (reading isFunction (String.ofList (side ++ '=' :: right)))
      (reading isFunction (String.ofList (side ++ '=' :: right'))) := by
  have hfound : (findSpacedFunction isFunction (tokens (canonicalText right))).isSome =
      (findSpacedFunction isFunction (tokens (canonicalText right'))).isSome :=
    Bool.eq_iff_iff.mpr (isSome_findSpacedFunction_iff.trans (hspaced.trans isSome_findSpacedFunction_iff.symm))
  have hcontains : (normalText isFunction right).contains '=' = (normalText isFunction right').contains '=' :=
    Bool.eq_iff_iff.mpr (by rw [List.contains_iff_mem, List.contains_iff_mem, hequals])
  rw [reading_derivative hside, reading_derivative hside, hfound, hempty, hcontains]
  split
  · exact .error rfl
  · rcases htrees.ok_or_error with ⟨tree, tree', htree, htree', h⟩ | ⟨fault, fault', htree, htree', rfl⟩
    · rw [htree, htree']
      exact .ok (agrees_regrouped h ..)
    · rw [htree, htree']
      exact .error rfl

/-! ### Parentheses -/

/-- An expression that is read as it is written: in canonical notation, and its formula has no quotes and no
comments. -/
structure IsPlain (isFunction : String → Bool) (text : List Char) : Prop where
  canonical : canonicalText text = text
  bare : isBare (formulaOf (tokens (normalText isFunction text))) = true

instance (text : List Char) : Decidable (IsPlain isFunction text) :=
  decidable_of_iff _ ⟨fun h => ⟨h.1, h.2⟩, fun h => And.intro h.canonical h.bare⟩

theorem IsPlain.normalText (h : IsPlain isFunction right) :
    normalText isFunction right = strip (insertStars isFunction right) := by
  rw [Notation.normalText, h.canonical]

theorem IsPlain.of_padded {leading trailing : List Char} (hleading : allBlank leading = true)
    (htrailing : allBlank trailing = true) (h : IsPlain isFunction (leading ++ right ++ trailing)) :
    IsPlain isFunction right where
  canonical := by
    have hcanonical := h.canonical
    rw [canonicalText_padded hleading htrailing] at hcanonical
    exact List.append_cancel_left (List.append_cancel_right hcanonical)
  bare := by
    have hbare := h.bare
    rwa [normalText_padded hleading htrailing] at hbare

/-- Second parentheses around what can stand in parentheses do not change an equation. -/
theorem reading_enclosed (hside : IsDerivative isFunction name side) (hright : IsPlain isFunction right)
    (hright' : IsPlain isFunction right') (h : Enclosed '(' ')' (IsUnit isFunction) right right') :
    Matched Eq Agrees (reading isFunction (String.ofList (side ++ '=' :: right)))
      (reading isFunction (String.ofList (side ++ '=' :: right'))) := by
  have hnormal := insertStars_enclosed h
  have hbare := hright.bare
  refine reading_regrouped hside ?_ ?_ ?_ ?_
  · rw [SpacedInText, SpacedInText, hright.canonical, hright'.canonical]
    exact spacedIn_enclosed (@tokens_enclosed (fun _ => True) _ _ (h.imp fun _ _ => trivial))
  · rw [hright.normalText, hright'.normalText, hnormal.isEmpty_eq]
  · rw [hright.normalText, hright'.normalText]
    exact hnormal.mem_iff
  · rw [hright.normalText] at hbare
    rw [hright.normalText, hright'.normalText]
    exact Tree.ofText_enclosed hbare (formula_enclosed h)

/-- Nor do parentheses around all of its right-hand side. -/
theorem reading_parenthesized (hside : IsDerivative isFunction name side) (hright : IsPlain isFunction right)
    (hright' : IsPlain isFunction ('(' :: (right ++ [')']))) (h : IsUnit isFunction right) :
    Matched Eq Agrees (reading isFunction (String.ofList (side ++ '=' :: right)))
      (reading isFunction (String.ofList (side ++ '=' :: '(' :: (right ++ [')'])))) := by
  obtain ⟨hnormal, hformula⟩ := formula_parenthesized h
  have hbare := hright.bare
  rw [hright.normalText] at hbare
  refine reading_regrouped hside ?_ ?_ ?_ ?_
  · rw [SpacedInText, SpacedInText, hright.canonical, hright'.canonical, tokens_parenthesized]
    rw [spacedIn_cons_symbol, spacedIn_append_symbol, or_iff_left not_spacedIn_nil]
  · have hne : strip (insertStars isFunction right) ≠ [] := fun hnil => by
      have hreads := h.reads
      rw [hnil] at hreads
      exact hreads.ne_nil rfl
    rw [hright.normalText, hright'.normalText, hnormal, List.isEmpty_eq_false_iff.mpr hne]
    rfl
  · rw [hright.normalText, hright'.normalText, hnormal]
    simp
  · rw [hright.normalText, hright'.normalText, hnormal, hformula]
    exact Tree.ofText_parenthesized hbare h.reads

end

end Equation

end OdeSystem
