import OdeSystem.Equation
import OdeSystem.Proofs.Logged
import OdeSystem.Proofs.Notation.Product

/-!
Equations between a derivative and an expression. How such an equation is read depends on the variable and on the
normal form of the expression only: not on the blanks around its sides, and not on which side the derivative is,
unless the expression could be taken for a derivative itself.
-/

namespace OdeSystem

open Notation Text

/-- The kinds of errors in the text of a model. -/
inductive ParseError.Kind
  | malformed
  | dimensionMismatch
  | redeclared
  | formula
  deriving DecidableEq, Repr

/-- The kind of an error, whatever texts it quotes. -/
def ParseError.kind : ParseError → ParseError.Kind
  | malformed _ => .malformed
  | dimensionMismatch _ => .dimensionMismatch
  | redeclared _ => .redeclared
  | formula _ _ => .formula

namespace Equation
variable {isFunction : String → Bool}

/-- What reading a scalar equation gives: the equation, or the kind of the error. -/
def reading (isFunction : String → Bool) (text : String) : Except ParseError.Kind Equation :=
  (ofText isFunction text).mapError ParseError.kind

/-- Texts are read alike when they have the same parts in normal form and no function in either, or in both, is applied
without parentheses. -/
theorem reading_congr {text text' : List Char}
    (hspaced : SpacedInText isFunction text ↔ SpacedInText isFunction text')
    (hparts : parts? (normalText isFunction text) = parts? (normalText isFunction text')) :
    reading isFunction (String.ofList text) = reading isFunction (String.ofList text') := by
  have hfound : (findSpacedFunction isFunction (tokens (canonicalText text))).isSome =
      (findSpacedFunction isFunction (tokens (canonicalText text'))).isSome :=
    Bool.eq_iff_iff.mpr (isSome_findSpacedFunction_iff.trans (hspaced.trans isSome_findSpacedFunction_iff.symm))
  simp only [reading, ofText, String.toList_ofList, hfound, hparts]
  split
  · rfl
  · cases parts? (normalText isFunction text') <;> rfl

/-! ### Parts -/

section
variable {name : List Char}

theorem sides?_eq {left right : List Char} (hleft : '=' ∉ left) :
    sides? (left ++ '=' :: right) =
      if left.isEmpty ∨ right.isEmpty ∨ right.contains '=' then none else some (left, right) := by
  rw [sides?, splitEquation_eq_some_iff.mpr ⟨rfl, hleft⟩]

/-- A derivative on the left defines its variable by what is on the right. -/
theorem parts?_derivative_left (hname : isIdentifier name = true) (right : List Char) :
    parts? (derivative name ++ '=' :: right) =
      if right.isEmpty ∨ right.contains '=' then none else some (.derivative, String.ofList name, right) := by
  have hequals : '=' ∉ derivative name := not_mem_derivative hname (by decide) (by decide)
  have hne : (derivative name).isEmpty = false := rfl
  rw [parts?, sides?_eq hequals, hne]
  by_cases hright : right.isEmpty ∨ right.contains '='
  · rw [if_pos hright, if_pos (.inr hright)]
  · rw [if_neg hright, if_neg (by simpa using hright)]
    simp [orient, classify?, derivativeOf?_derivative hname]

/-- A derivative on the right does so too, unless there is one on the left. -/
theorem parts?_derivative_right (hname : isIdentifier name = true) {left : List Char}
    (hleft : derivativeOf? left = none) :
    parts? (left ++ '=' :: derivative name) =
      if left.isEmpty ∨ left.contains '=' then none else some (.derivative, String.ofList name, left) := by
  have hequals : (derivative name).contains '=' = false := by
    simpa using not_mem_derivative hname (by decide : isIdentifierChar '=' = false) (by decide)
  have hne : (derivative name).isEmpty = false := rfl
  by_cases hmem : '=' ∈ left
  · -- The first sign of equality is on the left, and another one follows it.
    obtain ⟨before, after, rfl, hbefore⟩ := List.eq_append_cons_of_mem hmem
    have hsplit : (before ++ '=' :: after) ++ '=' :: derivative name =
        before ++ '=' :: (after ++ '=' :: derivative name) := by simp
    rw [parts?, hsplit, sides?_eq hbefore, if_pos (by simp), if_pos (by simp)]
  · rw [parts?, sides?_eq hmem, hne, hequals]
    by_cases hempty : left.isEmpty
    · simp [hempty]
    · rw [if_neg (by simpa using hempty), if_neg (by simpa using ⟨by simpa using hempty, hmem⟩)]
      simp [orient, classify?, hleft, derivativeOf?_derivative hname]

end

/-! ### Readings -/

/-- A side that is the derivative of a variable in its normal form, and has no parentheses but those of spellings. -/
structure IsDerivative (isFunction : String → Bool) (name side : List Char) : Prop where
  identifier : isIdentifier name = true
  normal : normalText isFunction side = derivative name
  unspaced : ¬ SpacedInText isFunction side
  apart : ∀ c ∈ plainText side, c ≠ '(' ∧ c ≠ ')'

theorem isDerivative_padded {name leading trailing : List Char} (hname : isIdentifier name = true)
    (hleading : allBlank leading = true) (htrailing : allBlank trailing = true) :
    IsDerivative isFunction name (leading ++ derivative name ++ trailing) where
  identifier := hname
  normal := (alike_padded hleading htrailing _).normal.trans (normalText_derivative hname)
  unspaced h := not_spacedInText_derivative hname ((alike_padded hleading htrailing _).spaced.mp h)
  apart c hc := by
    rw [sidewise_plainText.padded hleading htrailing, plainText_derivative hname] at hc
    have hblank {blanks : List Char} (h : allBlank blanks = true) {d : Char} (hd : isBlank d = false) : d ∉ blanks :=
      fun hmem => by simp [List.all_eq_true.mp h d hmem] at hd
    have hnot {d : Char} (hd : isBlank d = false) (hid : isIdentifierChar d = false) (hslash : d ≠ '/') : c ≠ d := by
      rintro rfl
      rcases List.mem_append.mp hc with hc | hc
      · rcases List.mem_append.mp hc with hc | hc
        · exact hblank hleading hd hc
        · exact not_mem_derivative hname hid hslash hc
      · exact hblank htrailing hd hc
    exact ⟨hnot (by decide) (by decide) (by decide), hnot (by decide) (by decide) (by decide)⟩

section
variable {name side side' expression expression' : List Char}

theorem IsDerivative.normalText_left (h : IsDerivative isFunction name side) (expression : List Char) :
    normalText isFunction (side ++ '=' :: expression) =
      derivative name ++ '=' :: normalText isFunction expression := by
  rw [normalText_equation (.inl fun hmem => (h.apart _ hmem).1 rfl), h.normal]

theorem IsDerivative.normalText_right (h : IsDerivative isFunction name side) (expression : List Char) :
    normalText isFunction (expression ++ '=' :: side) =
      normalText isFunction expression ++ '=' :: derivative name := by
  rw [normalText_equation (.inr fun hmem => (h.apart _ hmem).2 rfl), h.normal]

theorem IsDerivative.spacedInText_left (h : IsDerivative isFunction name side) (expression : List Char) :
    SpacedInText isFunction (side ++ '=' :: expression) ↔ SpacedInText isFunction expression := by
  rw [spacedInText_equation (.inl fun hmem => (h.apart _ hmem).1 rfl)]
  exact or_iff_right h.unspaced

theorem IsDerivative.spacedInText_right (h : IsDerivative isFunction name side) (expression : List Char) :
    SpacedInText isFunction (expression ++ '=' :: side) ↔ SpacedInText isFunction expression := by
  rw [spacedInText_equation (.inr fun hmem => (h.apart _ hmem).2 rfl)]
  exact or_iff_left h.unspaced

/-- With the derivative on the left, it is enough that the expressions are alike. -/
theorem reading_left (h : IsDerivative isFunction name side) (h' : IsDerivative isFunction name side')
    (alike : Alike isFunction expression expression') :
    reading isFunction (String.ofList (side ++ '=' :: expression)) =
      reading isFunction (String.ofList (side' ++ '=' :: expression')) := by
  refine reading_congr ?_ ?_
  · exact (h.spacedInText_left _).trans (alike.spaced.trans (h'.spacedInText_left _).symm)
  · rw [h.normalText_left, h'.normalText_left, alike.normal]

/-- It may also stand on the right, unless the expression is taken for a derivative. -/
theorem reading_right (h : IsDerivative isFunction name side) (h' : IsDerivative isFunction name side')
    (alike : Alike isFunction expression expression')
    (hderivative : derivativeOf? (normalText isFunction expression') = none) :
    reading isFunction (String.ofList (expression ++ '=' :: side)) =
      reading isFunction (String.ofList (side' ++ '=' :: expression')) := by
  refine reading_congr ?_ ?_
  · exact (h.spacedInText_right _).trans (alike.spaced.trans (h'.spacedInText_left _).symm)
  · rw [h.normalText_right, h'.normalText_left, alike.normal, parts?_derivative_right h.identifier hderivative,
      parts?_derivative_left h.identifier]

/-- With blanks around the sign of equality, a derivative on the right is read as on the left of an expression that is
alike. -/
theorem reading_spaced (hname : isIdentifier name = true) (alike : Alike isFunction expression expression')
    (hderivative : derivativeOf? (normalText isFunction expression') = none) :
    reading isFunction (String.ofList (expression ++ " = ".toList ++ derivative name)) =
      reading isFunction (String.ofList (derivative name ++ " = ".toList ++ expression')) := by
  have hleft : IsDerivative isFunction name ([] ++ derivative name ++ [' ']) :=
    isDerivative_padded hname rfl (by decide)
  have hright : IsDerivative isFunction name ([' '] ++ derivative name ++ []) :=
    isDerivative_padded hname (by decide) rfl
  have halike : Alike isFunction (expression ++ [' ']) (' ' :: expression') :=
    (alike_append_blank expression).trans (alike.trans (alike_blank_cons expression').symm)
  have hplain : derivativeOf? (normalText isFunction (' ' :: expression')) = none := by
    rw [(alike_blank_cons expression').normal, hderivative]
  have hread := reading_right hright hleft halike hplain
  simpa using hread

/-- On which side of the equation the derivative stands does not matter, unless the expression is taken for a
derivative. The expression can be any text: what is open in it at the sign of equality stays on its side. -/
theorem reading_oriented (hname : isIdentifier name = true)
    (hexpression : derivativeOf? (normalText isFunction expression) = none) :
    reading isFunction (String.ofList (expression ++ " = ".toList ++ derivative name)) =
      reading isFunction (String.ofList (derivative name ++ " = ".toList ++ expression)) :=
  reading_spaced hname (Alike.refl expression) hexpression

/-- An expression that is read, and two that are not: a group that is not closed, and a logarithm without a whole
argument. -/
theorem reading_oriented_unclosed :
    (∃ e, reading knownFunctions.contains "sigma (y - x) = dx/dt" = .ok e ∧
      reading knownFunctions.contains "dx/dt = sigma (y - x)" = .ok e ∧ e.source = "sigma*(y-x)") ∧
    (∃ kind, reading knownFunctions.contains "2 (y = dx/dt" = .error kind ∧
      reading knownFunctions.contains "dx/dt = 2 (y" = .error kind) ∧
    ∃ kind, reading knownFunctions.contains "log_2 (y = dx/dt" = .error kind ∧
      reading knownFunctions.contains "dx/dt = log_2 (y" = .error kind := by
  have hwhole : (reading knownFunctions.contains "dx/dt = sigma (y - x)").toOption.any (fun e =>
      e.source == "sigma*(y-x)") = true := by decide +kernel
  have hgroup : (reading knownFunctions.contains "dx/dt = 2 (y").toOption.isNone = true := by decide +kernel
  have hlogarithm : (reading knownFunctions.contains "dx/dt = log_2 (y").toOption.isNone = true := by decide +kernel
  obtain ⟨e, he, hsource⟩ := exists_ok_of_any hwhole
  obtain ⟨kind, hkind⟩ := exists_error_of_isNone hgroup
  obtain ⟨kind', hkind'⟩ := exists_error_of_isNone hlogarithm
  refine ⟨⟨e, .trans ?_ he, he, beq_iff_eq.mp hsource⟩, ⟨kind, .trans ?_ hkind, hkind⟩,
    ⟨kind', .trans ?_ hkind', hkind'⟩⟩
  · exact @reading_oriented knownFunctions.contains ['x'] "sigma (y - x)".toList rfl (by decide +kernel)
  · exact @reading_oriented knownFunctions.contains ['x'] "2 (y".toList rfl (by decide +kernel)
  · exact @reading_oriented knownFunctions.contains ['x'] "log_2 (y".toList rfl (by decide +kernel)

end

end Equation

end OdeSystem
