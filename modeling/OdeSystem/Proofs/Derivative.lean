import OdeSystem.Proofs.Notation.Spelling
import OdeSystem.Proofs.Orientation
import OdeSystem.Proofs.Reading

/-!
Equations for the derivative of a variable. However the derivative is spelled, and whatever the name of its variable
looks like, the equation is read as the one with the derivative in its one form.
-/

namespace OdeSystem.Equation

open Notation Text

variable {isFunction : String → Bool} {name spelling leading trailing : List Char}

theorem ofText_eq_ok_of_reading {text : String} {e : Equation} (h : reading isFunction text = .ok e) :
    ofText isFunction text = .ok e := by
  unfold reading at h
  cases hread : ofText isFunction text with
  | error err =>
    rw [hread] at h
    cases h
  | ok found =>
    rw [hread] at h
    cases h
    rfl

/-- Of a side only its derivatives in their one form matter. -/
theorem IsDerivative.congr {side side' : List Char} (h : IsDerivative isFunction name side')
    (hplain : plainText side = plainText side') : IsDerivative isFunction name side := by
  have hcanonical : canonicalText side = canonicalText side' := congrArg plainLogarithms hplain
  refine ⟨h.identifier, ?_, ?_, ?_⟩
  · rw [normalText, hcanonical, ← normalText, h.normal]
  · rw [SpacedInText, hcanonical]
    exact h.unspaced
  · rw [hplain]
    exact h.apart

theorem isDerivative_spelling (hname : isIdentifier name = true) (h : IsSpelling name spelling)
    (hleading : allBlank leading = true) (htrailing : allBlank trailing = true) :
    IsDerivative isFunction name (leading ++ spelling ++ trailing) := by
  refine (isDerivative_padded hname hleading htrailing).congr ?_
  rw [sidewise_plainText.padded hleading htrailing, sidewise_plainText.padded hleading htrailing,
    plainText_spelling hname h, plainText_derivative hname]

/-- What an equation with a derivative on its left defines. -/
theorem IsDerivative.of_reading {side expression : List Char} (h : IsDerivative isFunction name side) {e : Equation}
    (he : reading isFunction (String.ofList (side ++ '=' :: expression)) = .ok e) :
    e.kind = .derivative ∧ e.name = String.ofList name ∧
      e.source = String.ofList (normalText isFunction expression) := by
  obtain ⟨kind, found, right, formula, hparts, -, rfl⟩ := ofText_eq_ok (ofText_eq_ok_of_reading he)
  rw [String.toList_ofList, h.normalText_left, parts?_derivative_left h.identifier] at hparts
  split at hparts
  · cases hparts
  · cases hparts
    exact ⟨rfl, rfl, rfl⟩

/-- However the derivative of a variable is spelled, an equation for it is read as the one with the one form: both fail
alike, or both define the derivative of the variable by the normal form of the expression. -/
theorem reading_spelling (hname : isIdentifier name = true) (h : IsSpelling name spelling)
    (hleading : allBlank leading = true) (htrailing : allBlank trailing = true) (expression : List Char) :
    reading isFunction (String.ofList (leading ++ spelling ++ trailing ++ '=' :: expression)) =
      reading isFunction (String.ofList (derivative name ++ " = ".toList ++ expression)) ∧
    ∀ e, reading isFunction (String.ofList (leading ++ spelling ++ trailing ++ '=' :: expression)) = .ok e →
      e.kind = .derivative ∧ e.name = String.ofList name ∧
        e.source = String.ofList (normalText isFunction expression) := by
  have hside : IsDerivative isFunction name (leading ++ spelling ++ trailing) :=
    isDerivative_spelling hname h hleading htrailing
  have hplain : IsDerivative isFunction name ([] ++ derivative name ++ [' ']) :=
    isDerivative_padded hname rfl (by decide)
  have hsame := reading_left hside hplain (alike_blank_cons expression).symm
  exact ⟨by simpa using hsame, fun e he => hside.of_reading he⟩

/-- The variable may be named like a differential, so that its parentheses look like those of a numerator. -/
theorem reading_spelling_nested :
    ∃ e, reading knownFunctions.contains " d (dt) / ( d\tT ) =2 (y - dt)" = .ok e ∧
      reading knownFunctions.contains "ddt/dt = 2 (y - dt)" = .ok e ∧ e.name = "dt" ∧ e.source = "2*(y-dt)" := by
  have hnumerator : IsNumerator "dt".toList "d (dt)".toList :=
    .bare (@IsDifferential.applied _ [' '] [] [] (by decide) rfl rfl)
  have hover : IsOverTime " / ( d\tT )".toList :=
    @IsOverTime.over [' '] [' '] _ (by decide) (by decide)
      (@IsDenominator.wrapped [' '] ['\t'] [' '] 'T' (by decide) (by decide) (.inr rfl) (by decide))
  obtain ⟨hsame, hdefines⟩ := @reading_spelling knownFunctions.contains "dt".toList _ [' '] [' '] (by decide)
    (.over hnumerator hover) (by decide) (by decide) "2 (y - dt)".toList
  have hread : (reading knownFunctions.contains "ddt/dt = 2 (y - dt)").toOption.any (fun e =>
      e.source == "2*(y-dt)") = true := by decide +kernel
  obtain ⟨e, he, hsource⟩ := exists_ok_of_any hread
  have he' := hsame.trans he
  exact ⟨e, he', he, (hdefines e he').2.1, beq_iff_eq.mp hsource⟩

end OdeSystem.Equation
