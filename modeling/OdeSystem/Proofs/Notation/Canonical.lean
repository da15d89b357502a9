import OdeSystem.Proofs.Notation.Logarithm

/-!
Canonical notation of the sides of an equation. Blanks around a text stay around it, the sides are rewritten apart
unless a group reaches from one into the other, and the one form of a derivative is left as it is.
-/

namespace OdeSystem.Notation

open Text

/-- The text with plain minus signs and derivatives: what logarithms are searched in. -/
def plainText (text : List Char) : List Char := plainDerivatives (plainMinus text)

theorem eq_of_isDash {c : Char} (h : isDash c = true) : c = '\u2013' ∨ c = '\u2014' ∨ c = '\u2212' := by
  simpa [isDash, or_assoc] using h

theorem isDash_of_isSeparator {c : Char} (h : isSeparator c = true) : isDash c = false := by
  cases hdash : isDash c with
  | false => rfl
  | true =>
    rcases eq_of_isDash hdash with rfl | rfl | rfl <;> cases h

theorem isDash_of_isIdentifierChar {c : Char} (h : isIdentifierChar c = true) : isDash c = false := by
  cases hdash : isDash c with
  | false => rfl
  | true =>
    rcases eq_of_isDash hdash with rfl | rfl | rfl <;> cases h

theorem sidewise_plainText : Sidewise plainText :=
  (sidewise_map fun hc => by rw [isDash_of_isSeparator hc]; rfl).comp sidewise_plainDerivatives

theorem canonicalText_equation {left right : List Char} (apart : '(' ∉ plainText left ∨ ')' ∉ plainText right) :
    canonicalText (left ++ '=' :: right) = canonicalText left ++ '=' :: canonicalText right := by
  have hmore : '(' ∉ plainText left ∨ ')' ∉ '=' :: plainText right :=
    apart.imp_right fun hclosing => by simpa using hclosing
  change plainLogarithms (plainText (left ++ '=' :: right)) = _
  rw [sidewise_plainText.equation, plainLogarithms_append hmore (endsSide_equals _)]
  exact congrArg (canonicalText left ++ ·) (plainLogarithmsFrom_separator (by decide) none _)

theorem canonicalText_padded {leading trailing : List Char} (hleading : allBlank leading = true)
    (htrailing : allBlank trailing = true) (text : List Char) :
    canonicalText (leading ++ text ++ trailing) = leading ++ canonicalText text ++ trailing := by
  have hclosing : ')' ∉ trailing := fun hmem => by
    have := List.all_eq_true.mp htrailing ')' hmem
    revert this
    decide
  change plainLogarithms (plainText (leading ++ text ++ trailing)) = _
  rw [sidewise_plainText.padded hleading htrailing, List.append_assoc, plainLogarithms,
    ← plainLogarithmsFrom, plainLogarithmsFrom_blanks hleading]
  change leading ++ plainLogarithms (plainText text ++ trailing) = _
  have htail : plainLogarithms trailing = trailing := by
    have := plainLogarithmsFrom_blanks htrailing []
    rw [List.append_nil] at this
    exact this.trans (List.append_nil _)
  rw [plainLogarithms_append (.inr hclosing) (endsSide_of_allBlank htrailing), htail, ← List.append_assoc]
  rfl

/-! ### Derivatives in their one form -/

theorem replaceFrom_eq_self {find : Finder} {text : List Char}
    (nowhere : ∀ before c rest, c :: rest <:+ text → find before c rest = none) (before : Option Char) :
    replaceFrom find before text = text := by
  induction text generalizing before with
  | nil => rfl
  | cons c rest ih =>
    rw [replaceFrom, pieces_cons, replaceRule, nowhere before c rest (List.suffix_refl _)]
    refine congrArg (c :: ·) (ih (fun before d rest' hsuffix => ?_) _)
    exact nowhere before d rest' (hsuffix.trans (List.suffix_cons ..))

theorem takeWrapped_eq_none {text : List Char} (h : '(' ∉ text) : takeWrapped text = none := by
  cases hfound : expect '(' text with
  | none => simp [takeWrapped, hfound]
  | some rest => exact absurd (mem_of_expect hfound) h

theorem takeApplied_eq_none {text : List Char} (h : '(' ∉ text) : takeApplied text = none := by
  cases hd : expect 'd' text with
  | none => simp [takeApplied, hd]
  | some rest =>
    cases hfound : expectSpaced '(' rest with
    | none => simp [takeApplied, hd, hfound]
    | some rest' => exact absurd ((expect_suffix hd).subset (mem_of_expectSpaced hfound)) h

theorem takePlain_eq_none {text : List Char} (h : '/' ∉ text) : takePlain text = none := by
  cases hfound : takePlain text with
  | none => rfl
  | some found =>
    simp only [takePlain, takeOverTime, Option.bind_eq_bind, Option.bind_eq_some_iff] at hfound
    obtain ⟨r₁, h₁, ⟨name, r₂⟩, h₂, r₃, ⟨r₄, h₄, -⟩, -⟩ := hfound
    have hsuffix : r₂ <:+ text :=
      (takeName_suffix h₂).trans ((List.dropWhile_suffix _).trans (expect_suffix h₁))
    exact absurd (hsuffix.subset (mem_of_expectSpaced h₄)) h

theorem plainMinus_eq_self {text : List Char} (hdash : ∀ c ∈ text, isDash c = false) : plainMinus text = text := by
  refine (List.map_congr_left fun c hc => ?_).trans (List.map_id _)
  simp [hdash c hc]

/-- Where there are neither dashes nor parentheses, only derivatives without parentheses are rewritten. -/
theorem plainText_eq {text : List Char} (hdash : ∀ c ∈ text, isDash c = false) (hopen : '(' ∉ text) :
    plainText text = replaceAll (derivativeFinder true takePlain) text := by
  have hwrapped : replaceAll (derivativeFinder false takeWrapped) text = text := by
    refine replaceFrom_eq_self (fun before c rest hsuffix => ?_) none
    simp [derivativeFinder, takeWrapped_eq_none fun hmem => hopen (hsuffix.subset hmem)]
  have happlied : replaceAll (derivativeFinder true takeApplied) text = text := by
    refine replaceFrom_eq_self (fun before c rest hsuffix => ?_) none
    simp [derivativeFinder, takeApplied_eq_none fun hmem => hopen (hsuffix.subset hmem)]
  rw [plainText, plainDerivatives, plainMinus_eq_self hdash, hwrapped, happlied]

theorem plainText_eq_self {text : List Char} (hdash : ∀ c ∈ text, isDash c = false) (hopen : '(' ∉ text)
    (hslash : '/' ∉ text) : plainText text = text := by
  rw [plainText_eq hdash hopen]
  refine replaceFrom_eq_self (fun before c rest hsuffix => ?_) none
  simp [derivativeFinder, takePlain_eq_none fun hmem => hslash (hsuffix.subset hmem)]

section
variable {name : List Char}

theorem not_mem_derivative (hname : isIdentifier name = true) {c : Char} (hc : isIdentifierChar c = false)
    (hslash : c ≠ '/') : c ∉ derivative name := by
  have hd : c ≠ 'd' := fun heq => by rw [heq] at hc; revert hc; decide
  have ht : c ≠ 't' := fun heq => by rw [heq] at hc; revert hc; decide
  simp [derivative, not_mem_of_isIdentifier hname hc, hslash, hd, ht]

theorem isDash_of_mem_derivative (hname : isIdentifier name = true) : ∀ c ∈ derivative name, isDash c = false := by
  intro c hc
  by_cases hid : isIdentifierChar c = true
  · exact isDash_of_isIdentifierChar hid
  · have hslash : c = '/' := by
      by_contra hne
      exact not_mem_derivative hname (by simpa using hid) hne hc
    rw [hslash]
    decide

theorem plainText_derivative (hname : isIdentifier name = true) : plainText (derivative name) = derivative name := by
  have hopen : '(' ∉ derivative name := not_mem_derivative hname (by decide) (by decide)
  have hplain : replaceAll (derivativeFinder true takePlain) (derivative name) = derivative name := by
    have hfound : derivativeFinder true takePlain none 'd' (name ++ ['/', 'd', 't']) =
        some (derivative name, (name ++ ['/', 'd', 't']).length) := by
      have hword : isWord 'd' = true := isWord_of_isIdentifierChar (by decide)
      have := takePlain_derivative hname
      rw [derivative, List.cons_append] at this
      simp [derivativeFinder, atBoundary, hword, this]
    rw [replaceAll_eq, replaceFrom, derivative, List.cons_append, pieces_cons, replaceRule, hfound]
    simp [derivative]
  rw [plainText_eq (isDash_of_mem_derivative hname) hopen, hplain]

theorem canonicalText_derivative (hname : isIdentifier name = true) :
    canonicalText (derivative name) = derivative name := by
  have hword : ∀ c ∈ name, isWord c = true := fun c hc =>
    isWord_of_isIdentifierChar (isIdentifierChar_of_mem hname c hc)
  obtain ⟨last, hinside⟩ := plainLogarithmsFrom_word (w := 'd') (isWord_of_isIdentifierChar (by decide)) hword ['/', 'd', 't']
  have hbehind (before : Option Char) : plainLogarithmsFrom before ['/', 'd', 't'] = ['/', 'd', 't'] := by
    rw [plainLogarithmsFrom_cons_of_ne (by decide), plainLogarithmsFrom_cons_of_ne (by decide),
      plainLogarithmsFrom_cons_of_ne (by decide)]
    rfl
  change plainLogarithms (plainText (derivative name)) = _
  rw [plainText_derivative hname, derivative, List.cons_append]
  refine (plainLogarithmsFrom_cons_of_ne (by decide) none _).trans ?_
  rw [hinside, hbehind]

end

end OdeSystem.Notation
