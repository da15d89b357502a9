import OdeSystem.Number.Numeral
import OdeSystem.Proofs.Notation.Lookahead

/-!
Numbers as numerals. What notation takes for a number is read as a numeral: its digits before and behind the point are
the significand, and its exponent is that of the numeral, less one for each digit behind the point.
-/

namespace OdeSystem.Notation

open Text Number

variable {text digits fraction exponent : List Char}

theorem takeSign_of_head (hplus : text.head? ≠ some '+') (hminus : text.head? ≠ some '-') :
    takeSign text = (false, text) := by
  unfold takeSign
  split
  · exact absurd rfl hminus
  · exact absurd rfl hplus
  · rfl

/-- An exponent is read as one. -/
theorem IsNumber.exists_exponent (h : IsNumber digits fraction exponent) :
    ∃ e, exponent? exponent = some e ∧ (exponent = [] → e = 0) := by
  rcases h.exponent with rfl | ⟨e, sign, power, rfl, he, hsign, hne, hpower⟩
  · exact ⟨0, rfl, fun _ => rfl⟩
  · have hdigits : isDigits power = true := by
      rw [isDigits, List.all_eq_true.mpr hpower, Bool.and_true, Bool.not_eq_true', List.isEmpty_eq_false_iff]
      exact hne
    have hhead {c : Char} (hc : isAsciiDigit c = false) : power.head? ≠ some c := fun heq => by
      have := hpower c (List.mem_of_mem_head? heq)
      rw [hc] at this
      cases this
    have htake : (takeSign (sign ++ power)).2 = power := by
      rcases hsign with rfl | rfl | rfl
      · rw [List.nil_append, takeSign_of_head (hhead (by decide)) (hhead (by decide))]
      · rfl
      · rfl
    simp only [exponent?, if_pos he, htake, hdigits, if_true]
    exact ⟨_, rfl, fun hnil => absurd hnil (List.cons_ne_nil _ _)⟩

theorem magnitude?_whole (hdigits : ∀ c ∈ digits, isAsciiDigit c = true) (hne : digits ≠ [])
    (hdigit : exponent.head?.any isAsciiDigit = false) (hpoint : exponent.head? ≠ some '.') :
    magnitude? false (digits ++ exponent) = (exponent? exponent).map fun e => ⟨false, ofDigits digits, e⟩ := by
  obtain ⟨hwhole, hbehind⟩ := takeWhile_ended hdigits hdigit
  have hnil : digits.isEmpty = false := List.isEmpty_eq_false_iff.mpr hne
  unfold magnitude?
  rw [hwhole, hbehind]
  dsimp only
  split
  · exact absurd rfl hpoint
  · simp [hnil]

theorem magnitude?_point {places : List Char} (hdigits : ∀ c ∈ digits, isAsciiDigit c = true)
    (hplaces : ∀ c ∈ places, isAsciiDigit c = true) (hne : digits = [] → places ≠ [])
    (hdigit : exponent.head?.any isAsciiDigit = false) :
    magnitude? false (digits ++ '.' :: (places ++ exponent)) =
      (exponent? exponent).map fun e => ⟨false, ofDigits (digits ++ places), e - places.length⟩ := by
  have hends : ('.' :: (places ++ exponent)).head?.any isAsciiDigit = false := rfl
  obtain ⟨hwhole, hbehind⟩ := takeWhile_ended hdigits hends
  obtain ⟨hpart, hrest⟩ := takeWhile_ended hplaces hdigit
  have hnil : ¬ (digits.isEmpty = true ∧ places.isEmpty = true) := by
    simpa [List.isEmpty_iff] using hne
  unfold magnitude?
  simp only [hwhole, hbehind, hpart, hrest, if_neg hnil]

/-- The exponent of a number begins with a letter. -/
theorem IsNumber.exponent_head (h : IsNumber digits fraction exponent) :
    exponent.head?.any isAsciiDigit = false ∧ exponent.head? ≠ some '.' := by
  rcases h.exponent with rfl | ⟨c, sign, power, rfl, rfl | rfl, -⟩
  · exact ⟨rfl, nofun⟩
  · exact ⟨(show isAsciiDigit 'e' = false by decide), by simp⟩
  · exact ⟨(show isAsciiDigit 'E' = false by decide), by simp⟩

/-- What begins like a number has a digit before its point or behind it. -/
theorem IsNumber.exists_digit {c : Char} {inner : List Char} (h : IsNumber digits fraction exponent)
    (hbegins : (isAsciiDigit c || (c == '.' && startsWithDigit inner)) = true)
    (htext : c :: inner = digits ++ fraction ++ exponent) (hnil : digits = []) :
    ∃ d places, fraction = '.' :: d :: places := by
  subst hnil
  obtain ⟨hdigit, hpoint⟩ := h.exponent_head
  rw [List.nil_append] at htext
  rcases h.fraction with rfl | ⟨places, rfl, -⟩
  · rw [List.nil_append] at htext
    rw [← htext] at hdigit hpoint
    have hc : isAsciiDigit c = false := hdigit
    have hc' : c ≠ '.' := fun heq => hpoint (congrArg some heq)
    simp [hc, hc'] at hbegins
  · obtain ⟨rfl, rfl⟩ := List.cons.inj htext
    cases places with
    | cons d places => exact ⟨d, places, rfl⟩
    | nil =>
      have hstarts : startsWithDigit exponent = false := hdigit
      simp [hstarts, show isAsciiDigit '.' = false by decide] at hbegins

/-- A number has no sign. -/
theorem IsNumber.takeSign_eq (h : IsNumber digits fraction exponent)
    (hdigit : digits = [] → ∃ d places, fraction = '.' :: d :: places) :
    takeSign (digits ++ (fraction ++ exponent)) = (false, digits ++ (fraction ++ exponent)) := by
  have hnot {c : Char} (hc : isAsciiDigit c = false) (hpoint : c ≠ '.') :
      (digits ++ (fraction ++ exponent)).head? ≠ some c := by
    cases hdigits : digits with
    | nil =>
      obtain ⟨d, places, rfl⟩ := hdigit hdigits
      simpa using Ne.symm hpoint
    | cons d ds =>
      intro heq
      have hd := h.digits d (hdigits ▸ List.mem_cons_self ..)
      rw [Option.some.inj heq, hc] at hd
      cases hd
  exact takeSign_of_head (hnot (by decide) (by decide)) (hnot (by decide) (by decide))

/-- A number is read as a numeral. -/
theorem IsNumber.exists_numeral (h : IsNumber digits fraction exponent)
    (hdigit : digits = [] → ∃ d places, fraction = '.' :: d :: places) :
    ∃ significand e, Numeral.ofText? (digits ++ fraction ++ exponent) = some ⟨false, significand, e⟩ ∧
      (fraction = [] → exponent = [] → significand = ofDigits digits ∧ e = 0) := by
  obtain ⟨e, he, hzero⟩ := h.exists_exponent
  obtain ⟨hexponent, hpoint⟩ := h.exponent_head
  have hread : Numeral.ofText? (digits ++ (fraction ++ exponent)) =
      magnitude? false (digits ++ (fraction ++ exponent)) := by
    unfold Numeral.ofText?
    rw [h.takeSign_eq hdigit]
  rw [List.append_assoc, hread]
  rcases h.fraction with rfl | ⟨places, rfl, hplaces⟩
  · have hne : digits ≠ [] := fun hnil => by
      obtain ⟨d, places, hfraction⟩ := hdigit hnil
      cases hfraction
    refine ⟨ofDigits digits, e, ?_, fun _ hnone => ⟨rfl, hzero hnone⟩⟩
    rw [List.nil_append, magnitude?_whole h.digits hne hexponent hpoint, he]
    rfl
  · have hne : digits = [] → places ≠ [] := fun hnil hnil' => by
      obtain ⟨d, places', hfraction⟩ := hdigit hnil
      cases hfraction
      cases hnil'
    refine ⟨ofDigits (digits ++ places), e - places.length, ?_, fun hnone => absurd hnone (List.cons_ne_nil _ _)⟩
    rw [List.cons_append, magnitude?_point h.digits hplaces hne hexponent, he]
    rfl

end OdeSystem.Notation
