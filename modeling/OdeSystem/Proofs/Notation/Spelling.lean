import OdeSystem.Proofs.Notation.Name

/-!
Spellings of the derivative of a variable. The numerator may stand in parentheses, and so may the variable in it and
the denominator; blanks may stand between all of their parts, and time may be written with a capital. Each of the
three searches knows some of these spellings, and what an earlier one makes of a spelling is known to the next.
-/

namespace OdeSystem.Notation

open Text

/-- The differential of a variable: `dx`, `d x` or `d(x)`. -/
inductive IsDifferential (name : List Char) : List Char → Prop
  | plain {b : List Char} (hb : allBlank b = true) : IsDifferential name ('d' :: (b ++ name))
  | applied {b₁ b₂ b₃ : List Char} (h₁ : allBlank b₁ = true) (h₂ : allBlank b₂ = true) (h₃ : allBlank b₃ = true) :
    IsDifferential name ('d' :: (b₁ ++ '(' :: (b₂ ++ (name ++ (b₃ ++ [')'])))))

/-- The numerator of a derivative: a differential, perhaps in parentheses. -/
inductive IsNumerator (name : List Char) : List Char → Prop
  | bare {text : List Char} (h : IsDifferential name text) : IsNumerator name text
  | wrapped {b₁ b₂ text : List Char} (h₁ : allBlank b₁ = true) (h : IsDifferential name text)
    (h₂ : allBlank b₂ = true) : IsNumerator name ('(' :: (b₁ ++ (text ++ (b₂ ++ [')']))))

/-- The denominator of a derivative: the differential of time, perhaps in parentheses. -/
inductive IsDenominator : List Char → Prop
  | bare {b : List Char} {time : Char} (hb : allBlank b = true) (ht : time = 't' ∨ time = 'T') :
    IsDenominator ('d' :: (b ++ [time]))
  | wrapped {b₁ b₂ b₃ : List Char} {time : Char} (h₁ : allBlank b₁ = true) (h₂ : allBlank b₂ = true)
    (ht : time = 't' ∨ time = 'T') (h₃ : allBlank b₃ = true) :
    IsDenominator ('(' :: (b₁ ++ 'd' :: (b₂ ++ time :: (b₃ ++ [')']))))

/-- What stands behind the numerator of a derivative: the line of the fraction and the denominator. -/
inductive IsOverTime : List Char → Prop
  | over {b₁ b₂ denominator : List Char} (h₁ : allBlank b₁ = true) (h₂ : allBlank b₂ = true)
    (h : IsDenominator denominator) : IsOverTime (b₁ ++ '/' :: (b₂ ++ denominator))

/-- A spelling of the derivative of a variable. -/
inductive IsSpelling (name : List Char) : List Char → Prop
  | over {numerator overTime : List Char} (h : IsNumerator name numerator) (h' : IsOverTime overTime) :
    IsSpelling name (numerator ++ overTime)

/-! ### Readers behind blanks -/

section
variable {b : List Char} (hb : allBlank b = true)
include hb

theorem trimLeft_blanks {c : Char} (hc : isBlank c = false) (rest : List Char) :
    trimLeft (b ++ c :: rest) = c :: rest := by
  rw [trimLeft_append_of_eq_nil (trimLeft_eq_nil_iff.mpr hb), trimLeft_cons_of_not_isBlank hc]

theorem expectSpaced_blanks {c : Char} (hc : isBlank c = false) (rest : List Char) :
    expectSpaced c (b ++ c :: rest) = some rest := by
  simp [expectSpaced, trimLeft_blanks hb hc, expect]

theorem acceptSpaced_blanks {c : Char} (hc : isBlank c = false) (rest : List Char) :
    acceptSpaced c (b ++ c :: rest) = rest := by
  simp [acceptSpaced, trimLeft_blanks hb hc, accept, expect]

theorem acceptSpaced_blanks_of_ne {c d : Char} (hd : isBlank d = false) (hne : d ≠ c) (rest : List Char) :
    acceptSpaced c (b ++ d :: rest) = d :: rest := by
  simp [acceptSpaced, trimLeft_blanks hb hd, accept, expect, hne]

theorem head_blanks {c : Char} (hc : isWord c = false) (rest : List Char) :
    (b ++ c :: rest).head?.any isWord = false :=
  head_behind_blanks (fun h => isWord_of_isSeparator (isSeparator_of_isBlank h)) hb fun _ => hc

theorem takeNameSpaced_blanks {name rest : List Char} (hname : isIdentifier name = true)
    (hrest : rest.head?.any isWord = false) : takeNameSpaced (b ++ (name ++ rest)) = some (name, rest) := by
  rw [takeNameSpaced, trimLeft_append_of_eq_nil (trimLeft_eq_nil_iff.mpr hb), trimLeft_identifier hname,
    takeName_append hname hrest]

theorem takeTime_blanks {time : Char} (ht : time = 't' ∨ time = 'T') (rest : List Char) :
    takeTime (trimLeft (b ++ time :: rest)) = some rest := by
  have hblank : isBlank time = false := by rcases ht with rfl | rfl <;> decide
  rw [trimLeft_blanks hb hblank, takeTime_cons, if_pos ht]

/-- No blank is one of the other characters. -/
theorem not_mem_blanks {c : Char} (hc : isBlank c = false) : c ∉ b := fun hmem => by
  rw [List.all_eq_true.mp hb c hmem] at hc
  cases hc

end

/-! ### The line of the fraction -/

theorem takeDenominator_of_isDenominator {denominator : List Char} (h : IsDenominator denominator) :
    takeDenominator denominator = some [] := by
  cases h with
  | bare hb ht => simp [takeDenominator_cons, takeTime_blanks hb ht]
  | wrapped h₁ h₂ ht h₃ =>
    simp [takeDenominator_cons, expectSpaced_blanks h₁ (show isBlank 'd' = false by decide), takeTime_blanks h₂ ht,
      expectSpaced_blanks h₃ (show isBlank ')' = false by decide)]

theorem trimLeft_denominator {b denominator : List Char} (hb : allBlank b = true) (h : IsDenominator denominator) :
    trimLeft (b ++ denominator) = denominator := by
  cases h with
  | bare => exact trimLeft_blanks hb (by decide) _
  | wrapped => exact trimLeft_blanks hb (by decide) _

theorem line_not_mem_denominator {denominator : List Char} (h : IsDenominator denominator) : '/' ∉ denominator := by
  have hblank {b : List Char} (hb : allBlank b = true) : '/' ∉ b := not_mem_blanks hb (by decide)
  cases h with
  | bare hb ht => rcases ht with rfl | rfl <;> simp [hblank hb]
  | wrapped h₁ h₂ ht h₃ => rcases ht with rfl | rfl <;> simp [hblank h₁, hblank h₂, hblank h₃]

namespace IsOverTime
variable {text : List Char}

theorem takeOverTime_eq (h : IsOverTime text) : takeOverTime text = some [] := by
  obtain ⟨h₁, h₂, h⟩ := h
  simp [takeOverTime, expectSpaced_blanks h₁ (show isBlank '/' = false by decide), trimLeft_denominator h₂ h,
    takeDenominator_of_isDenominator h]

theorem head (h : IsOverTime text) : text.head?.any isWord = false := by
  obtain ⟨h₁, -, -⟩ := h
  exact head_blanks h₁ (isWord_of_isPunctuation (by decide)) _

/-- Behind a numerator an opening parenthesis stands in the denominator only, and the line only before it. -/
theorem line (h : IsOverTime text) : ∃ front back, text = front ++ '/' :: back ∧ '(' ∉ front ∧ '/' ∉ back := by
  obtain ⟨h₁, h₂, h⟩ := h
  refine ⟨_, _, rfl, not_mem_blanks h₁ (by decide), ?_⟩
  simp [not_mem_blanks h₂ (show isBlank '/' = false by decide), line_not_mem_denominator h]

/-- Blanks before the line do not matter. -/
theorem trimLeft (h : IsOverTime text) : ∃ rest, trimLeft text = '/' :: rest ∧ IsOverTime ('/' :: rest) := by
  obtain ⟨h₁, h₂, h⟩ := h
  exact ⟨_, trimLeft_blanks h₁ (by decide) _, @IsOverTime.over [] _ _ rfl h₂ h⟩

end IsOverTime

/-- The denominator of the one form. -/
theorem isOverTime_plain : IsOverTime ['/', 'd', 't'] :=
  @IsOverTime.over [] [] _ rfl rfl (@IsDenominator.bare [] _ rfl (.inl rfl))

/-! ### What each search knows -/

section
variable {name overTime : List Char} (hname : isIdentifier name = true)
include hname

theorem acceptSpaced_identifier {b : List Char} (hb : allBlank b = true) (rest : List Char) :
    acceptSpaced '(' (b ++ (name ++ rest)) = name ++ rest := by
  cases name with
  | nil => cases hname
  | cons c tail =>
    have hc : isIdentifierChar c = true := isIdentifierChar_of_mem hname c (List.mem_cons_self ..)
    exact acceptSpaced_blanks_of_ne hb (isBlank_of_isIdentifierChar hc) (ne_of_isIdentifierChar hc (by decide)) _

variable (hover : IsOverTime overTime)
include hover

theorem takePlain_eq {b : List Char} (hb : allBlank b = true) :
    takePlain ('d' :: (b ++ (name ++ overTime))) = some (name, []) := by
  simp [takePlain, expect, takeNameSpaced_blanks hb hname hover.head, hover.takeOverTime_eq]

theorem takeApplied_eq {b₁ b₂ b₃ : List Char} (h₁ : allBlank b₁ = true) (h₂ : allBlank b₂ = true)
    (h₃ : allBlank b₃ = true) :
    takeApplied ('d' :: (b₁ ++ '(' :: (b₂ ++ (name ++ (b₃ ++ ')' :: overTime))))) = some (name, []) := by
  have hclosing : isWord ')' = false := isWord_of_isPunctuation (by decide)
  simp [takeApplied, expect, expectSpaced_blanks h₁ (show isBlank '(' = false by decide),
    takeNameSpaced_blanks h₂ hname (head_blanks h₃ hclosing overTime),
    expectSpaced_blanks h₃ (show isBlank ')' = false by decide), hover.takeOverTime_eq]

theorem takeWrapped_eq {b₁ b₂ numerator : List Char} (h₁ : allBlank b₁ = true) (h : IsDifferential name numerator)
    (h₂ : allBlank b₂ = true) :
    takeWrapped ('(' :: (b₁ ++ (numerator ++ (b₂ ++ ')' :: overTime)))) = some (name, []) := by
  have hclosing : isWord ')' = false := isWord_of_isPunctuation (by decide)
  have hblank : isBlank ')' = false := by decide
  obtain ⟨rest, htrim, hline⟩ := hover.trimLeft
  have haccept : acceptSpaced ')' overTime = '/' :: rest := by simp [acceptSpaced, htrim, accept, expect]
  have htake {b behind : List Char} (hb : allBlank b = true) (hbehind : behind.head?.any isWord = false) :
      takeNameSpaced (b ++ (name ++ behind)) = some (name, behind) := takeNameSpaced_blanks hb hname hbehind
  cases h with
  | plain hb =>
    have hnext := @htake [] _ rfl (head_blanks h₂ hclosing overTime)
    rw [List.nil_append] at hnext
    simp [takeWrapped, expect, expectSpaced_blanks h₁ (show isBlank 'd' = false by decide),
      acceptSpaced_identifier hname hb, hnext, expectSpaced_blanks h₂ hblank, haccept, hline.takeOverTime_eq]
  | applied hb hb' hb'' =>
    simp [takeWrapped, expect, expectSpaced_blanks h₁ (show isBlank 'd' = false by decide),
      acceptSpaced_blanks hb (show isBlank '(' = false by decide), htake hb' (head_blanks hb'' hclosing _),
      expectSpaced_blanks hb'' hblank, acceptSpaced_blanks h₂ hblank, hover.takeOverTime_eq]

end

/-- The parentheses around a variable are not read as those of a numerator, unless the variable looks like a
differential itself. -/
theorem takeWrapped_eq_none_of_applied {name b b' : List Char} (hname : isIdentifier name = true)
    (hb : allBlank b = true) (hb' : allBlank b' = true) (rest : List Char)
    (hnone : ∀ inner, name = 'd' :: inner → isIdentifier inner = false) :
    takeWrapped ('(' :: (b ++ (name ++ (b' ++ ')' :: rest)))) = none := by
  have hchar := isIdentifierChar_of_mem hname
  cases name with
  | nil => cases hname
  | cons c tail =>
    have hblank : isBlank c = false := isBlank_of_isIdentifierChar (hchar c (List.mem_cons_self ..))
    by_cases hc : c = 'd'
    · subst hc
      have hinner : takeNameSpaced (acceptSpaced '(' (tail ++ (b' ++ ')' :: rest))) = none := by
        cases tail with
        | nil =>
          rw [List.nil_append, acceptSpaced_blanks_of_ne hb' (by decide) (by decide)]
          rfl
        | cons x tail =>
          have hx : isIdentifierChar x = true := hchar x (by simp)
          have hstart : isNameStart x = false := by
            have := hnone (x :: tail) rfl
            simp only [isIdentifier, Bool.and_eq_false_iff] at this
            refine this.resolve_right fun hall => ?_
            rw [List.all_eq_true.mpr fun d hd => hchar d (by simp [hd])] at hall
            cases hall
          have haccept := @acceptSpaced_blanks_of_ne [] rfl _ _ (isBlank_of_isIdentifierChar hx)
            (ne_of_isIdentifierChar hx (by decide : isIdentifierChar '(' = false)) (tail ++ (b' ++ ')' :: rest))
          rw [List.nil_append] at haccept
          rw [List.cons_append, haccept, takeNameSpaced, trimLeft_cons_of_not_isBlank (isBlank_of_isIdentifierChar hx),
            takeName, if_neg (by simp [hstart])]
      simp [takeWrapped, expect, expectSpaced_blanks hb (show isBlank 'd' = false by decide), hinner]
    · simp [takeWrapped, expect, expectSpaced, trimLeft_blanks hb hblank, hc]

/-! ### Where a search finds nothing -/

theorem eq_append_of_expectSpaced {c : Char} {text rest : List Char} (h : expectSpaced c text = some rest) :
    ∃ b, allBlank b = true ∧ text = b ++ c :: rest := by
  obtain ⟨b, hb, htext⟩ := exists_blanks_append_trimLeft text
  exact ⟨b, hb, htext.trans (congrArg (b ++ ·) (eq_cons_of_expect h))⟩

theorem expectSpaced_suffix {c : Char} {text rest : List Char} (h : expectSpaced c text = some rest) : rest <:+ text :=
  (expect_suffix h).trans (List.dropWhile_suffix _)

theorem acceptSpaced_suffix (c : Char) (text : List Char) : acceptSpaced c text <:+ text :=
  (accept_suffix ..).trans (List.dropWhile_suffix _)

theorem takeNameSpaced_suffix {text name rest : List Char} (h : takeNameSpaced text = some (name, rest)) :
    rest <:+ text :=
  (takeName_suffix h).trans (List.dropWhile_suffix _)

theorem line_of_takeOverTime {text rest : List Char} (h : takeOverTime text = some rest) :
    ∃ front back, text = front ++ '/' :: back := by
  simp only [takeOverTime, Option.bind_eq_bind, Option.bind_eq_some_iff] at h
  obtain ⟨rest, hline, -⟩ := h
  exact List.append_of_mem (mem_of_expectSpaced hline)

/-- Before the line of a derivative that is read with parentheses around its numerator, one has been opened. -/
theorem line_of_takeWrapped {text name behind : List Char} (h : takeWrapped text = some (name, behind)) :
    ∃ front back, text = front ++ '/' :: back ∧ '(' ∈ front := by
  simp only [takeWrapped, Option.bind_eq_bind, Option.bind_eq_some_iff] at h
  obtain ⟨r₁, h₁, r₂, h₂, ⟨name, r₃⟩, h₃, r₄, h₄, r₅, h₅, -⟩ := h
  obtain ⟨front, back, hline⟩ := line_of_takeOverTime h₅
  have hsuffix : acceptSpaced ')' r₄ <:+ r₁ :=
    (acceptSpaced_suffix ..).trans ((expectSpaced_suffix h₄).trans ((takeNameSpaced_suffix h₃).trans
      ((acceptSpaced_suffix ..).trans (expectSpaced_suffix h₂))))
  obtain ⟨skipped, rfl⟩ := hsuffix
  refine ⟨'(' :: skipped ++ front, back, ?_, by simp⟩
  rw [eq_cons_of_expect h₁, hline]
  simp

/-- The same for one with parentheses around its variable. -/
theorem line_of_takeApplied {text name behind : List Char} (h : takeApplied text = some (name, behind)) :
    ∃ front back, text = front ++ '/' :: back ∧ '(' ∈ front := by
  simp only [takeApplied, Option.bind_eq_bind, Option.bind_eq_some_iff] at h
  obtain ⟨r₁, h₁, r₂, h₂, ⟨name, r₃⟩, h₃, r₄, h₄, r₅, h₅, -⟩ := h
  obtain ⟨front, back, hline⟩ := line_of_takeOverTime h₅
  obtain ⟨blanks, -, hopen⟩ := eq_append_of_expectSpaced h₂
  obtain ⟨skipped, rfl⟩ : r₄ <:+ r₂ := (expectSpaced_suffix h₄).trans (takeNameSpaced_suffix h₃)
  refine ⟨'d' :: (blanks ++ '(' :: skipped) ++ front, back, ?_, by simp⟩
  rw [eq_cons_of_expect h₁, hopen, hline]
  simp

/-- Where no parenthesis stands open before the only line, none of these is read. -/
theorem eq_none_of_line {take : List Char → Option (List Char × List Char)}
    (hline : ∀ {text name behind}, take text = some (name, behind) →
      ∃ front back, text = front ++ '/' :: back ∧ '(' ∈ front)
    {front back text : List Char} (hopen : '(' ∉ front) (hback : '/' ∉ back) (hsuffix : text <:+ front ++ '/' :: back) :
    take text = none := by
  cases hfound : take text with
  | none => rfl
  | some found =>
    obtain ⟨front', back', rfl, hmem⟩ := hline hfound
    obtain ⟨skipped, heq⟩ := hsuffix
    rw [← List.append_assoc] at heq
    rcases List.append_eq_append_iff.mp heq with ⟨between, hfront, -⟩ | ⟨between, hfront, htail⟩
    · exact absurd (hfront ▸ List.mem_append_left _ (List.mem_append_right _ hmem)) hopen
    · cases between with
      | nil => exact absurd (List.append_nil front ▸ hfront ▸ List.mem_append_right _ hmem) hopen
      | cons c between =>
        obtain ⟨-, rfl⟩ := List.cons.inj htail
        exact absurd (List.mem_append_right _ (List.mem_cons_self ..)) hback

/-! ### From a spelling to the one form -/

/-- What a search finds at the front of a text and reaches to its end is all there is. -/
theorem replaceAll_whole {atWord : Bool} {take : List Char → Option (List Char × List Char)} {c : Char}
    {name rest : List Char} (hword : atWord = true → isWord c = true) (htake : take (c :: rest) = some (name, [])) :
    replaceAll (derivativeFinder atWord take) (c :: rest) = derivative name := by
  have hboundary : (atWord && !atBoundary none (c :: rest)) = false := by
    cases atWord with
    | false => rfl
    | true => simp [atBoundary, hword rfl]
  have hfound : derivativeFinder atWord take none c rest = some (derivative name, rest.length) := by
    simp [derivativeFinder, hboundary, htake]
  rw [replaceAll_eq, replaceFrom, pieces_cons, replaceRule, hfound]
  simp

theorem replaceAll_eq_self {atWord : Bool} {take : List Char → Option (List Char × List Char)} {text : List Char}
    (nowhere : ∀ rest, rest <:+ text → take rest = none) : replaceAll (derivativeFinder atWord take) text = text := by
  refine replaceFrom_eq_self (fun before c rest hsuffix => ?_) none
  simp [derivativeFinder, nowhere _ hsuffix]

/-- A search that is not bound to words does not look at the character before. -/
theorem replaceFrom_unbound {take : List Char → Option (List Char × List Char)} (before : Option Char)
    (text : List Char) :
    replaceFrom (derivativeFinder false take) before text = replaceAll (derivativeFinder false take) text := by
  cases text with
  | nil => rfl
  | cons c rest =>
    rw [replaceAll_eq, replaceFrom, replaceFrom, pieces_cons, pieces_cons]
    rfl

theorem replaceWrapped_cons {c : Char} {rest : List Char} (hnone : takeWrapped (c :: rest) = none) :
    replaceAll (derivativeFinder false takeWrapped) (c :: rest) =
      c :: replaceAll (derivativeFinder false takeWrapped) rest := by
  have hfind : derivativeFinder false takeWrapped none c rest = none := by simp [derivativeFinder, hnone]
  rw [replaceAll_eq, replaceFrom, pieces_cons, replaceRule, hfind]
  exact congrArg (c :: ·) (replaceFrom_unbound (some c) rest)

/-- The search for numerators in parentheses passes over what has none. -/
theorem replaceWrapped_append {front : List Char} (hopen : '(' ∉ front) (rest : List Char) :
    replaceAll (derivativeFinder false takeWrapped) (front ++ rest) =
      front ++ replaceAll (derivativeFinder false takeWrapped) rest := by
  induction front with
  | nil => rfl
  | cons c front ih =>
    obtain ⟨hc, hfront⟩ := not_or.mp (List.mem_cons.not.mp hopen)
    have hnone : takeWrapped (c :: (front ++ rest)) = none := by simp [takeWrapped, expect, Ne.symm hc]
    rw [List.cons_append, replaceWrapped_cons hnone, ih hfront, List.cons_append]

section
variable {name overTime : List Char} (hname : isIdentifier name = true)
include hname

/-- The last search leaves the one form as it is. -/
theorem replacePlain_derivative : replaceAll (derivativeFinder true takePlain) (derivative name) = derivative name :=
  replaceAll_whole (fun _ => isWord_of_isIdentifierChar (by decide)) (takePlain_derivative hname)

variable (hover : IsOverTime overTime)
include hover

/-- A derivative without parentheses in its numerator is left to the last search. -/
theorem replaceAll_plain {take : List Char → Option (List Char × List Char)}
    (hline : ∀ {text name behind}, take text = some (name, behind) →
      ∃ front back, text = front ++ '/' :: back ∧ '(' ∈ front)
    (atWord : Bool) {b : List Char} (hb : allBlank b = true) :
    replaceAll (derivativeFinder atWord take) ('d' :: (b ++ (name ++ overTime))) =
      'd' :: (b ++ (name ++ overTime)) := by
  obtain ⟨front, back, rfl, hopen, hback⟩ := hover.line
  have hfront : '(' ∉ 'd' :: (b ++ (name ++ front)) := by
    have hblanks : '(' ∉ b := not_mem_blanks hb (by decide)
    have hchars : '(' ∉ name := not_mem_of_isIdentifier hname (by decide)
    simp [hblanks, hchars, hopen]
  exact replaceAll_eq_self fun rest hsuffix => eq_none_of_line hline hfront hback (by simpa using hsuffix)

theorem laterSearches_plain {b : List Char} (hb : allBlank b = true) :
    replaceAll (derivativeFinder true takePlain)
      (replaceAll (derivativeFinder true takeApplied) ('d' :: (b ++ (name ++ overTime)))) = derivative name := by
  rw [replaceAll_plain hname hover line_of_takeApplied true hb]
  exact replaceAll_whole (fun _ => isWord_of_isIdentifierChar (by decide)) (takePlain_eq hname hover hb)

theorem plainDerivatives_plain {b : List Char} (hb : allBlank b = true) :
    plainDerivatives ('d' :: (b ++ (name ++ overTime))) = derivative name := by
  rw [plainDerivatives, replaceAll_plain hname hover line_of_takeWrapped false hb, laterSearches_plain hname hover hb]

theorem plainDerivatives_wrapped {b₁ b₂ numerator : List Char} (h₁ : allBlank b₁ = true)
    (h : IsDifferential name numerator) (h₂ : allBlank b₂ = true) :
    plainDerivatives ('(' :: (b₁ ++ (numerator ++ (b₂ ++ ')' :: overTime)))) = derivative name := by
  rw [plainDerivatives, replaceAll_whole (by simp) (takeWrapped_eq hname hover h₁ h h₂)]
  exact @laterSearches_plain name _ hname isOverTime_plain [] rfl

/-- If the variable looks like a differential itself, its parentheses are taken for those of a numerator, and what is
left is a derivative of the same variable without parentheses. -/
theorem plainDerivatives_applied {b₁ b₂ b₃ : List Char} (h₁ : allBlank b₁ = true) (h₂ : allBlank b₂ = true)
    (h₃ : allBlank b₃ = true) :
    plainDerivatives ('d' :: (b₁ ++ '(' :: (b₂ ++ (name ++ (b₃ ++ ')' :: overTime))))) = derivative name := by
  have hblank {b : List Char} (hb : allBlank b = true) : '(' ∉ b := not_mem_blanks hb (by decide)
  have hskip := @replaceWrapped_append ('d' :: b₁) (by simp [hblank h₁])
    ('(' :: (b₂ ++ (name ++ (b₃ ++ ')' :: overTime))))
  rw [List.cons_append, List.cons_append] at hskip
  rw [plainDerivatives, hskip]
  by_cases hinner : ∃ inner, name = 'd' :: inner ∧ isIdentifier inner = true
  · obtain ⟨inner, rfl, hidentifier⟩ := hinner
    have hread := takeWrapped_eq hidentifier hover h₂ (@IsDifferential.plain inner [] rfl) h₃
    rw [List.nil_append, List.cons_append] at hread
    rw [List.cons_append, replaceAll_whole (by simp) hread]
    have hplain := laterSearches_plain hname isOverTime_plain h₁
    exact hplain
  · have hunread : ∀ inner, name = 'd' :: inner → isIdentifier inner = false := fun inner hd => by
      cases hidentifier : isIdentifier inner with
      | false => rfl
      | true => exact absurd ⟨inner, hd, hidentifier⟩ hinner
    obtain ⟨front, back, rfl, hopen, hback⟩ := id hover.line
    have hfront : '(' ∉ b₂ ++ (name ++ (b₃ ++ ')' :: front)) := by
      have hchars : '(' ∉ name := not_mem_of_isIdentifier hname (by decide)
      simp [hblank h₂, hblank h₃, hchars, hopen]
    have hrest :
        replaceAll (derivativeFinder false takeWrapped) (b₂ ++ (name ++ (b₃ ++ ')' :: (front ++ '/' :: back)))) =
          b₂ ++ (name ++ (b₃ ++ ')' :: (front ++ '/' :: back))) :=
      replaceAll_eq_self fun rest hsuffix => eq_none_of_line line_of_takeWrapped hfront hback (by simpa using hsuffix)
    rw [replaceWrapped_cons (takeWrapped_eq_none_of_applied hname h₂ h₃ _ hunread), hrest,
      replaceAll_whole (fun _ => isWord_of_isIdentifierChar (by decide)) (takeApplied_eq hname hover h₁ h₂ h₃),
      replacePlain_derivative hname]

end

/-! ### Spellings -/

section
variable {name text : List Char}

theorem plainDerivatives_spelling (hname : isIdentifier name = true) (h : IsSpelling name text) :
    plainDerivatives text = derivative name := by
  obtain ⟨hnumerator, hover⟩ := h
  cases hnumerator with
  | bare h =>
    cases h with
    | plain hb => simpa using plainDerivatives_plain hname hover hb
    | applied h₁ h₂ h₃ => simpa using plainDerivatives_applied hname hover h₁ h₂ h₃
  | wrapped h₁ h h₂ => simpa using plainDerivatives_wrapped hname hover h₁ h h₂

theorem dash_not_mem_spelling (hname : isIdentifier name = true) (h : IsSpelling name text) {c : Char}
    (hc : isDash c = true) : c ∉ text := by
  have hblank {b : List Char} (hb : allBlank b = true) : c ∉ b :=
    not_mem_blanks hb (by rcases eq_of_isDash hc with rfl | rfl | rfl <;> decide)
  have hchars : c ∉ name := fun hmem => by
    rw [isDash_of_isIdentifierChar (isIdentifierChar_of_mem hname c hmem)] at hc
    cases hc
  have hne {d : Char} (hd : isDash d = false) : c ≠ d := fun heq => by
    rw [heq, hd] at hc
    cases hc
  have hd : c ≠ 'd' := hne (by decide)
  have hopen : c ≠ '(' := hne (by decide)
  have hclose : c ≠ ')' := hne (by decide)
  have hline : c ≠ '/' := hne (by decide)
  have htime {time : Char} (ht : time = 't' ∨ time = 'T') : c ≠ time := by
    rcases ht with rfl | rfl <;> exact hne (by decide)
  have hdifferential {text : List Char} (h : IsDifferential name text) : c ∉ text := by
    cases h with
    | plain hb => simp [hd, hblank hb, hchars]
    | applied h₁ h₂ h₃ => simp [hd, hopen, hclose, hblank h₁, hblank h₂, hblank h₃, hchars]
  have hdenominator {text : List Char} (h : IsDenominator text) : c ∉ text := by
    cases h with
    | bare hb ht => simp [hd, hblank hb, htime ht]
    | wrapped h₁ h₂ ht h₃ => simp [hd, hopen, hclose, hblank h₁, hblank h₂, hblank h₃, htime ht]
  obtain ⟨hnumerator, h₁, h₂, h⟩ := h
  cases hnumerator with
  | bare hnumerator => simp [hdifferential hnumerator, hblank h₁, hblank h₂, hline, hdenominator h]
  | wrapped h₃ hnumerator h₄ =>
    simp [hdifferential hnumerator, hblank h₁, hblank h₂, hblank h₃, hblank h₄, hline, hopen, hclose, hdenominator h]

/-- Every spelling of the derivative of a variable comes to its one form. -/
theorem plainText_spelling (hname : isIdentifier name = true) (h : IsSpelling name text) :
    plainText text = derivative name := by
  have hminus : plainMinus text = text := plainMinus_eq_self fun c hc => by
    by_contra hdash
    exact dash_not_mem_spelling hname h (by simpa using hdash) hc
  rw [plainText, hminus, plainDerivatives_spelling hname h]

end

end OdeSystem.Notation
