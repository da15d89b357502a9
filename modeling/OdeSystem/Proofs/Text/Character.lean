import OdeSystem.Text.Blank
import OdeSystem.Text.Word

/-!
Characters that separate and characters of identifiers. Blanks and the sign of equality are no part of any word, name
or number. Letters of ASCII, its digits and the underscore are part of both words and names. There are few enough of
either to look at each, and what can be seen of each holds of all.
-/

namespace OdeSystem.Text

/-- The characters in ranges of code points. -/
def charsIn (ranges : List (Nat × Nat)) : List Char :=
  ranges.flatMap fun r => (List.range' r.1 (r.2 + 1 - r.1)).map Char.ofNat

theorem mem_charsIn {ranges : List (Nat × Nat)} {c : Char} {r : Nat × Nat} (hr : r ∈ ranges) (hfirst : r.1 ≤ c.toNat)
    (hlast : c.toNat ≤ r.2) : c ∈ charsIn ranges := by
  refine List.mem_flatMap.mpr ⟨r, hr, List.mem_map.mpr ⟨c.toNat, ?_, Char.ofNat_toNat c⟩⟩
  rw [List.mem_range'_1]
  omega

/-! ### Separators -/

/-- Whether a character separates: a blank, or the sign of equality. -/
def isSeparator (c : Char) : Bool := isBlank c || c == '='

/-- What can be seen of each separator holds of every one. -/
theorem of_isSeparator {p : Char → Bool} (all : ('=' :: charsIn blankRanges).all p = true) {c : Char}
    (h : isSeparator c = true) : p c = true := by
  refine List.all_eq_true.mp all c ?_
  rcases Bool.or_eq_true _ _ ▸ h with h | h
  · obtain ⟨r, hr, hfirst, hlast⟩ := exists_mem_of_inRanges h
    exact List.mem_cons_of_mem _ (mem_charsIn hr hfirst hlast)
  · exact beq_iff_eq.mp h ▸ List.mem_cons_self ..

theorem isSeparator_of_isBlank {c : Char} (h : isBlank c = true) : isSeparator c = true := by
  simp [isSeparator, h]

/-- No word, name or number has a separator in it. -/
theorem outside_of_isSeparator {c : Char} (h : isSeparator c = true) :
    (!isWord c && !isLatin c && !isAsciiDigit c && !isAlphanumeric c) = true :=
  of_isSeparator (p := fun c => !isWord c && !isLatin c && !isAsciiDigit c && !isAlphanumeric c) (by decide +kernel) h

theorem isWord_of_isSeparator {c : Char} (h : isSeparator c = true) : isWord c = false := by
  have houtside := outside_of_isSeparator h
  simp only [Bool.and_eq_true, Bool.not_eq_true'] at houtside
  exact houtside.1.1.1

theorem isLatin_of_isSeparator {c : Char} (h : isSeparator c = true) : isLatin c = false := by
  have houtside := outside_of_isSeparator h
  simp only [Bool.and_eq_true, Bool.not_eq_true'] at houtside
  exact houtside.1.1.2

theorem isAsciiDigit_of_isSeparator {c : Char} (h : isSeparator c = true) : isAsciiDigit c = false := by
  have houtside := outside_of_isSeparator h
  simp only [Bool.and_eq_true, Bool.not_eq_true'] at houtside
  exact houtside.1.2

theorem isAlphanumeric_of_isSeparator {c : Char} (h : isSeparator c = true) : isAlphanumeric c = false := by
  have houtside := outside_of_isSeparator h
  simp only [Bool.and_eq_true, Bool.not_eq_true'] at houtside
  exact houtside.2

theorem ne_of_isSeparator {c d : Char} (h : isSeparator c = true) (hd : isSeparator d = false) : c ≠ d := by
  rintro rfl
  rw [h] at hd
  cases hd

/-! ### Word characters -/

section
variable {c d : Char}

theorem isSeparator_of_isWord (h : isWord c = true) : isSeparator c = false := by
  cases hseparator : isSeparator c with
  | false => rfl
  | true =>
    rw [isWord_of_isSeparator hseparator] at h
    cases h

theorem isBlank_of_isWord (h : isWord c = true) : isBlank c = false :=
  (Bool.or_eq_false_iff.mp (isSeparator_of_isWord h)).1

theorem ne_of_isWord (h : isWord c = true) (hd : isWord d = false) : c ≠ d := by
  rintro rfl
  rw [h] at hd
  cases hd

end

/-! ### Punctuation -/

/-- Whether a character is one of the signs of notation and formulas, which are no part of words and names. -/
def isPunctuation (c : Char) : Bool :=
  ['!', '"', '%', '&', '(', ')', '*', '+', ',', '-', '.', '/', ';', '<', '=', '>', '^', '|', '\u2013', '\u2014',
    '\u2212'].contains c

theorem outside_of_isPunctuation {c : Char} (h : isPunctuation c = true) : (!isWord c && !isAlphanumeric c) = true := by
  have hall : ['!', '"', '%', '&', '(', ')', '*', '+', ',', '-', '.', '/', ';', '<', '=', '>', '^', '|', '\u2013',
      '\u2014', '\u2212'].all (fun c => !isWord c && !isAlphanumeric c) = true := by
    decide +kernel
  exact List.all_eq_true.mp hall c (List.contains_iff_mem.mp h)

theorem isWord_of_isPunctuation {c : Char} (h : isPunctuation c = true) : isWord c = false := by
  have houtside := outside_of_isPunctuation h
  simp only [Bool.and_eq_true, Bool.not_eq_true'] at houtside
  exact houtside.1

theorem isAlphanumeric_of_isPunctuation {c : Char} (h : isPunctuation c = true) : isAlphanumeric c = false := by
  have houtside := outside_of_isPunctuation h
  simp only [Bool.and_eq_true, Bool.not_eq_true'] at houtside
  exact houtside.2

/-! ### Identifiers -/

/-- Whether a character can stand in an identifier: a letter or digit of ASCII, or an underscore. -/
def isIdentifierChar (c : Char) : Bool := isNameStart c || isAsciiDigit c

/-- Whether a text is an identifier: characters of identifiers, the first of which is no digit. -/
def isIdentifier : List Char → Bool
  | [] => false
  | c :: rest => isNameStart c && rest.all isIdentifierChar

/-- The code points of the digits, the letters of either case and the underscore. -/
def identifierRanges : List (Nat × Nat) := [(0x30, 0x39), (0x41, 0x5a), (0x5f, 0x5f), (0x61, 0x7a)]

/-- What can be seen of each character of identifiers holds of every one. -/
theorem of_isIdentifierChar {p : Char → Bool} (all : (charsIn identifierRanges).all p = true) {c : Char}
    (h : isIdentifierChar c = true) : p c = true := by
  refine List.all_eq_true.mp all c ?_
  simp only [isIdentifierChar, isNameStart, isLatin, isAsciiDigit, Bool.or_eq_true, Bool.and_eq_true,
    decide_eq_true_eq, beq_iff_eq] at h
  rcases h with ((h | h) | rfl) | h
  · exact mem_charsIn (r := (0x61, 0x7a)) (by decide) h.1 h.2
  · exact mem_charsIn (r := (0x41, 0x5a)) (by decide) h.1 h.2
  · decide
  · exact mem_charsIn (r := (0x30, 0x39)) (by decide) h.1 h.2

section
variable {text : List Char}

theorem isIdentifierChar_of_mem (h : isIdentifier text = true) : ∀ c ∈ text, isIdentifierChar c = true := by
  cases text with
  | nil => simp
  | cons d rest =>
    simp only [isIdentifier, Bool.and_eq_true, List.all_eq_true] at h
    intro c hc
    rcases List.mem_cons.mp hc with rfl | hc
    · simp [isIdentifierChar, h.1]
    · exact h.2 c hc

theorem inside_of_isIdentifierChar {c : Char} (h : isIdentifierChar c = true) :
    (isWord c && (isAlphanumeric c || c == '_')) = true :=
  of_isIdentifierChar (p := fun c => isWord c && (isAlphanumeric c || c == '_')) (by decide +kernel) h

theorem isWord_of_isIdentifierChar {c : Char} (h : isIdentifierChar c = true) : isWord c = true :=
  (Bool.and_eq_true_iff.mp (inside_of_isIdentifierChar h)).1

theorem isWord_of_isNameStart {c : Char} (h : isNameStart c = true) : isWord c = true :=
  isWord_of_isIdentifierChar (by rw [isIdentifierChar, h, Bool.true_or])

theorem isAlphanumeric_of_isIdentifierChar {c : Char} (h : isIdentifierChar c = true) :
    (isAlphanumeric c || c == '_') = true :=
  (Bool.and_eq_true_iff.mp (inside_of_isIdentifierChar h)).2

theorem isSeparator_of_isIdentifierChar {c : Char} (h : isIdentifierChar c = true) : isSeparator c = false :=
  isSeparator_of_isWord (isWord_of_isIdentifierChar h)

theorem isBlank_of_isIdentifierChar {c : Char} (h : isIdentifierChar c = true) : isBlank c = false := by
  have := isSeparator_of_isIdentifierChar h
  simp only [isSeparator, Bool.or_eq_false_iff] at this
  exact this.1

theorem ne_of_isIdentifierChar {c d : Char} (h : isIdentifierChar c = true) (hd : isIdentifierChar d = false) :
    c ≠ d := by
  rintro rfl
  rw [h] at hd
  cases hd

end

end OdeSystem.Text
