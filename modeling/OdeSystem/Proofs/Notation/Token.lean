import OdeSystem.Notation.Token
import OdeSystem.Proofs.Text.Blank

/-!
Tokens of the sides of an equation. No token reaches over the end of a side but a run of blanks, so a sign of equality
parts the tokens as it parts the text, as parentheses and commas do, and blanks around a text change the tokens by runs
of blanks only.
-/

namespace OdeSystem.Notation

open Text

section
variable {text more : List Char}

theorem isNameChar_of_isSeparator {c : Char} (h : isSeparator c = true) : isNameChar c = false := by
  have hline : c ≠ '_' := ne_of_isSeparator h (by decide)
  simp [isNameChar, isAlphanumeric_of_isSeparator h, hline]

/-- Whether no number goes on into a text: it begins with no character of a number. -/
def EndsNumber (text : List Char) : Prop :=
  ∀ c ∈ text.head?, isAsciiDigit c = false ∧ c ∉ ['.', '+', '-', 'e', 'E']

theorem endsNumber_nil : EndsNumber [] := by simp [EndsNumber]

/-- Whether no token but a run of blanks goes on into a text: it begins with no character of a name or a number. -/
def Apart (text : List Char) : Prop :=
  ∀ c ∈ text.head?, isNameChar c = false ∧ isAsciiDigit c = false ∧ c ∉ ['.', '+', '-', 'e', 'E']

theorem Apart.endsNumber (apart : Apart text) : EndsNumber text := fun c hc => (apart c hc).2

theorem apart_of_parted (parted : Parted text) : Apart text := fun c hc => by
  have hseparator := parted c hc
  refine ⟨isNameChar_of_isSeparator hseparator, isAsciiDigit_of_isSeparator hseparator, fun hmem => ?_⟩
  have hnone : ['.', '+', '-', 'e', 'E'].all (fun d => !isSeparator d) = true := by decide
  have hno := List.all_eq_true.mp hnone c hmem
  rw [hseparator] at hno
  cases hno

theorem EndsNumber.digits (ends : EndsNumber more) (text : List Char) :
    (text ++ more).takeWhile isAsciiDigit = text.takeWhile isAsciiDigit :=
  (takeWhile_append_of_head (fun c hc => (ends c hc).1) text).1

/-! ### Numbers -/

theorem fractionLength_append (ends : EndsNumber more) (text : List Char) :
    fractionLength (text ++ more) = fractionLength text := by
  cases text with
  | nil =>
    cases more with
    | nil => rfl
    | cons c rest =>
      have hdot : c ≠ '.' := fun h => (ends c rfl).2 (by simp [h])
      simp [fractionLength, hdot]
  | cons c rest =>
    by_cases hdot : c = '.'
    · subst hdot
      simp [fractionLength, ends.digits rest]
    · simp [fractionLength, hdot]

/-- The length of the sign of an exponent. -/
def exponentSign : List Char → Nat
  | '+' :: _ | '-' :: _ => 1
  | _ => 0

theorem exponentSign_cons (c : Char) (rest : List Char) :
    exponentSign (c :: rest) = if c = '+' ∨ c = '-' then 1 else 0 := by
  by_cases hplus : c = '+'
  · subst hplus
    rfl
  · by_cases hminus : c = '-'
    · subst hminus
      rfl
    · simp [exponentSign, hplus, hminus]

theorem exponentLength_cons (c : Char) (rest : List Char) :
    exponentLength (c :: rest) =
      if c = 'e' ∨ c = 'E' then
        if ((rest.drop (exponentSign rest)).takeWhile isAsciiDigit).length = 0 then 0
        else 1 + exponentSign rest + ((rest.drop (exponentSign rest)).takeWhile isAsciiDigit).length
      else 0 := rfl

theorem exponentSign_append (ends : EndsNumber more) (text : List Char) :
    exponentSign (text ++ more) = exponentSign text ∧ exponentSign text ≤ text.length := by
  cases text with
  | cons c rest =>
    rw [List.cons_append, exponentSign_cons, exponentSign_cons, List.length_cons]
    refine ⟨rfl, ?_⟩
    split <;> omega
  | nil =>
    cases more with
    | nil => exact ⟨rfl, Nat.le_refl _⟩
    | cons c rest =>
      have hplus : c ≠ '+' := fun h => (ends c rfl).2 (by simp [h])
      have hminus : c ≠ '-' := fun h => (ends c rfl).2 (by simp [h])
      rw [List.nil_append, exponentSign_cons, if_neg (by simp [hplus, hminus])]
      exact ⟨rfl, Nat.le_refl _⟩

theorem exponentLength_append (ends : EndsNumber more) (text : List Char) :
    exponentLength (text ++ more) = exponentLength text := by
  cases text with
  | nil =>
    cases more with
    | nil => rfl
    | cons c rest =>
      have he : c ≠ 'e' := fun h => (ends c rfl).2 (by simp [h])
      have hE : c ≠ 'E' := fun h => (ends c rfl).2 (by simp [h])
      rw [List.nil_append, exponentLength_cons, if_neg (by simp [he, hE])]
      rfl
  | cons c rest =>
    obtain ⟨hsign, hlength⟩ := exponentSign_append ends rest
    rw [List.cons_append, exponentLength_cons, exponentLength_cons, hsign, List.drop_append_of_le_length hlength,
      ends.digits]

theorem fractionLength_le (text : List Char) : fractionLength text ≤ text.length := by
  unfold fractionLength
  split
  · have := (List.takeWhile_sublist (l := ‹List Char›) isAsciiDigit).length_le
    simp only [List.length_cons]
    omega
  · exact Nat.zero_le _

theorem exponentLength_le (text : List Char) : exponentLength text ≤ text.length := by
  cases text with
  | nil => exact Nat.le_refl _
  | cons c rest =>
    have hsign := (exponentSign_append endsNumber_nil rest).2
    have hdigits := (List.takeWhile_sublist (l := rest.drop (exponentSign rest)) isAsciiDigit).length_le
    rw [List.length_drop] at hdigits
    rw [exponentLength_cons, List.length_cons]
    split
    · split <;> omega
    · exact Nat.zero_le _

theorem numberLength_le (text : List Char) : numberLength text ≤ text.length := by
  have hwhole : (text.takeWhile isAsciiDigit).length ≤ text.length := (List.takeWhile_sublist _).length_le
  have hfraction := fractionLength_le (text.drop (text.takeWhile isAsciiDigit).length)
  have hexponent := exponentLength_le (text.drop ((text.takeWhile isAsciiDigit).length +
    fractionLength (text.drop (text.takeWhile isAsciiDigit).length)))
  rw [List.length_drop] at hfraction hexponent
  unfold numberLength
  dsimp only
  omega

theorem numberLength_append (ends : EndsNumber more) (text : List Char) :
    numberLength (text ++ more) = numberLength text := by
  have hwhole : (text.takeWhile isAsciiDigit).length ≤ text.length := (List.takeWhile_sublist _).length_le
  have hfraction := fractionLength_le (text.drop (text.takeWhile isAsciiDigit).length)
  rw [List.length_drop] at hfraction
  unfold numberLength
  dsimp only
  rw [ends.digits, List.drop_append_of_le_length hwhole, fractionLength_append ends,
    List.drop_append_of_le_length (by omega), exponentLength_append ends]

/-! ### Tokens -/

theorem tokens_cons (c : Char) (rest : List Char) :
    tokens (c :: rest) = firstToken c rest :: tokens (rest.drop ((firstToken c rest).text.length - 1)) :=
  pieces_cons () c rest

theorem tokens_induction {motive : List Char → Prop} (nil : motive [])
    (cons : ∀ c rest, motive (rest.drop ((firstToken c rest).text.length - 1)) → motive (c :: rest))
    (text : List Char) : motive text :=
  @pieces_induction _ _ (fun _ c rest => let token := firstToken c rest; ⟨token, token.text.length - 1, ()⟩)
    (fun _ => motive) (fun _ => nil) (fun _ => cons) () text

theorem length_firstToken (c : Char) (rest : List Char) : (firstToken c rest).text.length - 1 ≤ rest.length := by
  have hrun (p : Char → Bool) : (rest.takeWhile p).length ≤ rest.length := (List.takeWhile_sublist p).length_le
  unfold firstToken
  split
  · simpa [Token.text] using hrun isBlank
  · split
    · simpa [Token.text] using hrun isNameChar
    · split
      · simp only [Token.text, List.length_take, List.length_cons]
        omega
      · simp [Token.text]

theorem numberLength_pos {c : Char} {rest : List Char} (h : isAsciiDigit c = true ∨ c = '.') :
    0 < numberLength (c :: rest) := by
  unfold numberLength
  dsimp only
  by_cases hdigit : isAsciiDigit c = true
  · rw [List.takeWhile_cons_of_pos hdigit, List.length_cons]
    omega
  · obtain rfl := h.resolve_left hdigit
    rw [List.takeWhile_cons_of_neg hdigit, List.length_nil, List.drop_zero, fractionLength]
    omega

/-- The first token of a text is where the text begins. -/
theorem firstToken_prefix (c : Char) (rest : List Char) :
    ∃ inner, (firstToken c rest).text = c :: inner ∧ inner <+: rest := by
  unfold firstToken
  split
  · exact ⟨_, rfl, List.takeWhile_prefix _⟩
  · split
    · exact ⟨_, rfl, List.takeWhile_prefix _⟩
    · split
      · rename_i hnumber
        have hbegins : isAsciiDigit c = true ∨ c = '.' := by
          rcases Bool.or_eq_true _ _ ▸ hnumber with hdigit | hdot
          · exact .inl hdigit
          · exact .inr (beq_iff_eq.mp (Bool.and_eq_true _ _ ▸ hdot).1)
        have hlength : 0 < numberLength (c :: rest) := numberLength_pos hbegins
        obtain ⟨n, hn⟩ := Nat.exists_eq_succ_of_ne_zero hlength.ne'
        rw [hn]
        exact ⟨rest.take n, rfl, List.take_prefix _ _⟩
      · exact ⟨[], rfl, List.nil_prefix⟩

theorem textOf_cons (token : Token) (rest : List Token) : textOf (token :: rest) = token.text ++ textOf rest := by
  rw [textOf, List.flatMap_cons, ← textOf]

/-- The texts of the tokens in order are the text. -/
theorem textOf_tokens (text : List Char) : textOf (tokens text) = text := by
  induction text using tokens_induction with
  | nil => rfl
  | cons c rest ih =>
    obtain ⟨inner, htext, behind, rfl⟩ := firstToken_prefix c rest
    rw [htext, List.length_cons, Nat.add_sub_cancel, List.drop_left] at ih
    rw [tokens_cons, htext, List.length_cons, Nat.add_sub_cancel, List.drop_left, textOf_cons, htext, ih,
      List.cons_append]

/-- A token ends where nothing of it follows, unless it is a run of blanks that goes on. -/
theorem firstToken_append (apart : Apart more) {c : Char} {rest : List Char}
    (inner : isBlank c = true → allBlank rest = true → ∀ d ∈ more.head?, isBlank d = false) :
    firstToken c (rest ++ more) = firstToken c rest := by
  unfold firstToken
  split
  · rename_i hblank
    have hrun : (rest ++ more).takeWhile isBlank = rest.takeWhile isBlank := by
      rw [List.takeWhile_append]
      split
      · rename_i hall
        have hrest : rest.takeWhile isBlank = rest := (List.takeWhile_sublist isBlank).eq_of_length hall
        have hmore : more.takeWhile isBlank = [] := by
          cases more with
          | nil => rfl
          | cons d more =>
            have hd := inner hblank (List.all_eq_true.mpr (List.takeWhile_eq_self_iff.mp hrest)) d rfl
            exact List.takeWhile_cons_of_neg (by simp [hd])
        rw [hmore, hrest, List.append_nil]
      · rfl
    rw [hrun]
  · split
    · rw [(takeWhile_append_of_head (fun d hd => (apart d hd).1) rest).1]
    · have hnumber : numberLength (c :: (rest ++ more)) = numberLength (c :: rest) :=
        numberLength_append apart.endsNumber (c :: rest)
      have hdigit : startsWithDigit (rest ++ more) = startsWithDigit rest := by
        cases rest with
        | cons d rest => rfl
        | nil =>
          cases more with
          | nil => rfl
          | cons d more =>
            simp [startsWithDigit, (apart d rfl).2.1]
      have htake : (c :: (rest ++ more)).take (numberLength (c :: rest)) =
          (c :: rest).take (numberLength (c :: rest)) := by
        rw [← List.cons_append, List.take_append_of_le_length (numberLength_le _)]
      rw [hnumber, hdigit, htake]

theorem beginsNoName {c : Char} (h : isNameChar c = false) : (isAlphabetic c || c == '_') = false := by
  simp only [isNameChar, isAlphanumeric, Bool.or_eq_false_iff] at h ⊢
  exact ⟨h.1.1.1, h.2⟩

theorem firstToken_of_isSeparator {c : Char} (hc : isSeparator c = true) (rest : List Char) :
    firstToken c rest = if isBlank c then .space (c :: rest.takeWhile isBlank) else .symbol c := by
  have hdot : c ≠ '.' := ne_of_isSeparator hc (by decide)
  simp [firstToken, beginsNoName (isNameChar_of_isSeparator hc), isAsciiDigit_of_isSeparator hc, hdot]

/-- Characters that are tokens wherever they stand: signs of equality, parentheses and commas. -/
def isDelimiter (c : Char) : Bool := ['=', '(', ')', ','].contains c

/-- What can be seen of each delimiter holds of every one. -/
theorem of_isDelimiter {p : Char → Bool} (all : ['=', '(', ')', ','].all p = true) {c : Char}
    (hc : isDelimiter c = true) : p c = true := List.all_eq_true.mp all c (List.contains_iff_mem.mp hc)

theorem isBlank_of_isDelimiter {c : Char} (hc : isDelimiter c = true) : isBlank c = false := by
  simpa using of_isDelimiter (p := fun c => !isBlank c) (by decide) hc

theorem apart_of_isDelimiter {c : Char} (hc : isDelimiter c = true) (rest : List Char) : Apart (c :: rest) := by
  have hoff := of_isDelimiter (p := fun c => isPunctuation c && c != '_' && !isAsciiDigit c &&
    !(['.', '+', '-', 'e', 'E'].contains c)) (by decide) hc
  simp only [Bool.and_eq_true, Bool.not_eq_true', bne_iff_ne] at hoff
  obtain ⟨⟨⟨hpunctuation, hline⟩, hdigit⟩, hnumber⟩ := hoff
  have hname : isNameChar c = false := by simp [isNameChar, isAlphanumeric_of_isPunctuation hpunctuation, hline]
  intro d hd
  obtain rfl : c = d := by simpa using hd
  refine ⟨hname, hdigit, fun hmem => ?_⟩
  rw [List.contains_iff_mem.mpr hmem] at hnumber
  cases hnumber

theorem firstToken_of_isDelimiter {c : Char} (hc : isDelimiter c = true) (rest : List Char) :
    firstToken c rest = .symbol c := by
  obtain ⟨hname, hdigit, hnumber⟩ := apart_of_isDelimiter hc [] c rfl
  have hdot : c ≠ '.' := fun h => hnumber (by simp [h])
  simp [firstToken, isBlank_of_isDelimiter hc, beginsNoName hname, hdigit, hdot]

/-- A delimiter parts the tokens. -/
theorem tokens_delimiter {c : Char} (hc : isDelimiter c = true) (left right : List Char) :
    tokens (left ++ c :: right) = tokens left ++ .symbol c :: tokens right := by
  have hdelimiter : tokens (c :: right) = .symbol c :: tokens right := by
    rw [tokens_cons, firstToken_of_isDelimiter hc]
    rfl
  induction left using tokens_induction with
  | nil => exact hdelimiter
  | cons d rest ih =>
    have hfirst : firstToken d (rest ++ c :: right) = firstToken d rest :=
      firstToken_append (apart_of_isDelimiter hc right) fun _ _ e he => by
        obtain rfl : c = e := by simpa using he
        exact isBlank_of_isDelimiter hc
    rw [List.cons_append, tokens_cons, hfirst, List.drop_append_of_le_length (length_firstToken d rest), tokens_cons,
      List.cons_append]
    exact congrArg _ ih

theorem isSpace_of_allBlank {text : List Char} (hblank : allBlank text = true) :
    ∀ token ∈ tokens text, token.isSpace = true := by
  cases text with
  | nil => simp [tokens]
  | cons c rest =>
    simp only [allBlank, List.all_cons, Bool.and_eq_true] at hblank
    have hrun : rest.takeWhile isBlank = rest := List.takeWhile_eq_self_iff.mpr (List.all_eq_true.mp hblank.2)
    rw [tokens_cons, firstToken_of_isSeparator (isSeparator_of_isBlank hblank.1), if_pos hblank.1, hrun]
    simp [Token.text, Token.isSpace, tokens]

/-- Blanks behind a text change the tokens by runs of blanks at the end only. -/
theorem tokens_append_blanks {trailing : List Char} (htrailing : allBlank trailing = true) (text : List Char) :
    ∃ front last last', tokens text = front ++ last ∧ tokens (text ++ trailing) = front ++ last' ∧
      (∀ token ∈ last, token.isSpace = true) ∧ ∀ token ∈ last', token.isSpace = true := by
  induction text using tokens_induction with
  | nil => exact ⟨[], [], tokens trailing, rfl, rfl, by simp, isSpace_of_allBlank htrailing⟩
  | cons c rest ih =>
    by_cases hall : allBlank (c :: rest) = true
    · refine ⟨[], tokens (c :: rest), tokens (c :: rest ++ trailing), rfl, rfl, isSpace_of_allBlank hall,
        isSpace_of_allBlank ?_⟩
      simp only [allBlank, List.all_append, Bool.and_eq_true] at hall htrailing ⊢
      exact ⟨hall, htrailing⟩
    · have hfirst : firstToken c (rest ++ trailing) = firstToken c rest :=
        firstToken_append (apart_of_parted (endsSide_of_allBlank htrailing).parted) fun hc hrest =>
          absurd (by simpa [allBlank, hc] using hrest) hall
      obtain ⟨front, last, last', htext, hboth, hlast, hlast'⟩ := ih
      refine ⟨firstToken c rest :: front, last, last', ?_, ?_, hlast, hlast'⟩
      · rw [tokens_cons, List.cons_append]
        exact congrArg _ htext
      · rw [List.cons_append, tokens_cons, hfirst, List.drop_append_of_le_length (length_firstToken c rest),
          List.cons_append]
        exact congrArg _ hboth

/-- A run of blanks is one token. -/
theorem tokens_cons_of_isBlank {c : Char} (hc : isBlank c = true) (rest : List Char) :
    tokens (c :: rest) = .space (c :: rest.takeWhile isBlank) :: tokens (trimLeft rest) := by
  have hrest : rest.drop (rest.takeWhile isBlank).length = trimLeft rest := calc
    rest.drop (rest.takeWhile isBlank).length
    _ = (rest.takeWhile isBlank ++ trimLeft rest).drop (rest.takeWhile isBlank).length :=
      congrArg (List.drop _) List.takeWhile_append_dropWhile.symm
    _ = trimLeft rest := List.drop_left
  rw [tokens_cons, firstToken_of_isSeparator (isSeparator_of_isBlank hc), if_pos hc]
  simp [Token.text, hrest]

/-- Blanks before a text change the tokens by a run of blanks at the beginning only. -/
theorem tokens_trimLeft (text : List Char) :
    ∃ first, tokens text = first ++ tokens (trimLeft text) ∧ ∀ token ∈ first, token.isSpace = true := by
  cases text with
  | nil => exact ⟨[], rfl, by simp⟩
  | cons c rest =>
    by_cases hc : isBlank c = true
    · rw [tokens_cons_of_isBlank hc, trimLeft_cons_of_isBlank hc]
      exact ⟨[.space (c :: rest.takeWhile isBlank)], rfl, by simp [Token.isSpace]⟩
    · exact ⟨[], by rw [trimLeft_cons_of_not_isBlank (by simpa using hc)]; rfl, by simp⟩

theorem allBlank_of_isSpace {token : Token} {text : List Char} (h : token ∈ tokens text)
    (hspace : token.isSpace = true) : allBlank token.text = true := by
  induction text using tokens_induction with
  | nil => cases h
  | cons c rest ih =>
    rw [tokens_cons] at h
    rcases List.mem_cons.mp h with rfl | h
    · unfold firstToken at hspace ⊢
      split
      · rename_i hc
        simp [Token.text, allBlank, hc]
      · rename_i hc
        rw [if_neg hc] at hspace
        split at hspace
        · cases hspace
        · split at hspace <;> cases hspace
    · exact ih h

end

end OdeSystem.Notation
