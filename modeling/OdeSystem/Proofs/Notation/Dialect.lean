import OdeSystem.Expression
import OdeSystem.Proofs.Formula.Position
import OdeSystem.Proofs.Notation.Numeral
import OdeSystem.Proofs.Notation.Starred
import OdeSystem.Proofs.Number.Integer

/-!
Integers in the formula of an expression. Names begin with no digit, and numbers are written as floats, with a point;
so neither is an integer, nor is a word that begins with one of them, whatever stands next to it. But a number too large
for a double stays as it is, and if its exponent has a sign, the formula is cut there: the digits behind the sign are a
word of their own, and with what is written next to them they may be an integer.
-/

namespace OdeSystem.Notation

open Text Number
open Formula (Lexeme Sign EachWord EndsInLetter LeftBehind rawLexemes rawLexemes_cases isEnding)

/-! ### Characters of words -/

/-- Whether a character is part of a word wherever it stands in a formula. -/
def isInner (c : Char) : Bool := (Sign.ofChar? c).isNone && !isBlank c && c != '"'

section
variable {c : Char}

theorem ofChar_of_isInner (h : isInner c = true) : Lexeme.ofChar c = .word [c] := by
  simp only [isInner, Bool.and_eq_true, Option.isNone_iff_eq_none, Bool.not_eq_true'] at h
  simp [Lexeme.ofChar, h.1.1, h.1.2]

/-- Such a character begins no quoted text and no comment. -/
theorem isInner_ne (h : isInner c = true) : ¬ (c = '"' ∨ c = '/') := by
  rintro (rfl | rfl) <;> cases h

/-- Nor does it end one. -/
theorem isEnding_of_isInner (h : isInner c = true) : isEnding c = false := by
  cases hending : isEnding c with
  | false => rfl
  | true =>
    have hcases : (c = '"' ∨ c = '/') ∨ c = '\n' := by simpa [isEnding] using hending
    rcases hcases with hc | rfl
    · exact absurd hc (isInner_ne h)
    · cases h

theorem isInner_of_isNameChar (h : isNameChar c = true) : isInner c = true := by
  have hpunctuation : isPunctuation c = false := by
    cases hc : isPunctuation c with
    | false => rfl
    | true =>
      have hline : c ≠ '_' := by
        rintro rfl
        cases hc
      simp [isNameChar, isAlphanumeric_of_isPunctuation hc, hline] at h
  have hsign : Sign.ofChar? c = none := by
    cases hs : Sign.ofChar? c with
    | none => rfl
    | some s =>
      rw [← Sign.char_of_ofChar? hs] at hpunctuation
      cases s <;> cases hpunctuation
  have hblank : isBlank c = false := by
    cases hc : isBlank c with
    | false => rfl
    | true =>
      rw [isNameChar_of_isSeparator (isSeparator_of_isBlank hc)] at h
      cases h
  have hquote : c ≠ '"' := by
    rintro rfl
    cases hpunctuation
  simp [isInner, hsign, hblank, hquote]

theorem isInner_of_isAsciiDigit (h : isAsciiDigit c = true) : isInner c = true :=
  isInner_of_isNameChar (isNameChar_of_isAsciiDigit h)

/-- No name begins with a digit. -/
theorem isAsciiDigit_of_beginsName (h : (isAlphabetic c || c == '_') = true) : isAsciiDigit c = false := by
  cases hdigit : isAsciiDigit c with
  | false => rfl
  | true =>
    have hid : isIdentifierChar c = true := by simp [isIdentifierChar, hdigit]
    have hnone := of_isIdentifierChar (p := fun c => !isAsciiDigit c || !(isAlphabetic c || c == '_'))
      (by decide +kernel) hid
    simp only [hdigit, h] at hnone
    cases hnone

end

/-! ### Words of a text -/

/-- Whether every word of a text that stands behind some lexemes has a property together with the lexemes before it. -/
def ReadsBehind (P : List Lexeme → List Char → Prop) (before : List Lexeme) (text : List Char) : Prop :=
  ∀ raw, rawLexemes text = .ok raw → EachWord P before raw

/-- Whether every word of a text has a property together with the lexemes before it, whatever the text stands behind. -/
def Reads (P : List Lexeme → List Char → Prop) (text : List Char) : Prop := ∀ before, ReadsBehind P before text

section
variable {P : List Lexeme → List Char → Prop} {before raw : List Lexeme} {c : Char} {rest run blanks : List Char}

theorem reads_nil : Reads P [] := by
  intro before raw h
  cases h
  exact Formula.eachWord_nil

theorem eq_of_ofChar_eq_word {text : List Char} (h : Lexeme.ofChar c = .word text) : text = [c] := by
  unfold Lexeme.ofChar at h
  split at h
  · cases h
  · split at h <;> cases h
    rfl

/-- The words of a text with one more character, which may be a word or begin one, or begin what is no part of a
word. -/
theorem ReadsBehind.cons (h : ReadsBehind P (before ++ [.ofChar c]) rest)
    (hleft : c = '"' ∨ c = '/' → ∀ rest', LeftBehind rest rest' → Reads P rest')
    (hword : Lexeme.ofChar c = .word [c] → ∀ more, P before (c :: more)) : ReadsBehind P before (c :: rest) := by
  intro raw hraw
  rcases rawLexemes_cases hraw with ⟨behind, hbehind, rfl⟩ | ⟨hc, rest', behind, hrest', hbehind, hraw'⟩
  · refine (h behind hbehind).cons fun first hfirst _ => ?_
    obtain rfl := eq_of_ofChar_eq_word hfirst
    exact hword hfirst _
  · rcases hraw' with rfl | ⟨text, rfl⟩
    · exact hleft hc rest' hrest' before _ hbehind
    · exact (hleft hc rest' hrest' _ behind hbehind).cons nofun

theorem exists_rawLexemes_run (hinner : ∀ c ∈ run, isInner c = true) (h : rawLexemes (run ++ rest) = .ok raw) :
    ∃ behind, rawLexemes rest = .ok behind ∧ raw = run.map (fun c => .word [c]) ++ behind := by
  induction run generalizing raw with
  | nil => exact ⟨raw, h, rfl⟩
  | cons c run ih =>
    have hc := hinner c (List.mem_cons_self ..)
    rcases rawLexemes_cases h with ⟨behind, hbehind, rfl⟩ | ⟨hquote, -⟩
    · obtain ⟨last, hlast, rfl⟩ := ih (fun d hd => hinner d (List.mem_cons_of_mem _ hd)) hbehind
      exact ⟨last, hlast, by rw [ofChar_of_isInner hc]; rfl⟩
    · exact absurd hquote (isInner_ne hc)

/-- The words of a text behind a run of characters of a word. -/
theorem ReadsBehind.inner (h : ReadsBehind P (before ++ run.map fun c => .word [c]) rest)
    (hinner : ∀ c ∈ run, isInner c = true) (hword : ∀ more, P before (run ++ more)) :
    ReadsBehind P before (run ++ rest) := by
  intro raw hraw
  obtain ⟨behind, hbehind, rfl⟩ := exists_rawLexemes_run hinner hraw
  exact (h behind hbehind).of_run hword

theorem ReadsBehind.sign {s : Sign} (h : ReadsBehind P (before ++ [.sign s]) rest) (hs : s = .plus ∨ s = .minus) :
    ReadsBehind P before (s.char :: rest) := by
  rcases hs with rfl | rfl
  · exact ReadsBehind.cons h (fun hquote => absurd hquote (by decide)) nofun
  · exact ReadsBehind.cons h (fun hquote => absurd hquote (by decide)) nofun

theorem Reads.behindBlanks (h : Reads P rest) (hblanks : allBlank blanks = true) : Reads P (blanks ++ rest) := by
  induction blanks with
  | nil => exact h
  | cons c blanks ih =>
    rw [allBlank, List.all_cons, Bool.and_eq_true] at hblanks
    refine fun before => (ih hblanks.2 _).cons (fun hquote => ?_) fun hlexeme => ?_
    · rcases hquote with rfl | rfl <;> cases hblanks.1
    · unfold Lexeme.ofChar at hlexeme
      split at hlexeme
      · cases hlexeme
      · rw [if_pos hblanks.1] at hlexeme
        cases hlexeme

end

/-! ### Integers of a formula -/

/-- Whether a number is too large for a double. -/
def Overflows (text : List Char) : Prop := ∃ n, Numeral.ofText? text = some n ∧ isFinite n.toFloat = false

/-- A number among some tokens that is too large for a double and has a sign in its exponent. -/
structure SignedOverflow (list : List Token) (mantissa : List Char) (s : Sign) (power : List Char) : Prop where
  mem : .number (mantissa ++ s.char :: power) ∈ list
  overflows : Overflows (mantissa ++ s.char :: power)
  letter : EndsInLetter mantissa
  sign : s = .plus ∨ s = .minus
  digits : ∀ c ∈ power, isAsciiDigit c = true
  ne_nil : power ≠ []

/-- Whether a word begins with the digits behind the sign of the exponent of such a number, and the lexemes before it end
in the rest of the number. -/
def IsExponent (list : List Token) (before : List Lexeme) (word : List Char) : Prop :=
  ∃ front mantissa s power more, SignedOverflow list mantissa s power ∧
    before = front ++ mantissa.map (fun c => .word [c]) ++ [.sign s] ∧ word = power ++ more

/-- Whether a word is no integer, but for the digits of an exponent. -/
def NoInteger (list : List Token) (before : List Lexeme) (word : List Char) : Prop :=
  integer? word = none ∨ IsExponent list before word

section
variable {list : List Token} {text digits fraction exponent rest inner more : List Char} {c : Char}

theorem isInner_of_isPointed (h : IsPointed text) : ∀ d ∈ text, isInner d = true := by
  obtain ⟨whole, fraction, rfl, hwhole, hfraction⟩ := h
  intro d hd
  rcases List.mem_append.mp hd with hd | hd
  · exact isInner_of_isAsciiDigit (hwhole d hd)
  · rcases List.mem_cons.mp hd with rfl | hd
    · rfl
    · exact isInner_of_isAsciiDigit (hfraction d hd)

theorem reads_pointed (hpointed : IsPointed text) (h : Reads (NoInteger list) rest) :
    Reads (NoInteger list) (text ++ rest) := by
  refine fun before => (h _).inner (isInner_of_isPointed hpointed) fun more => .inl ?_
  obtain ⟨whole, fraction, rfl, hwhole, -⟩ := hpointed
  rw [List.append_assoc, List.cons_append]
  exact integer?_of_mem hwhole (by decide) (by decide)

/-- Digits, a fraction and the letter of an exponent are no integer, whatever follows. -/
theorem IsNumber.integer?_mantissa {e : Char} (h : IsNumber digits fraction exponent) (he : e = 'e' ∨ e = 'E')
    (more : List Char) : integer? (digits ++ fraction ++ [e] ++ more) = none := by
  rcases h.fraction with rfl | ⟨places, rfl, -⟩
  · rw [List.append_nil, List.append_assoc]
    rcases he with rfl | rfl <;> exact integer?_of_mem h.digits (by decide) (by decide)
  · rw [List.append_assoc, List.append_assoc]
    exact integer?_of_mem h.digits (by decide) (by decide)

theorem IsNumber.isInner_mantissa {e : Char} (h : IsNumber digits fraction exponent) (he : e = 'e' ∨ e = 'E') :
    ∀ d ∈ digits ++ fraction ++ [e], isInner d = true := by
  intro d hd
  rcases List.mem_append.mp hd with hd | hd
  · rcases List.mem_append.mp hd with hd | hd
    · exact isInner_of_isAsciiDigit (h.digits d hd)
    · rcases h.fraction with rfl | ⟨places, rfl, hplaces⟩
      · cases hd
      · rcases List.mem_cons.mp hd with rfl | hd
        · rfl
        · exact isInner_of_isAsciiDigit (hplaces d hd)
  · obtain rfl := List.mem_singleton.mp hd
    rcases he with rfl | rfl <;> rfl

/-- A number that is too large for a double is read as it stands, and cut at the sign of its exponent. -/
theorem reads_overflow (parts : IsNumber digits fraction exponent)
    (hlarge : fraction = [] → exponent = [] → 2 ^ 64 ≤ ofDigits digits)
    (overflows : Overflows (digits ++ fraction ++ exponent))
    (hmem : .number (digits ++ fraction ++ exponent) ∈ list) (h : Reads (NoInteger list) rest) :
    Reads (NoInteger list) (digits ++ fraction ++ exponent ++ rest) := by
  intro before
  rcases parts.exponent with rfl | ⟨e, sign, power, rfl, he, hsign, hpower, hpowers⟩
  · refine (h _).inner (fun d hd => ?_) fun more => .inl ?_
    · exact parts.isInner_mantissa (.inl rfl) d (List.mem_append_left _ (by simpa using hd))
    · rcases parts.fraction with rfl | ⟨places, rfl, -⟩
      · rw [List.append_nil, List.append_nil]
        exact integer?_of_le parts.digits (hlarge rfl rfl)
      · rw [List.append_nil, List.append_assoc]
        exact integer?_of_mem parts.digits (by decide) (by decide)
  · have hdigits : ∀ d ∈ power, isInner d = true := fun d hd => isInner_of_isAsciiDigit (hpowers d hd)
    rcases hsign with rfl | hsign
    · have hwhole : ReadsBehind (NoInteger list) before (digits ++ fraction ++ [e] ++ power ++ rest) := by
        refine (h _).inner (fun d hd => ?_) fun more => .inl ?_
        · exact (List.mem_append.mp hd).elim (parts.isInner_mantissa he d) (hdigits d)
        · rw [List.append_assoc]
          exact parts.integer?_mantissa he _
      simpa using hwhole
    · obtain ⟨s, rfl, hs⟩ : ∃ s : Sign, sign = [s.char] ∧ (s = .plus ∨ s = .minus) := by
        rcases hsign with rfl | rfl
        · exact ⟨.plus, rfl, .inl rfl⟩
        · exact ⟨.minus, rfl, .inr rfl⟩
      have htext : digits ++ fraction ++ e :: ([s.char] ++ power) = digits ++ fraction ++ [e] ++ s.char :: power := by
        simp
      rw [htext] at overflows hmem ⊢
      have number : SignedOverflow list (digits ++ fraction ++ [e]) s power :=
        ⟨hmem, overflows, ⟨_, e, rfl, he⟩, hs, hpowers, hpower⟩
      have hexponent : ReadsBehind (NoInteger list)
          (before ++ (digits ++ fraction ++ [e]).map (fun c => .word [c]) ++ [.sign s]) (power ++ rest) :=
        (h _).inner hdigits fun more => .inr ⟨before, _, s, power, more, number, rfl, rfl⟩
      rw [List.append_assoc, List.cons_append]
      exact (hexponent.sign hs).inner (parts.isInner_mantissa he) fun more => .inl (parts.integer?_mantissa he more)

/-- A number is no integer in a formula, but for the digits of its exponent if it is too large for a double. -/
theorem reads_number (htoken : IsToken (.number text) c inner more) (hmem : .number text ∈ list)
    (h : Reads (NoInteger list) rest) : Reads (NoInteger list) (literalText text ++ rest) := by
  cases htoken with
  | @number _ _ _ digits fraction exponent hc hname hbegins htext parts =>
    obtain ⟨significand, e, hnumeral, hwhole⟩ := parts.exists_numeral (parts.exists_digit hbegins htext)
    rw [htext] at hmem ⊢
    unfold literalText
    rw [hnumeral]
    dsimp only
    split
    · rename_i hfinite
      obtain ⟨sign, pointed, hsign, hpointed, hliteral⟩ := exists_literal hfinite
      rw [hliteral]
      rcases hsign with rfl | rfl
      · exact reads_pointed hpointed h
      · exact fun before => ReadsBehind.sign (reads_pointed hpointed h _) (.inr rfl)
    · rename_i hfinite
      refine reads_overflow parts (fun hf he => ?_) ⟨_, hnumeral, by simpa using hfinite⟩ hmem h
      by_contra hsmall
      obtain ⟨rfl, rfl⟩ := hwhole hf he
      exact hfinite (isFinite_toFloat (Nat.not_le.mp hsmall))

/-- A name stands in a formula as characters of a word, and begins with no digit. -/
theorem exists_formulaText_name (htoken : IsToken (.name text) c inner more) (tokens : List Token) :
    ∃ d run, formulaText (.name text) tokens = d :: run ∧ isAsciiDigit d = false ∧
      ∀ x ∈ d :: run, isInner x = true := by
  cases htoken with
  | name hc hname hinner =>
    have hfirst : isNameChar c = true := by
      cases hchar : isNameChar c with
      | true => rfl
      | false =>
        rw [beginsNoName hchar] at hname
        cases hname
    have hplain : ∀ x ∈ c :: inner, isInner x = true := fun x hx =>
      isInner_of_isNameChar ((List.mem_cons.mp hx).elim (fun heq => heq ▸ hfirst) (hinner x))
    have hdigit := isAsciiDigit_of_beginsName hname
    have hspace (name : List Char) (h : ∀ x ∈ name, isInner x = true) :
        ∃ d run, "math::".toList ++ name = d :: run ∧ isAsciiDigit d = false ∧ ∀ x ∈ d :: run, isInner x = true := by
      refine ⟨'m', "ath::".toList ++ name, rfl, by decide, fun x hx => ?_⟩
      have hx : x ∈ "math::".toList ++ name := hx
      rcases List.mem_append.mp hx with hx | hx
      · exact List.all_eq_true.mp (by decide : "math::".toList.all isInner = true) x hx
      · exact h x hx
    unfold formulaText
    dsimp only
    split
    · split
      · split
        · exact hspace "ln".toList (List.all_eq_true.mp (by decide))
        · exact hspace "log".toList (List.all_eq_true.mp (by decide))
      · unfold qualified
        split
        · exact hspace _ hplain
        · exact ⟨c, inner, rfl, hdigit, hplain⟩
    · exact ⟨c, inner, rfl, hdigit, hplain⟩

/-- A name in a formula is no integer. -/
theorem reads_name (htoken : IsToken (.name text) c inner more) (tokens : List Token)
    (h : Reads (NoInteger list) rest) : Reads (NoInteger list) (formulaText (.name text) tokens ++ rest) := by
  obtain ⟨d, run, heq, hdigit, hinner⟩ := exists_formulaText_name htoken tokens
  rw [heq]
  exact fun before => (h _).inner hinner fun more => .inl (integer?_of_head hdigit)

theorem isEnding_of_mem_name (htoken : IsToken (.name text) c inner more) (tokens : List Token) :
    ∀ x ∈ formulaText (.name text) tokens, isEnding x = false := by
  obtain ⟨d, run, heq, -, hinner⟩ := exists_formulaText_name htoken tokens
  exact fun x hx => isEnding_of_isInner (hinner x (heq ▸ hx))

theorem isEnding_of_mem_number (htoken : IsToken (.number text) c inner more) :
    ∀ x ∈ literalText text, isEnding x = false := by
  have hdigit {x : Char} (h : isAsciiDigit x = true) : isEnding x = false :=
    isEnding_of_isInner (isInner_of_isAsciiDigit h)
  have hraw : ∀ x ∈ text, isEnding x = false := by
    cases htoken with
    | number hc hname hbegins htext parts =>
      intro x hx
      rcases parts.mem (htext ▸ hx) with hx | hx
      · exact hdigit hx
      · have hnone : ['.', '+', '-', 'e', 'E'].all (fun x => !isEnding x) = true := by decide
        simpa using List.all_eq_true.mp hnone x hx
  unfold literalText
  split
  · split
    · rename_i hfinite
      obtain ⟨sign, pointed, hsign, hpointed, hliteral⟩ := exists_literal hfinite
      intro x hx
      rw [hliteral] at hx
      rcases List.mem_append.mp hx with hx | hx
      · rcases hsign with rfl | rfl
        · cases hx
        · rw [List.mem_singleton.mp hx]
          rfl
      · exact isEnding_of_isInner (isInner_of_isPointed hpointed x hx)
    · exact hraw
  · exact hraw

end

/-! ### Formulas -/

/-- Whether tokens are spelt as tokens of a text are. -/
def Spelt (list : List Token) : Prop := ∀ token ∈ list, ∃ c inner more, IsToken token c inner more

theorem spelt_tokens (text : List Char) : Spelt (tokens text) := by
  refine token_induction (motive := fun _ list => Spelt list) (fun _ h => nomatch h) ?_ text
  intro c inner behind token htoken ih other hother
  rcases List.mem_cons.mp hother with rfl | hother
  · exact ⟨c, inner, behind, htoken⟩
  · exact ih other hother

/-- What is left behind a character that ends a quoted text or a comment is the formula of the tokens from there on, and
perhaps what is left of a run of blanks. -/
theorem exists_suffix {list : List Token} (spelt : Spelt list) {front behind : List Char} {d : Char}
    (hd : isEnding d = true) (h : formulaOf list = front ++ d :: behind) :
    ∃ blanks rest, allBlank blanks = true ∧ behind = blanks ++ formulaOf rest ∧ rest <:+ list := by
  induction list generalizing front with
  | nil => simp [formulaOf] at h
  | cons token list ih =>
    have spelt' : Spelt list := fun t ht => spelt t (List.mem_cons_of_mem _ ht)
    have hlater (front : List Char) (h : formulaOf list = front ++ d :: behind) :
        ∃ blanks rest, allBlank blanks = true ∧ behind = blanks ++ formulaOf rest ∧ rest <:+ token :: list := by
      obtain ⟨blanks, rest, hblanks, hbehind, hrest⟩ := ih spelt' h
      exact ⟨blanks, rest, hblanks, hbehind, hrest.trans (List.suffix_cons ..)⟩
    rcases List.append_eq_append_iff.mp h with ⟨middle, rfl, hmiddle⟩ | ⟨middle, hfront, hmiddle⟩
    · exact hlater _ hmiddle
    · cases middle with
      | nil => exact hlater [] hmiddle.symm
      | cons x middle =>
        obtain ⟨rfl, rfl⟩ := List.cons.inj hmiddle
        have hmem : d ∈ formulaText token list := by simp [hfront]
        obtain ⟨c, inner, more, htoken⟩ := spelt token (List.mem_cons_self ..)
        refine ⟨middle, list, ?_, rfl, List.suffix_cons ..⟩
        cases token with
        | name text =>
          rw [isEnding_of_mem_name htoken list d hmem] at hd
          cases hd
        | number text =>
          rw [isEnding_of_mem_number htoken d hmem] at hd
          cases hd
        | space text =>
          have hblank : allBlank (front ++ d :: middle) = true := hfront ▸ htoken.allBlank rfl
          rw [allBlank, List.all_append, List.all_cons, Bool.and_eq_true, Bool.and_eq_true] at hblank
          exact hblank.2.2
        | symbol c' =>
          have hlength := congrArg List.length hfront
          simp only [formulaText, List.length_append, List.length_cons, List.length_nil] at hlength
          rw [List.length_eq_zero_iff.mp (by omega : middle.length = 0)]
          rfl

/-- No word of a formula is an integer, but for the digits of an exponent. -/
theorem reads_formulaOf {list : List Token} (spelt : Spelt list) {part : List Token} (hpart : part <:+ list) :
    Reads (NoInteger list) (formulaOf part) := by
  induction hlength : part.length using Nat.strongRecOn generalizing part with
  | ind n ih =>
    cases part with
    | nil => exact reads_nil
    | cons token rest =>
      have hrest : rest <:+ list := (List.suffix_cons ..).trans hpart
      have hreads : Reads (NoInteger list) (formulaOf rest) := ih _ (by simp [← hlength]) hrest rfl
      have hmem : token ∈ list := hpart.subset (List.mem_cons_self ..)
      obtain ⟨c, inner, more, htoken⟩ := spelt token hmem
      unfold formulaOf
      cases token with
      | name text => exact reads_name htoken rest hreads
      | number text => exact reads_number htoken hmem hreads
      | space text => exact hreads.behindBlanks (htoken.allBlank rfl)
      | symbol c' =>
        refine fun before => (hreads _).cons (fun _ rest' hleft => ?_) fun _ more => .inl (integer?_of_head ?_)
        · rcases hleft with rfl | ⟨front, d, hd, hformula⟩
          · exact reads_nil
          · have spelt' : Spelt rest := fun t ht => spelt t (hrest.subset ht)
            obtain ⟨blanks, rest'', hblanks, rfl, hsuffix⟩ := exists_suffix spelt' hd hformula
            refine (ih _ ?_ (hsuffix.trans hrest) rfl).behindBlanks hblanks
            rw [← hlength]
            exact Nat.lt_succ_of_le hsuffix.length_le
        · cases htoken with
          | symbol hc hname hnumber => exact (Bool.or_eq_false_iff.mp hnumber).1

/-- Whether, among the lexemes of a formula, a number that is too large for a double is cut at the sign of its exponent,
because with what stands next to it on both sides it is no float; and the word behind the sign. -/
def IsCut (list : List Token) (lexed : List Lexeme) (word : List Char) : Prop :=
  ∃ before front mantissa s power more behind, SignedOverflow list mantissa s power ∧
    lexed = before ++ .word (front ++ mantissa) :: .sign s :: .word word :: behind ∧ word = power ++ more ∧
    float? (front ++ mantissa ++ s.char :: word) = none

section
variable {list : List Token} {lexed behind : List Lexeme} {word : List Char}

/-- Where the reader comes to the digits behind the sign of an exponent, the number is cut. -/
theorem IsExponent.isCut {before : List Lexeme} (h : IsExponent list before word)
    (hlexed : lexed = Formula.joinWords before ++ .word word :: behind)
    (hposition : .word word :: behind ∈ Formula.positions 0 lexed) : IsCut list lexed word := by
  obtain ⟨front, mantissa, s, power, more, number, rfl, hword⟩ := h
  have hne : mantissa ≠ [] := by
    obtain ⟨inner, letter, rfl, -⟩ := number.letter
    simp
  obtain ⟨before, own, hrun⟩ := Formula.joinWords_append_run front hne
  have hsplit : lexed = before ++ .word (own ++ mantissa) :: .sign s :: .word word :: behind := by
    rw [hlexed, Formula.joinWords_append_sign, hrun]
    simp [Formula.joinWords]
  refine ⟨before, own, mantissa, s, power, more, behind, number, hsplit, hword, ?_⟩
  exact (Formula.mem_positions_iff (number.letter.append own) number.sign).mp (hsplit ▸ hposition)

/-- The reader comes to the digits behind the sign of an exponent if the number is cut. -/
theorem IsCut.exists_position (h : IsCut list lexed word) :
    ∃ behind, .word word :: behind ∈ Formula.positions 0 lexed := by
  obtain ⟨before, front, mantissa, s, power, more, behind, number, rfl, -, hnone⟩ := h
  exact ⟨behind, (Formula.mem_positions_iff (number.letter.append front) number.sign).mpr hnone⟩

end

theorem exists_int_mem (text : List Char) (n : Int)
    (h : (Formula.tokens text).toOption.any (fun found => found.any fun token => token.int? == some n) = true) :
    ∃ found, Formula.tokens text = .ok found ∧ .value (.int n) ∈ found := by
  obtain ⟨found, hfound, hany⟩ := exists_ok_of_any h
  obtain ⟨token, htoken, hint⟩ := List.any_eq_true.mp hany
  exact ⟨found, hfound, Formula.Token.eq_of_int? (by simpa using hint) ▸ htoken⟩

section
variable {expression : String} {found : List Formula.Token} {n : Int}
  (h : Formula.tokens (formula expression).toList = .ok found)
include h

/-- An integer in a formula is behind the sign of an exponent where a number is cut. -/
theorem exists_isCut (hn : .value (.int n) ∈ found) : ∃ lexed word,
    Formula.lexemes (formula expression).toList = .ok lexed ∧ IsCut (tokens expression.toList) lexed word ∧
      integer? word = some n := by
  have htext : (formula expression).toList = formulaOf (tokens expression.toList) := String.toList_ofList
  obtain ⟨lexed, hlexed, htokens⟩ := Formula.exists_lexemes h
  obtain ⟨word, behind, hposition, hinteger⟩ := (Formula.int_mem_iff_position htokens).mp hn
  obtain ⟨front, hfront⟩ := Formula.suffix_of_mem_positions hposition
  obtain ⟨raw, hraw, rfl⟩ := exists_of_map_eq_ok (Formula.lexemes_eq _ ▸ hlexed)
  obtain ⟨before, first, rest, hsplit, rfl, hfresh, rfl⟩ := Formula.exists_of_joinWords_eq hfront.symm
  have hreads := reads_formulaOf (spelt_tokens expression.toList) (List.suffix_refl _) [] raw (htext ▸ hraw)
  rcases hreads before first rest hsplit hfresh with hnone | hexponent
  · rw [hnone] at hinteger
    cases hinteger
  · exact ⟨_, _, hlexed, hexponent.isCut hfront.symm hposition, hinteger⟩

/-- If no number of an expression is too large for a double, no integer is in its formula. -/
theorem int_notMem (hfits : ∀ text, .number text ∈ tokens expression.toList → ¬ Overflows text) :
    .value (.int n) ∉ found := fun hn => by
  obtain ⟨_, _, -, ⟨_, _, _, _, _, _, _, number, -⟩, -⟩ := exists_isCut h hn
  exact hfits _ number.mem number.overflows

/-- An integer is among the tokens of a formula if, and only if, a number that is too large for a double is cut at the
sign of its exponent, and the digits behind the sign are that integer. -/
theorem int_mem_iff_isCut : .value (.int n) ∈ found ↔ ∃ lexed word,
    Formula.lexemes (formula expression).toList = .ok lexed ∧ IsCut (tokens expression.toList) lexed word ∧
      integer? word = some n := by
  refine ⟨exists_isCut h, ?_⟩
  rintro ⟨lexed, word, hlexed, hcut, hinteger⟩
  obtain ⟨lexed', hlexed', htokens⟩ := Formula.exists_lexemes h
  obtain rfl : lexed' = lexed := Except.ok.inj (hlexed'.symm.trans hlexed)
  obtain ⟨behind, hposition⟩ := hcut.exists_position
  exact (Formula.int_mem_iff_position htokens).mpr ⟨word, behind, hposition, hinteger⟩

end

/-- A number that is too large, with a character before it that keeps it from being put together again. -/
theorem int_mem_iff_isCut_hash : ∃ found, Formula.tokens (formula "#1e+400").toList = .ok found ∧
    .value (.int 400) ∈ found ∧ ∃ lexed word, Formula.lexemes (formula "#1e+400").toList = .ok lexed ∧
      IsCut (tokens "#1e+400".toList) lexed word ∧ integer? word = some 400 := by
  obtain ⟨found, hfound, hmem⟩ := exists_int_mem (formula "#1e+400").toList 400 (by decide +kernel)
  exact ⟨found, hfound, hmem, (int_mem_iff_isCut hfound).mp hmem⟩

/-- The exponent as a dividend: the quotient of the integers 400 and 3 is cut off. -/
theorem int_mem_quotient :
    (∃ found, Formula.tokens (formula "#1e+400/len(1, 2, 3)").toList = .ok found ∧ .value (.int 400) ∈ found) ∧
      ∃ e x, Expression.ofText "#1e+400/len(1, 2, 3)" = .ok e ∧
        e.eval ⟨.ofList [("#1e", 0)], 0, .empty⟩ = .ok (.number x) ∧ (x == 133) = true := by
  refine ⟨exists_int_mem _ _ (by decide +kernel), ?_⟩
  have hread : (Expression.ofText "#1e+400/len(1, 2, 3)").toOption.any (fun e =>
      (e.eval ⟨.ofList [("#1e", 0)], 0, .empty⟩).toOption.any fun
        | .number x => x == 133
        | .other _ => false) = true := by
    decide +kernel
  obtain ⟨e, he, hresult⟩ := exists_ok_of_any hread
  obtain ⟨outcome, houtcome, hnumber⟩ := exists_ok_of_any hresult
  cases outcome with
  | number x => exact ⟨e, x, he, houtcome, hnumber⟩
  | other text => cases hnumber

end OdeSystem.Notation
