import OdeSystem.Proofs.Formula.Parenthesis
import OdeSystem.Proofs.Formula.Word

/-!
Where the tokens of a formula begin. The reader comes to one lexeme after the other, but passes those that belong to the
token before them. So an integer is among the tokens where the reader comes to a word that is one. No float ends in the
letter of an exponent; hence the reader comes to every word that ends in such a letter, and to the word behind the sign
that follows, unless the three are a float together.
-/

namespace OdeSystem.Formula

open Text Number

/-! ### Letters of exponents -/

/-- Whether a text ends in the letter of an exponent. -/
def EndsInLetter (text : List Char) : Prop := ∃ front letter, text = front ++ [letter] ∧ (letter = 'e' ∨ letter = 'E')

section
variable {text : List Char} {c : Char}

theorem EndsInLetter.append (h : EndsInLetter text) (front : List Char) : EndsInLetter (front ++ text) := by
  obtain ⟨inner, letter, rfl, hletter⟩ := h
  exact ⟨front ++ inner, letter, (List.append_assoc ..).symm, hletter⟩

theorem EndsInLetter.exists_mem (h : EndsInLetter text) : ∃ letter ∈ text, letter = 'e' ∨ letter = 'E' := by
  obtain ⟨front, letter, rfl, hletter⟩ := h
  exact ⟨letter, by simp, hletter⟩

theorem isAsciiDigit_of_letter (hc : c = 'e' ∨ c = 'E') : isAsciiDigit c = false := by
  rcases hc with rfl | rfl <;> decide

theorem mem_takeSign_of_letter (hmem : c ∈ text) (hc : c = 'e' ∨ c = 'E') : c ∈ (takeSign text).2 :=
  mem_takeSign hmem (by rcases hc with rfl | rfl <;> decide)

/-- The letter of an exponent is in no word for infinity or for the undefined number. -/
theorem word?_eq_none_of_mem (hmem : c ∈ text) (hc : c = 'e' ∨ c = 'E') : word? text = none := by
  have hlower : 'e' ∈ (takeSign text).2.map Char.toLower :=
    List.mem_map.mpr ⟨c, mem_takeSign_of_letter hmem hc, by rcases hc with rfl | rfl <;> rfl⟩
  have hnot (word : List Char) (hword : 'e' ∉ word) : (takeSign text).2.map Char.toLower ≠ word := by
    rintro rfl
    exact hword hlower
  unfold word?
  dsimp only
  rw [if_neg (not_or.mpr ⟨hnot _ (by decide), hnot _ (by decide)⟩), if_neg (hnot _ (by decide))]

/-- An exponent has digits behind its letter. -/
theorem EndsInLetter.exponent?_eq_none (h : EndsInLetter text) : exponent? text = none := by
  obtain ⟨front, letter, rfl, hletter⟩ := h
  cases front with
  | nil =>
    rw [List.nil_append, exponent?, if_pos hletter]
    rfl
  | cons c front =>
    rw [List.cons_append, exponent?]
    split
    · have hmem : letter ∈ (takeSign (front ++ [letter])).2 := mem_takeSign_of_letter (by simp) hletter
      simp [isDigits_eq_false_of_mem hmem (isAsciiDigit_of_letter hletter)]
    · rfl

theorem EndsInLetter.dropWhile (h : EndsInLetter text) : EndsInLetter (text.dropWhile isAsciiDigit) := by
  obtain ⟨front, letter, rfl, hletter⟩ := h
  have hnot : ¬ isAsciiDigit letter = true := by simp [isAsciiDigit_of_letter hletter]
  rw [List.dropWhile_append, List.dropWhile_cons_of_neg hnot]
  split
  · exact ⟨[], letter, rfl, hletter⟩
  · exact ⟨_, letter, rfl, hletter⟩

theorem EndsInLetter.of_cons (h : EndsInLetter (c :: text)) (hc : ¬ (c = 'e' ∨ c = 'E')) : EndsInLetter text := by
  obtain ⟨front, letter, heq, hletter⟩ := h
  cases front with
  | nil => exact absurd ((List.cons.inj heq).1 ▸ hletter) hc
  | cons _ front => exact ⟨front, letter, (List.cons.inj heq).2, hletter⟩

theorem EndsInLetter.takeSign (h : EndsInLetter text) : EndsInLetter (Number.takeSign text).2 := by
  unfold Number.takeSign
  split
  · exact h.of_cons (by decide)
  · exact h.of_cons (by decide)
  · exact h

/-- No float ends in the letter of an exponent. -/
theorem EndsInLetter.float?_eq_none (h : EndsInLetter text) : float? text = none := by
  have hnumeral : Numeral.ofText? text = none := by
    unfold Numeral.ofText? magnitude?
    dsimp only
    have hrest := h.takeSign.dropWhile
    split
    · rename_i tail heq
      rw [heq] at hrest
      rw [(hrest.of_cons (by decide)).dropWhile.exponent?_eq_none]
      exact ite_self _
    · rw [hrest.exponent?_eq_none]
      exact ite_self _
  obtain ⟨letter, hmem, hletter⟩ := h.exists_mem
  rw [float?, word?_eq_none_of_mem hmem hletter, hnumeral]
  rfl

/-- A word that ends in the letter of an exponent and is a literal begins no float. -/
theorem EndsInLetter.float?_append_eq_none {v : Value} (h : EndsInLetter text) (hliteral : literal? text = some v)
    (more : List Char) : float? (text ++ more) = none := by
  obtain ⟨letter, hmem, hletter⟩ := h.exists_mem
  obtain ⟨c, hc, hforeign⟩ : ∃ c ∈ text, isForeign c = true := by
    unfold literal? at hliteral
    cases hinteger : integer? text with
    | some n =>
      unfold integer? at hinteger
      split at hinteger
      · exact ⟨'x', by simp, by decide⟩
      · simp [isDigits_eq_false_of_mem hmem (isAsciiDigit_of_letter hletter)] at hinteger
    | none =>
      rw [hinteger, h.float?_eq_none] at hliteral
      dsimp only at hliteral
      split at hliteral
      · rename_i htrue
        exact ⟨'t', by simp [htrue], by decide⟩
      · split at hliteral
        · rename_i hfalse
          exact ⟨'f', by simp [hfalse], by decide⟩
        · cases hliteral
  rw [float?, word?_eq_none_of_mem (List.mem_append_left more hmem) hletter,
    numeral?_eq_none_of_mem (List.mem_append_left more hc) hforeign]
  rfl

end

/-! ### Integers and signs -/

section
variable {text : List Char} {rest : List Lexeme} {n : Int}

theorem wordToken_eq_int_iff : (wordToken text rest).1 = .value (.int n) ↔ integer? text = some n := by
  unfold wordToken literal?
  cases integer? text with
  | some m => simp
  | none =>
    dsimp only
    refine ⟨fun h => ?_, nofun⟩
    split at h
    · rename_i hliteral
      split at hliteral
      · cases hliteral
        cases h
      · split at hliteral
        · cases hliteral
          cases h
        · split at hliteral <;> cases hliteral
          cases h
    · split at h <;> cases h

/-- Whether a token is a literal. -/
def Token.isValue : Token → Bool
  | value _ => true
  | _ => false

variable {token changed : Token}

theorem isValue_updatable (h : token.isValue = false) : (updatable token rest).1.isValue = false := by
  unfold updatable
  split
  · rfl
  · exact h

theorem isValue_beforeEquals (h : token.isValue = false) (hchanged : changed.isValue = false) :
    (beforeEquals token changed rest).1.isValue = false := by
  unfold beforeEquals
  split
  · exact hchanged
  · exact h

theorem isValue_doubled {s : Sign} {found : Token × Nat} (htoken : token.isValue = false)
    (h : doubled s token rest = .ok found) : found.1.isValue = false := by
  unfold doubled at h
  split at h
  · split at h
    · split at h
      · cases h
        rfl
      · cases h
        exact htoken
    · cases h
  · cases h

/-- No sign is a literal. -/
theorem isValue_signToken {s : Sign} {found : Token × Nat} (h : signToken s rest = .ok found) :
    found.1.isValue = false := by
  cases s with
  | plus | minus | star | slash | percent | hat =>
    cases h
    exact isValue_updatable rfl
  | equals | exclamation | greater | less =>
    cases h
    exact isValue_beforeEquals rfl rfl
  | ampersand | bar => exact isValue_doubled rfl h
  | openParen | closeParen | comma | semicolon =>
    cases h
    rfl

end

/-! ### Positions of the reader -/

/-- The number of lexemes behind a lexeme that belong to its token. -/
def used : Lexeme → List Lexeme → Nat
  | .word text, rest => (wordToken text rest).2
  | .sign s, rest => (signToken s rest).toOption.elim 0 Prod.snd
  | _, _ => 0

/-- The lexemes before the reader wherever it stands, if the first `skip` of them belong to an earlier token. -/
def positions : Nat → List Lexeme → List (List Lexeme)
  | _, [] => []
  | skip + 1, _ :: rest => positions skip rest
  | 0, lexeme :: rest => (lexeme :: rest) :: positions (used lexeme rest) rest

section
variable {skip : Nat} {found position stop front rest : List Lexeme} {tokens : List Token} {text word : List Char}
  {s : Sign} {n : Int}

theorem suffix_of_mem_positions (h : position ∈ positions skip found) : position <:+ found := by
  induction found generalizing skip with
  | nil => cases skip <;> cases h
  | cons lexeme rest ih =>
    cases skip with
    | succ skip => exact (ih h).trans (List.suffix_cons ..)
    | zero =>
      rcases List.mem_cons.mp h with rfl | h
      · exact List.suffix_rfl
      · exact (ih h).trans (List.suffix_cons ..)

theorem exists_of_map_cons {token : Token} {result : Except Fault (List Token)}
    (h : result.map (token :: ·) = .ok tokens) (hn : token ≠ .value (.int n)) :
    ∃ behind, result = .ok behind ∧ (.value (.int n) ∈ tokens ↔ .value (.int n) ∈ behind) := by
  obtain ⟨behind, hbehind, rfl⟩ := exists_of_map_eq_ok h
  exact ⟨behind, hbehind, by simp [hn.symm]⟩

/-- An integer is among the tokens if the reader comes to a word that is one. -/
theorem int_mem_iff_position (h : tokensFrom skip found = .ok tokens) :
    .value (.int n) ∈ tokens ↔ ∃ text rest, .word text :: rest ∈ positions skip found ∧ integer? text = some n := by
  induction found generalizing skip tokens with
  | nil => cases skip <;> (cases h; simp [positions])
  | cons lexeme rest ih =>
    cases skip with
    | succ skip => exact ih h
    | zero =>
      -- Where the first lexeme is no integer, the rest decides.
      have hother {behind : List Token} (hword : ∀ text, lexeme = .word text → integer? text ≠ some n)
          (hbehind : tokensFrom (used lexeme rest) rest = .ok behind) : .value (.int n) ∈ behind ↔
            ∃ text rest', .word text :: rest' ∈ positions 0 (lexeme :: rest) ∧ integer? text = some n := by
        rw [ih hbehind]
        refine exists_congr fun text => exists_congr fun rest' => and_congr_left fun hn => ?_
        rw [positions, List.mem_cons]
        exact (or_iff_right fun heq => hword text (List.cons.inj heq).1.symm hn).symm
      cases lexeme with
      | blank => exact hother (fun _ hword => by cases hword) h
      | quoted text =>
        obtain ⟨behind, hbehind, hiff⟩ := exists_of_map_cons (n := n) h fun hvalue => by cases hvalue
        exact hiff.trans (hother (fun _ hword => by cases hword) hbehind)
      | word text =>
        by_cases hn : integer? text = some n
        · obtain ⟨behind, -, rfl⟩ := exists_of_map_eq_ok h
          exact iff_of_true (List.mem_cons.mpr (.inl (wordToken_eq_int_iff.mpr hn).symm))
            ⟨text, rest, List.mem_cons_self .., hn⟩
        · obtain ⟨behind, hbehind, hiff⟩ := exists_of_map_cons h (mt wordToken_eq_int_iff.mp hn)
          refine hiff.trans (hother (fun text' heq => ?_) hbehind)
          cases heq
          exact hn
      | sign s =>
        rw [tokensFrom] at h
        split at h
        · cases h
        · rename_i token count hsign
          have hvalue := isValue_signToken hsign
          obtain ⟨behind, hbehind, hiff⟩ := exists_of_map_cons (n := n) h fun heq => by
            rw [heq] at hvalue
            cases hvalue
          have hused : used (.sign s) rest = count := by rw [used, hsign]; rfl
          exact hiff.trans (hother (fun _ hword => by cases hword) (hused ▸ hbehind))

theorem updatable_le (token : Token) (front : List Lexeme) (word : List Char) (rest : List Lexeme) :
    (updatable token (front ++ .word word :: rest)).2 ≤ front.length := by
  rcases front with _ | ⟨first, front⟩
  · exact Nat.zero_le _
  · unfold updatable
    split <;> simp

theorem beforeEquals_le (token changed : Token) (front : List Lexeme) (word : List Char) (rest : List Lexeme) :
    (beforeEquals token changed (front ++ .word word :: rest)).2 ≤ front.length := by
  rcases front with _ | ⟨first, front⟩
  · exact Nat.zero_le _
  · unfold beforeEquals
    split <;> simp

theorem doubled_le (s : Sign) (token : Token) (front : List Lexeme) (word : List Char) (rest : List Lexeme) :
    (doubled s token (front ++ .word word :: rest)).toOption.elim 0 Prod.snd ≤ front.length := by
  rcases front with _ | ⟨first, _ | ⟨second, front⟩⟩
  · exact Nat.zero_le _
  · cases first with
    | sign s' =>
      simp only [doubled, List.cons_append, List.nil_append]
      split <;> simp [Except.toOption]
    | _ => exact Nat.zero_le _
  · unfold doubled
    split
    · split
      · split <;> simp [Except.toOption]
      · exact Nat.zero_le _
    · exact Nat.zero_le _

/-- No float reaches to a word that ends in the letter of an exponent. -/
theorem wordToken_le_of_endsInLetter (hletter : EndsInLetter word) (text : List Char) (front rest : List Lexeme) :
    (wordToken text (front ++ .word word :: rest)).2 ≤ front.length := by
  have hfloat (c : Char) : float? (text ++ c :: word) = none := by
    rw [List.append_cons]
    exact (hletter.append _).float?_eq_none
  unfold wordToken
  split
  · exact Nat.zero_le _
  · split
    · rename_i hsigned
      rcases front with _ | ⟨first, _ | ⟨second, front⟩⟩
      · cases hsigned
      · unfold signedFloat? at hsigned
        split at hsigned
        · rename_i heq
          cases heq
          rw [Lexeme.text, hfloat] at hsigned
          cases hsigned
        · rename_i heq
          cases heq
          rw [Lexeme.text, hfloat] at hsigned
          cases hsigned
        · cases hsigned
      · simp
    · exact Nat.zero_le _

/-- Nor does any token. -/
theorem used_le (hletter : EndsInLetter word) (lexeme : Lexeme) (front rest : List Lexeme) :
    used lexeme (front ++ .word word :: rest) ≤ front.length := by
  cases lexeme with
  | blank | quoted _ => exact Nat.zero_le _
  | word text => exact wordToken_le_of_endsInLetter hletter text front rest
  | sign s =>
    cases s with
    | plus | minus | star | slash | percent | hat => exact updatable_le _ front word rest
    | equals | exclamation | greater | less => exact beforeEquals_le _ _ front word rest
    | ampersand | bar => exact doubled_le _ _ front word rest
    | openParen | closeParen | comma | semicolon => exact Nat.zero_le _

/-- The reader comes to a word that ends in the letter of an exponent, whatever stands before it. -/
theorem positions_append (hletter : EndsInLetter word) (hskip : skip ≤ front.length) (rest : List Lexeme) :
    ∃ before, positions skip (front ++ .word word :: rest) = before ++ positions 0 (.word word :: rest) ∧
      ∀ position ∈ before, rest.length + 1 < position.length := by
  induction front generalizing skip with
  | nil => exact ⟨[], by rw [Nat.le_zero.mp hskip]; rfl, nofun⟩
  | cons lexeme front ih =>
    cases skip with
    | succ skip => exact ih (Nat.le_of_succ_le_succ hskip)
    | zero =>
      obtain ⟨before, hbefore, hlonger⟩ := ih (used_le hletter lexeme front rest)
      refine ⟨(lexeme :: (front ++ .word word :: rest)) :: before, ?_, fun position hposition => ?_⟩
      · rw [List.cons_append, positions, hbefore]
        rfl
      · rcases List.mem_cons.mp hposition with rfl | hposition
        · simp only [List.length_cons, List.length_append]
          omega
        · exact hlonger position hposition

/-- The sign and the word behind a word that ends in the letter of an exponent belong to it if all three are a float. -/
theorem wordToken_signed (hletter : EndsInLetter word) (hs : s = .plus ∨ s = .minus) (text : List Char)
    (rest : List Lexeme) :
    (wordToken word (.sign s :: .word text :: rest)).2 = 0 ∧ float? (word ++ s.char :: text) = none ∨
      (wordToken word (.sign s :: .word text :: rest)).2 = 2 ∧ float? (word ++ s.char :: text) ≠ none := by
  have hsigned : signedFloat? word (.sign s :: .word text :: rest) = float? (word ++ s.char :: text) := by
    rcases hs with rfl | rfl <;> rfl
  unfold wordToken
  cases hliteral : literal? word with
  | some v => exact .inl ⟨rfl, hletter.float?_append_eq_none hliteral _⟩
  | none =>
    dsimp only
    rw [hsigned]
    cases float? (word ++ s.char :: text) with
    | none => exact .inl ⟨rfl, rfl⟩
    | some x => exact .inr ⟨rfl, nofun⟩

/-- The reader comes to the word behind the sign of an exponent unless it belongs to the word before the sign. -/
theorem mem_positions_iff (hletter : EndsInLetter word) (hs : s = .plus ∨ s = .minus) :
    .word text :: rest ∈ positions 0 (front ++ .word word :: .sign s :: .word text :: rest) ↔
      float? (word ++ s.char :: text) = none := by
  obtain ⟨before, hbefore, hlonger⟩ :=
    positions_append hletter (Nat.zero_le front.length) (.sign s :: .word text :: rest)
  have hnot : .word text :: rest ∉ before := fun hmem => by
    have hlength := hlonger _ hmem
    simp only [List.length_cons] at hlength
    omega
  have hfirst : .word text :: rest ≠ .word word :: .sign s :: .word text :: rest := fun heq => by
    have hlength := congrArg List.length heq
    simp only [List.length_cons] at hlength
    omega
  rw [hbefore, List.mem_append, or_iff_right hnot, positions, List.mem_cons, or_iff_right hfirst, used]
  rcases wordToken_signed hletter hs text rest with ⟨hused, hnone⟩ | ⟨hused, hsome⟩
  · have hsign : used (.sign s) (.word text :: rest) = 0 := by rcases hs with rfl | rfl <;> rfl
    rw [hused, positions, hsign, positions]
    exact iff_of_true (by simp) hnone
  · rw [hused, positions, positions]
    refine iff_of_false (fun hmem => ?_) hsome
    have hle := (suffix_of_mem_positions hmem).length_le
    rw [List.length_cons] at hle
    omega

/-- The tokens of a formula are read from its lexemes. -/
theorem exists_lexemes {found : List Token} (h : Formula.tokens text = .ok found) :
    ∃ lexed, lexemes text = .ok lexed ∧ tokensFrom 0 lexed = .ok found := by
  unfold Formula.tokens at h
  split at h
  · cases h
  · rename_i lexed hlexed
    exact ⟨lexed, hlexed, h⟩

/-- The integer that a token is. -/
def Token.int? : Token → Option Int
  | value (.int n) => some n
  | _ => none

theorem Token.eq_of_int? {token : Token} (h : token.int? = some n) : token = .value (.int n) := by
  unfold int? at h
  split at h
  · cases h
    rfl
  · cases h

end

end OdeSystem.Formula
