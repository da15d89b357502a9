import Mathlib.Data.List.Basic
import OdeSystem.Formula.Token
import OdeSystem.Proofs.Formula.Name
import OdeSystem.Proofs.Logged

/-!
Where the words of a formula begin. A text is read one character after the other, but for quoted texts and comments,
which are left behind a character that ends them. Characters of words that stand next to each other are joined, so every
word of the formula begins at a character of a word that stands behind none; and integers are read off words only.
-/

namespace OdeSystem.Formula

open Text

/-! ### Lexemes before words are joined -/

/-- The lexemes of a text, each character of a word by itself. -/
def rawLexemes (text : List Char) : Except LexicalFault (List Lexeme) :=
  ((pieces lexicalPiece () text).mapM id).map fun found => found.filterMap id

theorem lexemes_eq (text : List Char) : lexemes text = (rawLexemes text).map joinWords := by
  unfold lexemes rawLexemes
  cases (pieces lexicalPiece () text).mapM id <;> rfl

section
variable {c : Char} {rest rest' : List Char} {raw : List Lexeme}

theorem rawLexemes_cons (c : Char) (rest : List Char) :
    rawLexemes (c :: rest) = (lexicalPiece () c rest).value.bind fun found =>
      (rawLexemes (rest.drop (lexicalPiece () c rest).extra)).map fun behind => found.toList ++ behind := by
  unfold rawLexemes
  rw [pieces_cons, List.mapM_cons]
  cases (lexicalPiece () c rest).value with
  | error fault => rfl
  | ok found =>
    cases (pieces lexicalPiece () (rest.drop (lexicalPiece () c rest).extra)).mapM id with
    | error fault => rfl
    | ok behind => cases found <;> rfl

/-- Whether a character ends a quoted text or a comment. -/
def isEnding (c : Char) : Bool := c == '"' || c == '/' || c == '\n'

/-- Whether a text is left behind a character that ends a quoted text or a comment, or by a comment that goes on to the
end. -/
def LeftBehind (rest rest' : List Char) : Prop :=
  rest' = [] ∨ ∃ inner d, isEnding d = true ∧ rest = inner ++ d :: rest'

theorem LeftBehind.cons (h : LeftBehind rest rest') (c : Char) : LeftBehind (c :: rest) rest' := by
  rcases h with h | ⟨inner, d, hd, rfl⟩
  · exact .inl h
  · exact .inr ⟨c :: inner, d, hd, rfl⟩

theorem leftBehind_quotedText {found : List Char × Nat} (h : quotedText rest = .ok found) :
    LeftBehind rest (rest.drop found.2) := by
  fun_induction quotedText rest generalizing found with
  | case1 => cases h
  | case2 rest =>
    cases h
    exact .inr ⟨[], '"', rfl, rfl⟩
  | case3 c rest _ ih =>
    obtain ⟨found', hfound, rfl⟩ := exists_of_map_eq_ok h
    exact ((ih hfound).cons c).cons _
  | case4 => cases h
  | case5 => cases h
  | case6 c rest _ _ _ ih =>
    obtain ⟨found', hfound, rfl⟩ := exists_of_map_eq_ok h
    exact (ih hfound).cons c

theorem leftBehind_lineComment (rest : List Char) : LeftBehind rest (rest.drop (lineCommentLength rest)) := by
  fun_induction lineCommentLength rest with
  | case1 => exact .inl rfl
  | case2 rest => exact .inr ⟨[], '\n', rfl, rfl⟩
  | case3 c rest _ ih => exact ih.cons c

theorem leftBehind_blockComment {n : Nat} (h : blockCommentLength? rest = some n) : LeftBehind rest (rest.drop n) := by
  fun_induction blockCommentLength? rest generalizing n with
  | case1 rest =>
    cases h
    exact .inr ⟨['*'], '/', rfl, rfl⟩
  | case2 c rest _ ih =>
    obtain ⟨n, hn, rfl⟩ := Option.map_eq_some_iff.mp h
    exact (ih hn).cons c
  | case3 => cases h

/-- A character has its lexeme, or it begins a quoted text or a comment, which is no part of a word. -/
theorem rawLexemes_cases (h : rawLexemes (c :: rest) = .ok raw) :
    (∃ behind, rawLexemes rest = .ok behind ∧ raw = .ofChar c :: behind) ∨
      (c = '"' ∨ c = '/') ∧ ∃ rest' behind, LeftBehind rest rest' ∧ rawLexemes rest' = .ok behind ∧
        (raw = behind ∨ ∃ text, raw = .quoted text :: behind) := by
  rw [rawLexemes_cons] at h
  unfold lexicalPiece at h
  split at h
  · split at h
    · rename_i hquoted
      obtain ⟨behind, hbehind, rfl⟩ := exists_of_map_eq_ok h
      exact .inr ⟨.inl rfl, _, behind, leftBehind_quotedText hquoted, hbehind, .inr ⟨_, rfl⟩⟩
    · cases h
  · obtain ⟨behind, hbehind, rfl⟩ := exists_of_map_eq_ok h
    rename_i rest
    rw [Nat.add_comm] at hbehind
    exact .inr ⟨.inr rfl, _, behind, (leftBehind_lineComment rest).cons _, hbehind, .inl rfl⟩
  · split at h
    · rename_i hcomment
      obtain ⟨behind, hbehind, rfl⟩ := exists_of_map_eq_ok h
      rw [Nat.add_comm] at hbehind
      exact .inr ⟨.inr rfl, _, behind, (leftBehind_blockComment hcomment).cons _, hbehind, .inl rfl⟩
    · cases h
  · obtain ⟨behind, hbehind, rfl⟩ := exists_of_map_eq_ok h
    exact .inl ⟨behind, hbehind, rfl⟩

end

/-! ### Words -/

/-- The word that some lexemes begin with when they are joined. -/
def leadingWord (raw : List Lexeme) : List Char :=
  match joinWords raw with
  | .word text :: _ => text
  | _ => []

theorem leadingWord_word (text : List Char) (rest : List Lexeme) :
    leadingWord (.word text :: rest) = text ++ leadingWord rest := by
  unfold leadingWord
  rw [joinWords]
  rcases joinWords rest with _ | ⟨first, others⟩
  · exact (List.append_nil text).symm
  · cases first <;> simp

theorem leadingWord_run (run : List Char) (raw : List Lexeme) :
    leadingWord (run.map (fun c => .word [c]) ++ raw) = run ++ leadingWord raw := by
  induction run with
  | nil => rfl
  | cons c run ih =>
    rw [List.map_cons, List.cons_append, leadingWord_word, ih]
    rfl

/-- Whether a word that stands behind some lexemes begins there, and does not go on with the last of them. -/
def Fresh (before : List Lexeme) : Prop := ∀ text, before.getLast? ≠ some (.word text)

section
variable {before raw front behind : List Lexeme} {text run : List Char}

theorem fresh_nil : Fresh [] := fun _ h => by cases h

theorem Fresh.cons {lexeme : Lexeme} (h : Fresh before) (hne : before ≠ []) : Fresh (lexeme :: before) := by
  obtain ⟨first, others, rfl⟩ := List.exists_cons_of_ne_nil hne
  exact fun text hlast => h text (List.getLast?_cons_cons ▸ hlast)

theorem ne_nil_of_joinWords {lexeme : Lexeme} (h : joinWords before = lexeme :: front) : before ≠ [] := by
  rintro rfl
  cases h

/-- Where a word that is joined from some lexemes comes from: it is joined from those behind a fresh place. -/
def JoinedFrom (raw front : List Lexeme) (text : List Char) : Prop :=
  ∃ before first rest, raw = before ++ .word first :: rest ∧ joinWords before = front ∧ Fresh before ∧
    first ++ leadingWord rest = text

/-- A lexeme that is no word is joined with nothing. -/
theorem JoinedFrom.cons {lexeme : Lexeme} (hnot : ∀ text, lexeme ≠ .word text)
    (hcons : ∀ before, joinWords (lexeme :: before) = lexeme :: joinWords before) (h : JoinedFrom raw front text) :
    JoinedFrom (lexeme :: raw) (lexeme :: front) text := by
  obtain ⟨before, first, rest, rfl, rfl, hfresh, htext⟩ := h
  refine ⟨lexeme :: before, first, rest, rfl, hcons before, ?_, htext⟩
  cases before with
  | nil => exact fun text hlast => hnot text (Option.some.inj hlast)
  | cons _ _ => exact hfresh.cons (List.cons_ne_nil _ _)

/-- A word among lexemes that are joined is joined from some of them, and stands fresh behind those before it. -/
theorem exists_of_joinWords_eq (h : joinWords raw = front ++ .word text :: behind) : JoinedFrom raw front text := by
  induction raw generalizing front text behind with
  | nil => simp [joinWords] at h
  | cons lexeme raw ih =>
    have hother (hnot : ∀ text, lexeme ≠ .word text)
        (hcons : ∀ before, joinWords (lexeme :: before) = lexeme :: joinWords before) :
        JoinedFrom (lexeme :: raw) front text := by
      rw [hcons] at h
      cases front with
      | nil => exact absurd (List.cons.inj h).1 (hnot text)
      | cons first front =>
        obtain ⟨rfl, hrest⟩ := List.cons.inj h
        exact (ih hrest).cons hnot hcons
    cases lexeme with
    | word own =>
      cases front with
      | nil =>
        refine ⟨[], own, raw, rfl, rfl, fresh_nil, ?_⟩
        have hword : leadingWord (.word own :: raw) = text := by
          rw [leadingWord, h]
          rfl
        rw [← hword, leadingWord_word]
      | cons first front =>
        rw [joinWords] at h
        split at h
        · rename_i more others hraw
          obtain ⟨rfl, rfl⟩ := List.cons.inj h
          have hraw : joinWords raw = (.word more :: front) ++ .word text :: behind := hraw
          obtain ⟨before, first, rest, rfl, hbefore, hfresh, htext⟩ := ih hraw
          refine ⟨.word own :: before, first, rest, rfl, ?_, hfresh.cons (ne_nil_of_joinWords hbefore), htext⟩
          rw [joinWords, hbefore]
        · rename_i hnot
          obtain ⟨rfl, hraw⟩ := List.cons.inj h
          obtain ⟨before, first, rest, rfl, rfl, hfresh, htext⟩ := ih hraw
          cases hbefore : joinWords before with
          | nil => exact absurd (hraw.trans (by rw [hbefore]; rfl)) (hnot text behind)
          | cons other others =>
            refine ⟨.word own :: before, first, rest, rfl, ?_, hfresh.cons (ne_nil_of_joinWords hbefore), htext⟩
            cases other with
            | word more => exact absurd (hraw.trans (by rw [hbefore]; rfl)) (hnot more _)
            | _ => rw [joinWords, hbefore]
    | _ => exact hother (fun _ hword => by cases hword) fun _ => rfl

/-- Characters of a word at the end of some lexemes end the last word of them. -/
theorem joinWords_append_run (front : List Lexeme) (hne : run ≠ []) :
    ∃ before word, joinWords (front ++ run.map fun c => .word [c]) = before ++ [.word (word ++ run)] := by
  obtain ⟨c, run, rfl⟩ := List.exists_cons_of_ne_nil hne
  induction front with
  | nil => exact ⟨[], [], joinWords_chars⟩
  | cons lexeme front ih =>
    obtain ⟨before, word, hjoin⟩ := ih
    rw [List.cons_append]
    cases lexeme with
    | word text =>
      rw [joinWords, hjoin]
      rcases before with _ | ⟨first, before⟩
      · exact ⟨[], text ++ word, by simp⟩
      · cases first with
        | word more => exact ⟨.word (text ++ more) :: before, word, rfl⟩
        | _ => exact ⟨.word text :: _ :: before, word, rfl⟩
    | _ => exact ⟨_ :: before, word, congrArg _ hjoin⟩

/-- Whether every word that begins among some lexemes has a property together with the lexemes before it. -/
def EachWord (P : List Lexeme → List Char → Prop) (before raw : List Lexeme) : Prop :=
  ∀ front first rest, raw = front ++ .word first :: rest → Fresh (before ++ front) →
    P (before ++ front) (first ++ leadingWord rest)

variable {P : List Lexeme → List Char → Prop}

theorem eachWord_nil : EachWord P before [] := fun _ _ _ h => by simp at h

theorem EachWord.cons {lexeme : Lexeme} (h : EachWord P (before ++ [lexeme]) raw)
    (hword : ∀ first, lexeme = .word first → Fresh before → P before (first ++ leadingWord raw)) :
    EachWord P before (lexeme :: raw) := by
  intro front first rest heq hfresh
  cases front with
  | nil =>
    obtain ⟨rfl, rfl⟩ := List.cons.inj heq
    rw [List.append_nil] at hfresh ⊢
    exact hword first rfl hfresh
  | cons other front =>
    obtain ⟨rfl, rfl⟩ := List.cons.inj heq
    have happend : before ++ lexeme :: front = before ++ [lexeme] ++ front := by simp
    rw [happend] at hfresh ⊢
    exact h front first rest rfl hfresh

/-- Behind a character of a word no word begins. -/
theorem EachWord.behind_word {own : List Char}
    (h : EachWord P (before ++ [.word own] ++ run.map fun c => .word [c]) raw) :
    EachWord P (before ++ [.word own]) (run.map (fun c => .word [c]) ++ raw) := by
  induction run generalizing before own with
  | nil => simpa using h
  | cons c run ih =>
    refine EachWord.cons (ih (by simpa using h)) fun _ _ hfresh => ?_
    exact absurd (List.getLast?_concat ..) (hfresh own)

/-- A run of characters is at most the beginning of one word. -/
theorem EachWord.of_run (h : EachWord P (before ++ run.map fun c => .word [c]) raw)
    (hword : ∀ more, P before (run ++ more)) : EachWord P before (run.map (fun c => .word [c]) ++ raw) := by
  cases run with
  | nil => simpa using h
  | cons c run =>
    refine EachWord.cons (EachWord.behind_word (by simpa using h)) fun first hfirst _ => ?_
    cases hfirst
    exact leadingWord_run run raw ▸ hword _

end

end OdeSystem.Formula
