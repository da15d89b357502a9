import OdeSystem.Formula.Eval
import OdeSystem.Proofs.Text.Character

/-!
Formulas that are a single name. Word characters are no signs, so they form one word; unless the word is a literal it
is the name of a variable, and the formula reads that variable and nothing else.
-/

namespace OdeSystem.Formula

open Text Number

/-! ### One word -/

theorem Sign.char_of_ofChar? {c : Char} {s : Sign} (h : Sign.ofChar? c = some s) : s.char = c := by
  unfold Sign.ofChar? at h
  split at h <;> cases h <;> rfl

theorem Sign.isWord_char (s : Sign) : isWord s.char = false := by
  have hpunctuation : isPunctuation s.char = true := by cases s <;> rfl
  exact isWord_of_isPunctuation hpunctuation

theorem ofChar_of_isWord {c : Char} (h : isWord c = true) : Lexeme.ofChar c = .word [c] := by
  unfold Lexeme.ofChar
  cases hsign : Sign.ofChar? c with
  | none => simp only [isBlank_of_isWord h, Bool.false_eq_true, ↓reduceIte]
  | some s => exact absurd (Sign.char_of_ofChar? hsign).symm (ne_of_isWord h s.isWord_char)

theorem lexicalPiece_of_isWord {c : Char} (h : isWord c = true) (rest : List Char) :
    lexicalPiece () c rest = ⟨.ok (some (.word [c])), 0, ()⟩ := by
  have hquote : c ≠ '"' := ne_of_isWord h (isWord_of_isPunctuation (by decide))
  have hslash : c ≠ '/' := ne_of_isWord h (isWord_of_isPunctuation (by decide))
  unfold lexicalPiece
  split
  · exact absurd rfl hquote
  · exact absurd rfl hslash
  · exact absurd rfl hslash
  · rw [ofChar_of_isWord h]

section
variable {word : List Char}

theorem pieces_word (words : ∀ c ∈ word, isWord c = true) :
    pieces lexicalPiece () word = word.map fun c => .ok (some (.word [c])) := by
  induction word with
  | nil => rfl
  | cons c rest ih =>
    rw [pieces_cons, lexicalPiece_of_isWord (words c (List.mem_cons_self ..)), List.drop_zero,
      ih fun d hd => words d (List.mem_cons_of_mem _ hd), List.map_cons]

theorem mapM_id_ok {ε α β : Type} (f : α → β) (xs : List α) :
    (xs.map fun x => (.ok (f x) : Except ε β)).mapM id = .ok (xs.map f) := by
  induction xs with
  | nil => rfl
  | cons x xs ih =>
    rw [List.map_cons, List.mapM_cons, ih]
    rfl

theorem joinWords_chars {c : Char} {rest : List Char} :
    joinWords ((c :: rest).map fun c => .word [c]) = [.word (c :: rest)] := by
  induction rest generalizing c with
  | nil => rfl
  | cons d rest ih =>
    rw [List.map_cons, joinWords, ih]
    rfl

theorem lexemes_word (hne : word ≠ []) (words : ∀ c ∈ word, isWord c = true) : lexemes word = .ok [.word word] := by
  cases word with
  | nil => exact absurd rfl hne
  | cons c rest =>
    have hsome : ((c :: rest).map fun c => some (Lexeme.word [c])).filterMap id =
        (c :: rest).map fun c => .word [c] := by
      rw [List.filterMap_map, Function.id_comp]
      exact congrFun (List.filterMap_eq_map (f := fun c => Lexeme.word [c])) _
    unfold lexemes
    rw [pieces_word words, mapM_id_ok, Except.map, hsome, joinWords_chars]

theorem tokens_word (hne : word ≠ []) (words : ∀ c ∈ word, isWord c = true) (hname : literal? word = none) :
    tokens word = .ok [.name (String.ofList word)] := by
  have htoken : wordToken word [] = (.name (String.ofList word), 0) := by
    unfold wordToken
    rw [hname]
    rfl
  rw [tokens, lexemes_word hne words]
  simp only [tokensFrom, htoken]
  rfl

/-- The tree of a formula that is a name reads that name. -/
theorem ofText_word (hne : word ≠ []) (words : ∀ c ∈ word, isWord c = true) (hname : literal? word = none) :
    Tree.ofText word = .ok (.node .group [.leaf (.read (String.ofList word))]) := by
  rw [Tree.ofText, tokens_word hne words hname]
  rfl

end

theorem eval_read {lookup : String → Option Float} {name : String} {x : Float} (h : lookup name = some x) :
    Tree.eval lookup (.node .group [.leaf (.read name)]) = .ok (.float x) := by
  have hread : Tree.eval lookup (.leaf (.read name)) = .ok (.float x) := by
    simp only [Tree.leaf, Tree.eval, Tree.evalAll, Operator.apply, h]
  simp only [Tree.eval, Tree.evalAll, hread, Except.map, Operator.apply, List.head?_cons, Option.getD_some]

/-! ### Literals that look like names -/

/-- Whether a text is a word that formulas take for a literal: a truth value, or one of the words for numbers that are
no finite ones, in letters of either case. -/
def isReserved (text : List Char) : Bool :=
  text = "true".toList || text = "false".toList || text.map Char.toLower = "inf".toList ||
    text.map Char.toLower = "infinity".toList || text.map Char.toLower = "nan".toList

section
variable {c : Char} (hc : isNameStart c = true) (rest : List Char)
include hc

theorem ne_of_isNameStart {d : Char} (hd : isNameStart d = false) : c ≠ d := by
  rintro rfl
  rw [hc] at hd
  cases hd

theorem isAsciiDigit_of_isNameStart : isAsciiDigit c = false := by
  have hid : isIdentifierChar c = true := by rw [isIdentifierChar, hc, Bool.true_or]
  have hnone : (!isNameStart c || !isAsciiDigit c) = true :=
    of_isIdentifierChar (p := fun c => !isNameStart c || !isAsciiDigit c) (by decide) hid
  simpa [hc] using hnone

theorem takeSign_name : takeSign (c :: rest) = (false, c :: rest) := by
  unfold takeSign
  split
  · rename_i heq
    exact absurd (List.cons.inj heq).1 (ne_of_isNameStart hc (by decide))
  · rename_i heq
    exact absurd (List.cons.inj heq).1 (ne_of_isNameStart hc (by decide))
  · rfl

theorem integer?_name : integer? (c :: rest) = none := by
  unfold integer?
  split
  · rename_i heq
    exact absurd (List.cons.inj heq).1 (ne_of_isNameStart hc (by decide))
  · simp [isDigits, isAsciiDigit_of_isNameStart hc]

theorem numeral?_name : Numeral.ofText? (c :: rest) = none := by
  have hdigit : ¬ isAsciiDigit c = true := by simp [isAsciiDigit_of_isNameStart hc]
  have hdot : c ≠ '.' := ne_of_isNameStart hc (by decide)
  simp only [Numeral.ofText?, takeSign_name hc, magnitude?, List.takeWhile_cons_of_neg hdigit,
    List.dropWhile_cons_of_neg hdigit]
  split
  · rename_i heq
    exact absurd (List.cons.inj heq).1 hdot
  · rfl

/-- Of the texts that begin like a name the reserved words are the only literals. -/
theorem isSome_literal?_iff : (literal? (c :: rest)).isSome = true ↔ isReserved (c :: rest) = true := by
  simp only [literal?, integer?_name hc, float?, word?, takeSign_name hc, numeral?_name hc, isReserved,
    Bool.or_eq_true, decide_eq_true_eq]
  generalize (c :: rest).map Char.toLower = lower
  generalize c :: rest = text
  -- With no numerals left, the words are tried one after the other.
  by_cases hinf : lower = "inf".toList ∨ lower = "infinity".toList
  · rw [if_pos hinf]
    exact iff_of_true rfl (hinf.elim (fun h => .inl (.inl (.inr h))) fun h => .inl (.inr h))
  · rw [if_neg hinf]
    rw [not_or] at hinf
    by_cases hnan : lower = "nan".toList
    · rw [if_pos hnan]
      exact iff_of_true rfl (.inr hnan)
    · rw [if_neg hnan]
      by_cases htrue : text = "true".toList
      · simp only [Option.map_none, if_pos htrue]
        exact iff_of_true rfl (.inl (.inl (.inl (.inl htrue))))
      · by_cases hfalse : text = "false".toList
        · simp only [Option.map_none, if_neg htrue, if_pos hfalse]
          exact iff_of_true rfl (.inl (.inl (.inl (.inr hfalse))))
        · simp only [Option.map_none, if_neg htrue, if_neg hfalse]
          refine iff_of_false Bool.false_ne_true ?_
          rintro ((((h | h) | h) | h) | h)
          · exact htrue h
          · exact hfalse h
          · exact hinf.1 h
          · exact hinf.2 h
          · exact hnan h

end

end OdeSystem.Formula
