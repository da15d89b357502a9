import Mathlib.Data.List.Basic
import OdeSystem.Proofs.Text.Blank
import OdeSystem.Vector.Literal

/-!
Vector literals as they are written. What is written with balanced parts is read again as the same literal, whatever
follows it, and characters that open no bracket are read as themselves.
-/

namespace OdeSystem.Vector

open Text

/-- Whether a text can be the rest of a part of a literal when `depth` groups are open: it closes these and all that
it opens, nothing else, and has no comma outside of groups. -/
def isPart : Nat → List Char → Bool
  | depth, [] => depth == 0
  | depth, c :: rest =>
    if c = '(' ∨ c = '[' then isPart (depth + 1) rest
    else if c = ')' ∨ c = ']' then
      match depth with
      | 0 => false
      | depth + 1 => isPart depth rest
    else if c = ',' ∧ depth = 0 then false
    else isPart depth rest

theorem isPart_of_plain {text : List Char} (h : ∀ c ∈ text, c ∉ ['(', '[', ')', ']', ',']) :
    isPart 0 text = true := by
  induction text with
  | nil => rfl
  | cons c rest ih =>
    have hc := h c (List.mem_cons_self ..)
    simp only [List.mem_cons, List.not_mem_nil, or_false, not_or] at hc
    obtain ⟨h₁, h₂, h₃, h₄, h₅⟩ := hc
    simp only [isPart, h₁, h₂, h₃, h₄, h₅, or_self, false_and, ↓reduceIte]
    exact ih fun d hd => h d (List.mem_cons_of_mem _ hd)

theorem foldr_pushChar (part first : List Char) (parts : List (List Char)) :
    part.foldr pushChar (first :: parts) = (part ++ first) :: parts := by
  induction part with
  | nil => rfl
  | cons c part ih => rw [List.foldr_cons, ih]; rfl

theorem takeParts_cons (closing : Char) (depth : Nat) (c : Char) (rest : List Char) :
    takeParts closing depth (c :: rest) =
      if c = '(' ∨ c = '[' then
        (takeParts closing (depth + 1) rest).map fun found => (pushChar c found.1, found.2)
      else if c = ')' ∨ c = ']' then
        match depth with
        | depth + 1 => (takeParts closing depth rest).map fun found => (pushChar c found.1, found.2)
        | 0 => if c = closing ∧ rest.head? = some closing then some ([[]], rest.tail) else none
      else if c = ',' ∧ depth = 0 then (takeParts closing depth rest).map fun found => ([] :: found.1, found.2)
      else (takeParts closing depth rest).map fun found => (pushChar c found.1, found.2) := by
  cases depth <;> rfl

theorem takeParts_append {closing : Char} {depth : Nat} {part : List Char} (h : isPart depth part = true)
    (behind : List Char) :
    takeParts closing depth (part ++ behind) =
      (takeParts closing 0 behind).map fun found => (part.foldr pushChar found.1, found.2) := by
  induction part generalizing depth with
  | nil =>
    simp only [isPart, beq_iff_eq] at h
    subst h
    rw [List.nil_append]
    cases takeParts closing 0 behind <;> rfl
  | cons c rest ih =>
    have hcons {depth : Nat} (hrest : isPart depth rest = true) :
        ((takeParts closing depth (rest ++ behind)).map fun found => (pushChar c found.1, found.2)) =
          (takeParts closing 0 behind).map fun found => ((c :: rest).foldr pushChar found.1, found.2) := by
      rw [ih hrest, Option.map_map]
      rfl
    -- Reading and the rule for parts ask the same questions of a character, in the same order.
    rw [List.cons_append, takeParts_cons]
    rw [isPart.eq_def] at h
    dsimp only at h
    split
    · rename_i hopening
      rw [if_pos hopening] at h
      exact hcons h
    · rename_i hopening
      rw [if_neg hopening] at h
      split
      · rename_i hclosing
        rw [if_pos hclosing] at h
        cases depth with
        | zero => cases h
        | succ depth => exact hcons h
      · rename_i hclosing
        rw [if_neg hclosing] at h
        split
        · rename_i hcomma
          rw [if_pos hcomma] at h
          cases h
        · rename_i hcomma
          rw [if_neg hcomma] at h
          exact hcons h

/-- Parts between commas are read up to the brackets that close them. -/
theorem takeParts_intercalate {closing : Char} (hclosing : closing = ')' ∨ closing = ']') {parts : List (List Char)}
    (hne : parts ≠ []) (h : ∀ part ∈ parts, isPart 0 part = true) (behind : List Char) :
    takeParts closing 0 (List.intercalate [','] parts ++ closing :: closing :: behind) = some (parts, behind) := by
  have hend : takeParts closing 0 (closing :: closing :: behind) = some ([[]], behind) := by
    rcases hclosing with rfl | rfl <;> simp [takeParts]
  induction parts with
  | nil => exact absurd rfl hne
  | cons part parts ih =>
    have hpart := h part (List.mem_cons_self ..)
    cases parts with
    | nil =>
      rw [List.intercalate_singleton, takeParts_append hpart, hend, Option.map_some, foldr_pushChar, List.append_nil]
    | cons next parts =>
      have hrest := ih (by simp) fun p hp => h p (List.mem_cons_of_mem _ hp)
      have hcomma :
          takeParts closing 0 (',' :: (List.intercalate [','] (next :: parts) ++ closing :: closing :: behind)) =
            some ([] :: next :: parts, behind) := by
        rw [takeParts_cons, hrest]
        simp
      rw [List.intercalate_cons_cons]
      simp only [List.append_assoc, List.cons_append, List.nil_append]
      rw [takeParts_append hpart, hcomma, Option.map_some, foldr_pushChar, List.append_nil]

namespace Literal

/-- Whether every part of a literal can be read as one. -/
def WellFormed (l : Literal) : Prop := ∀ part ∈ l.parts, isPart 0 part = true

instance (l : Literal) : Decidable l.WellFormed :=
  inferInstanceAs (Decidable (∀ part ∈ l.parts, isPart 0 part = true))

variable {l : Literal}

theorem takeLiteral_text (h : l.WellFormed) (behind : List Char) :
    takeLiteral (l.text ++ behind) = some (l, behind) := by
  obtain ⟨bracket, parts, htwo⟩ := l
  have hne : parts ≠ [] := fun heq => by simp [heq] at htwo
  cases bracket with
  | round =>
    have hread := takeParts_intercalate (.inl rfl) hne h behind
    simp [text, takeLiteral, takeBody, Bracket.opening, Bracket.closing, hread, htwo]
  | square =>
    have hread := takeParts_intercalate (.inr rfl) hne h behind
    simp [text, takeLiteral, takeBody, Bracket.opening, Bracket.closing, hread, htwo]

end Literal

/-! ### Pieces -/

/-- A literal is one piece. -/
theorem pieces_literal {l : Literal} (h : l.WellFormed) (behind : List Char) :
    pieces (l.text ++ behind) = .literal l :: pieces behind := by
  obtain ⟨c, rest, htext⟩ : ∃ c rest, l.text = c :: rest := ⟨_, _, rfl⟩
  have hread := Literal.takeLiteral_text h behind
  rw [htext, List.cons_append] at hread
  have hdrop : (rest ++ behind).drop ((rest ++ behind).length - behind.length) = behind := by
    rw [List.length_append, Nat.add_sub_cancel, List.drop_left]
  rw [htext, List.cons_append, pieces, pieces_cons, cutPiece, hread]
  simp only [hdrop]
  rfl

theorem pieces_char {c : Char} (h : c ∉ ['(', '[']) (rest : List Char) :
    pieces (c :: rest) = .char c :: pieces rest := by
  simp only [List.mem_cons, List.not_mem_nil, or_false, not_or] at h
  have hread : takeLiteral (c :: rest) = none := by simp [takeLiteral, h.1, h.2]
  rw [pieces, pieces_cons, cutPiece, hread]
  rfl

theorem pieces_chars {front : List Char} (h : ∀ c ∈ front, c ∉ ['(', '[']) (rest : List Char) :
    pieces (front ++ rest) = front.map .char ++ pieces rest := by
  induction front with
  | nil => rfl
  | cons c front ih =>
    rw [List.cons_append, pieces_char (h c (List.mem_cons_self ..)), ih fun d hd => h d (List.mem_cons_of_mem _ hd)]
    rfl

/-! ### Texts of literals -/

namespace Literal
variable {l : Literal}

theorem tight_text (l : Literal) : Tight l.text := by
  have hopening : isBlank l.bracket.opening = false := by cases l.bracket <;> decide
  have hclosing : isBlank l.bracket.closing = false := by cases l.bracket <;> decide
  have h := tight_cons_append hopening hclosing
    (l.bracket.opening :: List.intercalate [','] l.parts ++ [l.bracket.closing])
  simpa [text] using h

theorem mem_intercalate {c d : Char} {parts : List (List Char)} (h : c ∈ List.intercalate [d] parts) :
    c = d ∨ ∃ part ∈ parts, c ∈ part := by
  induction parts with
  | nil => simp at h
  | cons part parts ih =>
    cases parts with
    | nil => exact .inr ⟨part, by simp, by simpa using h⟩
    | cons next parts =>
      rw [List.intercalate_cons_cons] at h
      rcases List.mem_append.mp h with h | h
      · rcases List.mem_append.mp h with h | h
        · exact .inr ⟨part, by simp, h⟩
        · exact .inl (List.mem_singleton.mp h)
      · exact (ih h).imp id fun ⟨p, hp, hc⟩ => ⟨p, List.mem_cons_of_mem _ hp, hc⟩

theorem mem_intercalate_of_mem {separator part : List Char} {parts : List (List Char)} (hpart : part ∈ parts) {c : Char}
    (hc : c ∈ part) : c ∈ List.intercalate separator parts := by
  induction parts with
  | nil => cases hpart
  | cons first others ih =>
    cases others with
    | nil =>
      obtain rfl := List.mem_singleton.mp hpart
      simpa using hc
    | cons next others =>
      rw [List.intercalate_cons_cons]
      rcases List.mem_cons.mp hpart with rfl | hpart
      · exact List.mem_append_left _ (List.mem_append_left _ hc)
      · exact List.mem_append_right _ (ih hpart)

theorem not_mem_text (h : ∀ part ∈ l.parts, '=' ∉ part) : '=' ∉ l.text := by
  intro hmem
  have hopening : '=' ≠ l.bracket.opening := by cases l.bracket <;> decide
  have hclosing : '=' ≠ l.bracket.closing := by cases l.bracket <;> decide
  simp only [text, List.mem_append, List.mem_cons, List.not_mem_nil, or_false, hopening, hclosing, or_self,
    false_or] at hmem
  rcases mem_intercalate hmem with hcomma | ⟨part, hpart, hmem⟩
  · revert hcomma
    decide
  · exact h part hpart hmem

end Literal

end OdeSystem.Vector
