import OdeSystem.Proofs.Orientation
import OdeSystem.Proofs.Vector.Literal
import OdeSystem.Vector.Alias

/-!
Literals and derivatives as the sides of an equation. A literal is no derivative and a derivative is no literal, so an
equation between an alias and a literal declares the alias, one between the derivative of an alias and a literal is
about its components, and one about the derivative of a literal is neither.
-/

namespace OdeSystem.Vector

open Notation Text

namespace Literal
variable {l : Literal}

theorem expect_text (l : Literal) (rest : List Char) : expect 'd' (l.text ++ rest) = none := by
  obtain ⟨bracket, parts, htwo⟩ := l
  cases bracket <;> rfl

theorem takeNameSpaced_text (l : Literal) (rest : List Char) : takeNameSpaced (l.text ++ rest) = none := by
  obtain ⟨bracket, parts, htwo⟩ := l
  cases bracket <;> rfl

theorem spacedDerivativeOf?_text (l : Literal) : spacedDerivativeOf? l.text = none := by
  have := l.expect_text []
  rw [List.append_nil] at this
  simp [spacedDerivativeOf?, this]

theorem pieces_text (h : l.WellFormed) : pieces l.text = [.literal l] := by
  have := pieces_literal h []
  rwa [List.append_nil] at this

theorem isVector_text (h : l.WellFormed) : isVector l.text = true := by
  have hliteral : hasLiteral l.text = true := by simp [hasLiteral, pieces_text h, literals, Piece.literal?]
  obtain ⟨bracket, parts, htwo⟩ := l
  cases bracket with
  | round =>
    have hfront : ['(', '('].isPrefixOf (Literal.mk .round parts htwo).text = true := rfl
    have hback : [')', ')'].isSuffixOf (Literal.mk .round parts htwo).text = true :=
      List.isSuffixOf_iff_suffix.mpr (List.suffix_append _ _)
    simp [isVector, hfront, hback, hliteral]
  | square =>
    have hfront : ['[', '['].isPrefixOf (Literal.mk .square parts htwo).text = true := rfl
    have hback : [']', ']'].isSuffixOf (Literal.mk .square parts htwo).text = true :=
      List.isSuffixOf_iff_suffix.mpr (List.suffix_append _ _)
    simp [isVector, hfront, hback, hliteral]

end Literal

/-! ### Sides -/

section
variable {name left right : List Char} {l : Literal}

theorem tight_derivative (name : List Char) : Tight (derivative name) := by
  have h := tight_cons_append (c := 'd') (d := 't') (by decide) (by decide) (name ++ ['/', 'd'])
  simpa [derivative] using h

theorem tight_identifier (hname : isIdentifier name = true) : Tight name := by
  refine tight_of_forall (fun heq => ?_) fun c hc => isBlank_of_isIdentifierChar (isIdentifierChar_of_mem hname c hc)
  rw [heq] at hname
  cases hname

theorem splitEquation_spaced (hleft : '=' ∉ left) (right : List Char) :
    splitEquation (left ++ " = ".toList ++ right) = some (left ++ [' '], ' ' :: right) :=
  splitEquation_eq_some_iff.mpr ⟨by simp, by simp [hleft]⟩

/-- An equation is about the derivative of an alias if that is one side and a vector the other. -/
theorem aliasDerivative?_spaced (hequals : '=' ∉ left) (hleft : Tight left) (hright : Tight right) :
    aliasDerivative? (left ++ " = ".toList ++ right) =
      (derivativeAndVector? left right).or (derivativeAndVector? right left) := by
  have hleft' : trim ([] ++ left ++ [' ']) = left := hleft.trim_padded rfl (by decide)
  have hright' : trim ([' '] ++ right ++ []) = right := hright.trim_padded (by decide) rfl
  rw [List.nil_append] at hleft'
  rw [List.append_nil, List.singleton_append] at hright'
  rw [aliasDerivative?, splitEquation_spaced hequals]
  simp only [hleft', hright']

theorem derivativeAndVector?_text_left (l : Literal) (vector : List Char) :
    derivativeAndVector? l.text vector = none := by
  rw [derivativeAndVector?, l.spacedDerivativeOf?_text]

theorem derivativeAndVector?_derivative (hname : isIdentifier name = true) (h : l.WellFormed) :
    derivativeAndVector? (derivative name) l.text = some (name, l.text) := by
  simp [derivativeAndVector?, spacedDerivativeOf?_derivative hname, Literal.isVector_text h]

theorem derivativeAndVector?_identifier (hname : isIdentifier name = true) (vector : List Char) :
    derivativeAndVector? name vector = none := by
  cases hfound : spacedDerivativeOf? name with
  | none => rw [derivativeAndVector?, hfound]
  | some found => exact absurd (mem_of_spacedDerivativeOf? hfound) (not_mem_of_isIdentifier hname (by decide))

theorem unbracketed_identifier (hname : isIdentifier name = true) : ∀ c ∈ name, c ∉ ['(', '[', ')', ']', ','] := by
  intro c hc hmem
  have hnone : ['(', '[', ')', ']', ','].all (fun c => !isIdentifierChar c) = true := by decide
  have := List.all_eq_true.mp hnone c hmem
  simp [isIdentifierChar_of_mem hname c hc] at this

theorem span_chars (front : List Char) (l : Literal) (after : List Piece) :
    (front.map Piece.char ++ .literal l :: after).takeWhile (·.literal?.isNone) = front.map .char ∧
      (front.map Piece.char ++ .literal l :: after).dropWhile (·.literal?.isNone) = .literal l :: after := by
  have hchars : ∀ piece ∈ front.map Piece.char, piece.literal?.isNone = true := by simp [Piece.literal?]
  rw [List.takeWhile_append_of_pos hchars, List.dropWhile_append_of_pos hchars]
  simp [Piece.literal?]

theorem filterMap_chars (front : List Char) : (front.map Piece.char).filterMap Piece.char? = front := by
  rw [List.filterMap_map]
  exact List.filterMap_some

theorem declaration?_spaced (hname : isIdentifier name = true) (h : l.WellFormed) :
    declaration? (pieces (name ++ " = ".toList ++ l.text)) =
      some (String.ofList name, l.components.map fun c => String.ofList (strip c)) := by
  have hequals : '=' ∉ name := not_mem_of_isIdentifier hname (by decide)
  have hopen : ∀ c ∈ name ++ " = ".toList, c ∉ ['(', '['] := by
    intro c hc hmem
    rcases List.mem_append.mp hc with hc | hc
    · exact unbracketed_identifier hname c hc (List.mem_append_left [')', ']', ','] hmem)
    · exact (by simp : ∀ c ∈ " = ".toList, c ∉ ['(', '[']) c hc hmem
  have hpieces : pieces (name ++ " = ".toList ++ l.text) = (name ++ " = ".toList).map .char ++ [.literal l] := by
    rw [pieces_chars hopen, Literal.pieces_text h]
  have hsplit : splitEquation (name ++ " = ".toList) = some (name ++ [' '], [' ']) := by
    simpa using splitEquation_spaced hequals []
  have htrim : trim ([] ++ name ++ [' ']) = name := (tight_identifier hname).trim_padded rfl (by decide)
  rw [List.nil_append] at htrim
  obtain ⟨hbefore, hbehind⟩ := span_chars (name ++ " = ".toList) l []
  rw [hpieces, declaration?, hbefore, hbehind, filterMap_chars, hsplit]
  simp [htrim, isName_of_isIdentifier hname, literals, (by decide : allBlank [' '] = true),
    (by decide : allBlank [] = true)]

end

end OdeSystem.Vector
