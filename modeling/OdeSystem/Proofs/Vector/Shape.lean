import OdeSystem.Proofs.Notation.Name
import OdeSystem.Proofs.Vector.Location
import OdeSystem.Proofs.Vector.Spelling

/-!
Shapes of equations. Names and derivatives are written without brackets, and a vector has some at both of its ends. So
the side of an equation that is a name or a derivative holds no literal, and a vector is no equation about the
derivative of an alias and declares none, wherever a sign of equality stands in it.
-/

namespace OdeSystem.Vector

open Notation Text

/-! ### Texts without brackets -/

/-- The characters that names, derivatives and the equations between them are written with. -/
inductive IsUnbracketed : Char → Prop
  | blank {c : Char} (h : isBlank c = true) : IsUnbracketed c
  | word {c : Char} (h : isWord c = true) : IsUnbracketed c
  | slash : IsUnbracketed '/'
  | equals : IsUnbracketed '='

theorem IsUnbracketed.not_mem {c : Char} (h : IsUnbracketed c) : c ∉ ['(', '[', ')', ']'] := by
  have hnone : ['(', '[', ')', ']'].all (fun c => !isBlank c && !isWord c) = true := by decide +kernel
  intro hmem
  have hc := List.all_eq_true.mp hnone c hmem
  rw [Bool.and_eq_true, Bool.not_eq_true', Bool.not_eq_true'] at hc
  cases h with
  | blank h => simp [h] at hc
  | word h => simp [h] at hc
  | slash => simp at hmem
  | equals => simp at hmem

theorem unbracketed_nil : Unbracketed [] := fun _ hc => nomatch hc

theorem Unbracketed.cons {c : Char} {rest : List Char} (h : IsUnbracketed c) (hrest : Unbracketed rest) :
    Unbracketed (c :: rest) := by
  intro d hd
  rcases List.mem_cons.mp hd with rfl | hd
  · exact h.not_mem
  · exact hrest d hd

theorem unbracketed_of_allBlank {text : List Char} (h : allBlank text = true) : Unbracketed text := fun c hc =>
  IsUnbracketed.not_mem (.blank (List.all_eq_true.mp h c hc))

theorem unbracketed_of_isName {name : List Char} (h : isName name = true) : Unbracketed name := fun c hc =>
  IsUnbracketed.not_mem (.word (isWord_of_isName h c hc))

/-- A text with blanks around it has no more brackets than without them. -/
theorem unbracketed_trim_iff {text : List Char} : Unbracketed (trim text) ↔ Unbracketed text := by
  obtain ⟨leading, trailing, hleading, htrailing, htext⟩ := exists_blanks_append_trim text
  constructor
  · intro h
    rw [htext]
    exact ((unbracketed_of_allBlank hleading).append h).append (unbracketed_of_allBlank htrailing)
  · intro h c hc
    exact h c (by rw [htext]; simp [hc])

theorem hasLiteral_of_unbracketed {text : List Char} (h : Unbracketed text) : hasLiteral text = false := by
  have hpieces := pieces_surrounded h unbracketed_nil []
  rw [List.append_nil, List.append_nil, List.map_nil, List.append_nil] at hpieces
  rw [hasLiteral, hpieces, literals_chars]
  rfl

theorem not_unbracketed_of_hasLiteral {text : List Char} (h : hasLiteral text = true) : ¬ Unbracketed text := by
  intro hplain
  rw [hasLiteral_of_unbracketed hplain] at h
  cases h

theorem literals_surrounded {front back : List Char} (hfront : Unbracketed front) (hback : Unbracketed back)
    (text : List Char) : literals (pieces (front ++ text ++ back)) = literals (pieces text) := by
  rw [pieces_surrounded hfront hback, List.append_assoc, literals_chars, literals_append, literals_chars_only,
    List.append_nil]

/-! ### Derivatives -/

section
variable {text name rest : List Char}

theorem unbracketed_of_trimLeft (h : Unbracketed (trimLeft text)) : Unbracketed text := by
  obtain ⟨blanks, hblanks, htext⟩ := exists_blanks_append_trimLeft text
  rw [htext]
  exact (unbracketed_of_allBlank hblanks).append h

theorem unbracketed_of_expectSpaced {c : Char} (hc : IsUnbracketed c) (h : expectSpaced c text = some rest)
    (hrest : Unbracketed rest) : Unbracketed text := by
  refine unbracketed_of_trimLeft ?_
  rw [eq_cons_of_expect h]
  exact hrest.cons hc

theorem unbracketed_of_takeName (h : takeName text = some (name, rest)) (hrest : Unbracketed rest) :
    Unbracketed text := by
  have htext : text = name ++ rest := by
    cases text with
    | nil => cases h
    | cons c text =>
      simp only [takeName] at h
      split at h
      · cases h
        simp
      · cases h
  rw [htext]
  exact (unbracketed_of_isName (isName_of_takeName h)).append hrest

theorem unbracketed_of_takeTime (h : takeTime text = some rest) (hrest : Unbracketed rest) : Unbracketed text := by
  unfold takeTime at h
  split at h
  · cases h
    exact hrest.cons (.word (by decide +kernel))
  · cases h
    exact hrest.cons (.word (by decide +kernel))
  · cases h

/-- The derivative of a name is written with words, blanks and the line of the fraction. -/
theorem unbracketed_of_spacedDerivativeOf? (h : spacedDerivativeOf? text = some name) : Unbracketed text := by
  simp only [spacedDerivativeOf?, Option.bind_eq_bind, Option.bind_eq_some_iff] at h
  obtain ⟨r₁, h₁, ⟨found, r₂⟩, h₂, r₃, h₃, r₄, h₄, r₅, h₅, hlast⟩ := h
  have hd : IsUnbracketed 'd' := .word (by decide +kernel)
  have hr₅ : Unbracketed r₅ := by
    split at hlast
    · rename_i hempty
      rw [List.isEmpty_iff.mp hempty]
      exact unbracketed_nil
    · cases hlast
  have hr₄ : Unbracketed r₄ := unbracketed_of_trimLeft (unbracketed_of_takeTime h₅ hr₅)
  have hr₃ : Unbracketed r₃ := unbracketed_of_expectSpaced hd h₄ hr₄
  have hr₂ : Unbracketed r₂ := unbracketed_of_expectSpaced .slash h₃ hr₃
  have hr₁ : Unbracketed r₁ := unbracketed_of_trimLeft (unbracketed_of_takeName h₂ hr₂)
  rw [eq_cons_of_expect h₁]
  exact hr₁.cons hd

theorem spacedDerivativeOf?_eq_none (h : ¬ Unbracketed text) : spacedDerivativeOf? (trim text) = none := by
  cases hfound : spacedDerivativeOf? (trim text) with
  | none => rfl
  | some name => exact absurd (unbracketed_trim_iff.mp (unbracketed_of_spacedDerivativeOf? hfound)) h

theorem isName_eq_false_of_derivative (h : spacedDerivativeOf? text = some name) : isName text = false := by
  rw [Bool.eq_false_iff]
  intro hname
  have hslash : isWord '/' = true := isWord_of_isName hname '/' (mem_of_spacedDerivativeOf? h)
  exact absurd hslash (by decide +kernel)

theorem isName_eq_false (h : ¬ Unbracketed text) : isName (trim text) = false := by
  rw [Bool.eq_false_iff]
  exact fun hname => h (unbracketed_trim_iff.mp (unbracketed_of_isName hname))

end

/-! ### Shapes -/

section
variable {text left right : List Char}

/-- The text of pieces is that of the characters before the first literal, and what follows them. -/
theorem flatMap_text (pieces : List Piece) :
    pieces.flatMap Piece.text = (pieces.takeWhile (·.literal?.isNone)).filterMap Piece.char? ++
      (pieces.dropWhile (·.literal?.isNone)).flatMap Piece.text := by
  induction pieces with
  | nil => rfl
  | cons piece rest ih =>
    cases piece with
    | char c => simpa [Piece.literal?, Piece.char?, Piece.text] using ih
    | literal l => simp [Piece.literal?]

/-- A declaration has a name before its first sign of equality. -/
theorem exists_of_declaration? {declared : String × List String} (h : declaration? (pieces text) = some declared) :
    ∃ left right, splitEquation text = some (left, right) ∧ isName (trim left) = true := by
  unfold declaration? at h
  dsimp only at h
  split at h
  · split at h
    · rename_i left between hbefore
      split at h
      · rename_i hname
        have htext := flatMap_text (pieces text)
        obtain ⟨hfront, hequals⟩ := splitEquation_eq_some_iff.mp hbefore
        rw [text_pieces, hfront, List.append_assoc, List.cons_append] at htext
        exact ⟨left, _, splitEquation_eq_some_iff.mpr ⟨htext, hequals⟩, hname.1⟩
      · cases h
    · cases h
  · cases h

/-- It has a single literal. -/
theorem exists_literals_of_declaration? {pieces : List Piece} {declared : String × List String}
    (h : declaration? pieces = some declared) : ∃ l, literals pieces = [l] := by
  have hspan : literals pieces = literals (pieces.takeWhile (·.literal?.isNone)) ++
      literals (pieces.dropWhile (·.literal?.isNone)) := by
    rw [← literals_append, List.takeWhile_append_dropWhile]
  have hbefore : literals (pieces.takeWhile (·.literal?.isNone)) = [] := by
    refine List.filterMap_eq_nil_iff.mpr fun piece hpiece => ?_
    simpa using List.mem_takeWhile_imp hpiece
  unfold declaration? at h
  dsimp only at h
  split at h
  · rename_i l after hbehind
    split at h
    · split at h
      · rename_i hname
        rw [hbefore, hbehind] at hspan
        exact ⟨l, hspan.trans (congrArg (l :: ·) (List.isEmpty_iff.mp hname.2.2.1))⟩
      · cases h
    · cases h
  · cases h

theorem declaration?_eq_none
    (h : ∀ left right, splitEquation text = some (left, right) → isName (trim left) = false) :
    declaration? (pieces text) = none := by
  cases hfound : declaration? (pieces text) with
  | none => rfl
  | some declared =>
    obtain ⟨left, right, hsplit, hname⟩ := exists_of_declaration? hfound
    rw [h left right hsplit] at hname
    cases hname

/-- A vector begins and ends with brackets of one kind. -/
theorem ends_of_isVector (h : isVector text = true) :
    ∃ bracket : Bracket, text.head? = some bracket.opening ∧ text.getLast? = some bracket.closing := by
  have hends : ∃ bracket : Bracket, [bracket.opening, bracket.opening] <+: text ∧
      [bracket.closing, bracket.closing] <:+ text := by
    simp only [isVector, Bool.and_eq_true, Bool.or_eq_true, List.isPrefixOf_iff_prefix, List.isSuffixOf_iff_suffix] at h
    rcases h.1 with hround | hsquare
    · exact ⟨.round, hround⟩
    · exact ⟨.square, hsquare⟩
  obtain ⟨bracket, ⟨behind, rfl⟩, front, hfront⟩ := hends
  exact ⟨bracket, rfl, by rw [← hfront, List.getLast?_append_of_ne_nil _ (List.cons_ne_nil _ _)]; rfl⟩

/-- So it has brackets on both sides of any sign of equality in it. -/
theorem not_unbracketed_of_isVector (h : isVector text = true) (hsplit : splitEquation text = some (left, right)) :
    ¬ Unbracketed left ∧ ¬ Unbracketed right := by
  obtain ⟨rfl, -⟩ := splitEquation_eq_some_iff.mp hsplit
  obtain ⟨bracket, hhead, hlast⟩ := ends_of_isVector h
  constructor
  · intro hleft
    cases left with
    | nil => cases bracket <;> cases hhead
    | cons c left =>
      obtain rfl := Option.some.inj hhead
      exact hleft.not_mem_opening bracket (List.mem_cons_self ..)
  · intro hright
    rcases List.eq_nil_or_concat' right with rfl | ⟨inner, c, rfl⟩
    · rw [List.getLast?_concat] at hlast
      cases bracket <;> cases hlast
    · rw [← List.cons_append, ← List.append_assoc, List.getLast?_concat] at hlast
      obtain rfl := Option.some.inj hlast
      exact hright.not_mem_closing bracket (by simp)

/-- A vector is no equation about the derivative of an alias, and declares none. -/
theorem shapes_of_isVector (h : isVector text = true) :
    aliasDerivative? text = none ∧ declaration? (pieces text) = none := by
  constructor
  · unfold aliasDerivative?
    split
    · rename_i left right hsplit
      obtain ⟨hleft, hright⟩ := not_unbracketed_of_isVector h hsplit
      simp only [derivativeAndVector?, spacedDerivativeOf?_eq_none hleft, spacedDerivativeOf?_eq_none hright]
      rfl
    · rfl
  · exact declaration?_eq_none fun left right hsplit => isName_eq_false (not_unbracketed_of_isVector h hsplit).1

end

/-! ### Equations about derivatives -/

/-- An equation between the derivative of a name and an expression, in either order. -/
inductive EquatesDerivative (name : List Char) : List Char → List Char → Prop
  | left {side right : List Char} (hside : '=' ∉ side) (hderivative : spacedDerivativeOf? (trim side) = some name) :
      EquatesDerivative name (side ++ '=' :: right) (trim right)
  | right {left side : List Char} (hleft : '=' ∉ left) (hderivative : spacedDerivativeOf? (trim side) = some name) :
      EquatesDerivative name (left ++ '=' :: side) (trim left)

section
variable {name text expression : List Char}

/-- Such an equation is about an alias exactly if the expression is taken for a vector. -/
theorem EquatesDerivative.aliasDerivative?_eq (h : EquatesDerivative name text expression)
    (hliteral : hasLiteral expression = true) :
    aliasDerivative? text = if isVector expression then some (name, expression) else none := by
  have hbrackets := not_unbracketed_of_hasLiteral hliteral
  cases h with
  | @left side right hside hderivative =>
    have hnone := spacedDerivativeOf?_eq_none (mt unbracketed_trim_iff.mpr hbrackets)
    simp only [aliasDerivative?, splitEquation_eq_some_iff.mpr ⟨rfl, hside⟩, derivativeAndVector?, hderivative, hnone,
      Option.or_none]
  | @right left side hleft hderivative =>
    have hnone := spacedDerivativeOf?_eq_none (mt unbracketed_trim_iff.mpr hbrackets)
    simp only [aliasDerivative?, splitEquation_eq_some_iff.mpr ⟨rfl, hleft⟩, derivativeAndVector?, hderivative, hnone,
      Option.none_or]

/-- It declares no alias. -/
theorem EquatesDerivative.declaration?_eq_none (h : EquatesDerivative name text expression)
    (hliteral : hasLiteral expression = true) : declaration? (pieces text) = none := by
  have hbrackets := not_unbracketed_of_hasLiteral hliteral
  refine Vector.declaration?_eq_none fun front back hsplit => ?_
  cases h with
  | @left side right hside hderivative =>
    rw [splitEquation_eq_some_iff.mpr ⟨rfl, hside⟩] at hsplit
    cases hsplit
    exact isName_eq_false_of_derivative hderivative
  | @right left side hleft hderivative =>
    rw [splitEquation_eq_some_iff.mpr ⟨rfl, hleft⟩] at hsplit
    cases hsplit
    exact isName_eq_false (mt unbracketed_trim_iff.mpr hbrackets)

/-- Around the expression there are no brackets, and any text in its place makes an equation about the derivative too,
if it has no other characters. -/
theorem EquatesDerivative.exists_around (h : EquatesDerivative name text expression) :
    ∃ front back, Unbracketed front ∧ Unbracketed back ∧ text = front ++ expression ++ back ∧
      ∀ other, (∀ c ∈ other, c ∈ expression) → ∃ right, EquatesDerivative name (front ++ other ++ back) right := by
  cases h with
  | @left side right hside hderivative =>
    obtain ⟨leading, trailing, hleading, htrailing, hright⟩ := exists_blanks_append_trim right
    have hplain : Unbracketed side := unbracketed_trim_iff.mp (unbracketed_of_spacedDerivativeOf? hderivative)
    refine ⟨side ++ '=' :: leading, trailing,
      hplain.append ((unbracketed_of_allBlank hleading).cons .equals), unbracketed_of_allBlank htrailing, ?_, ?_⟩
    · rw [List.append_assoc, List.append_assoc, List.cons_append, ← List.append_assoc leading, ← hright]
    · intro other hother
      rw [List.append_assoc, List.append_assoc, List.cons_append]
      exact ⟨_, .left hside hderivative⟩
  | @right left side hleft hderivative =>
    obtain ⟨leading, trailing, hleading, htrailing, htext⟩ := exists_blanks_append_trim left
    have hplain : Unbracketed side := unbracketed_trim_iff.mp (unbracketed_of_spacedDerivativeOf? hderivative)
    refine ⟨leading, trailing ++ '=' :: side, unbracketed_of_allBlank hleading,
      (unbracketed_of_allBlank htrailing).append (hplain.cons .equals), ?_, ?_⟩
    · rw [← List.append_assoc, ← htext]
    · intro other hother
      rw [← List.append_assoc]
      refine ⟨_, .right (fun hmem => ?_) hderivative⟩
      rw [htext] at hleft
      rcases List.mem_append.mp hmem with hmem | hmem
      · rcases List.mem_append.mp hmem with hmem | hmem
        · exact hleft (by simp [hmem])
        · exact hleft (by simp [hother _ hmem])
      · exact hleft (by simp [hmem])

/-- An equation about an alias is one, with a vector for the expression. -/
theorem equatesDerivative_of_aliasDerivative? (h : aliasDerivative? text = some (name, expression)) :
    EquatesDerivative name text expression := by
  obtain ⟨-, left, right, hsplit, hsides⟩ := aliasDerivative?_eq_some h
  obtain ⟨rfl, hleft⟩ := splitEquation_eq_some_iff.mp hsplit
  rcases hsides with ⟨hname, rfl⟩ | ⟨hname, rfl⟩
  · exact .left hleft hname
  · exact .right hleft hname

/-- Its literals are those of the expression. -/
theorem EquatesDerivative.literals_eq (h : EquatesDerivative name text expression) :
    literals (pieces text) = literals (pieces expression) := by
  obtain ⟨front, back, hfront, hback, rfl, -⟩ := h.exists_around
  exact literals_surrounded hfront hback expression

end

end OdeSystem.Vector
