import OdeSystem.Proofs.Logged
import OdeSystem.Proofs.Notation.Blind
import OdeSystem.Proofs.Notation.Name
import OdeSystem.Proofs.Orientation
import OdeSystem.Proofs.Vector.Alias
import OdeSystem.Vector.Expansion

/-!
Layout does not matter to vector notation. In another layout a text has the same literals, their parts in another
layout; it declares the same alias or gives the derivative of the same one; and it stands for as many equations, each
in another layout.
-/

namespace OdeSystem.Vector

open Notation Text

/-! ### Literals -/

/-- Literals with the same brackets, and with parts that differ in their layout only. -/
structure Literal.SameInk (l l' : Literal) : Prop where
  bracket : l.bracket = l'.bracket
  parts : List.Forall₂ Respaced l.parts l'.parts

theorem respaced_pushChar {parts parts' : List (List Char)} (c : Char) (h : List.Forall₂ Respaced parts parts') :
    List.Forall₂ Respaced (pushChar c parts) (pushChar c parts') := by
  cases h with
  | nil => exact .cons (.refl [c]) .nil
  | cons hpart hparts => exact .cons (hpart.cons c) hparts

theorem respaced_pushRun {run run' : List Char} (hrun : IsRun run) (hrun' : IsRun run')
    {parts parts' : List (List Char)} (h : List.Forall₂ Respaced parts parts') :
    List.Forall₂ Respaced (run.foldr pushChar parts) (run'.foldr pushChar parts') := by
  have hnil {run : List Char} (h : IsRun run) : run.foldr pushChar [] = [run] := by
    obtain ⟨front, c, rfl⟩ := (List.eq_nil_or_concat' run).resolve_left h.1
    rw [List.foldr_append]
    exact foldr_pushChar front [c] []
  cases h with
  | nil =>
    rw [hnil hrun, hnil hrun']
    exact .cons (hrun.respaced hrun') .nil
  | cons hpart hparts =>
    rw [foldr_pushChar, foldr_pushChar]
    exact .cons (.blanks hrun hrun' hpart) hparts

/-- A run of blanks in front of parts is of the first one. -/
theorem takeParts_run {run : List Char} (h : allBlank run = true) (closing : Char) (depth : Nat) (text : List Char) :
    takeParts closing depth (run ++ text) =
      (takeParts closing depth text).map fun found => (run.foldr pushChar found.1, found.2) := by
  induction run with
  | nil => simp
  | cons c run ih =>
    simp only [allBlank, List.all_cons, Bool.and_eq_true] at h
    have hplain {d : Char} (hd : isBlank d = false) : c ≠ d := ne_of_isBlank h.1 hd
    have hopening : ¬ (c = '(' ∨ c = '[') := not_or.mpr ⟨hplain (by decide), hplain (by decide)⟩
    have hclosing : ¬ (c = ')' ∨ c = ']') := not_or.mpr ⟨hplain (by decide), hplain (by decide)⟩
    have hcomma : ¬ (c = ',' ∧ depth = 0) := fun heq => hplain (by decide) heq.1
    rw [List.cons_append, takeParts_cons, if_neg hopening, if_neg hclosing, if_neg hcomma, ih h.2, Option.map_map]
    rfl

/-- The brackets that close a literal, one of them read already. -/
theorem closes_eq {c closing : Char} (rest : List Char) :
    (if c = closing ∧ rest.head? = some closing then some ([([] : List Char)], rest.tail) else none) =
      if c = closing then (expect closing rest).map fun behind => ([[]], behind) else none := by
  cases rest with
  | nil => simp [expect]
  | cons d rest => by_cases hc : c = closing <;> by_cases hd : d = closing <;> simp [expect, hc, hd]

section
variable {closing : Char} (hclosing : isBlank closing = false)
include hclosing

theorem stopsAt_takeParts {depth : Nat} {text rest : List Char} {parts : List (List Char)}
    (hread : takeParts closing depth text = some (parts, rest)) : StopsAt text rest := by
  induction text generalizing depth parts with
  | nil => cases depth <;> cases hread
  | cons c text ih =>
    have further {depth : Nat} {f : List (List Char) → List (List Char)}
        (hread : ((takeParts closing depth text).map fun found => (f found.1, found.2)) = some (parts, rest)) :
        StopsAt (c :: text) rest := by
      obtain ⟨⟨inner, behind⟩, hparts, heq⟩ := Option.map_eq_some_iff.mp hread
      cases heq
      exact (ih hparts).append [c]
    rw [takeParts_cons] at hread
    split at hread
    · exact further hread
    · split at hread
      · cases depth with
        | zero =>
          simp only [closes_eq] at hread
          split at hread
          · obtain ⟨behind, hexpect, heq⟩ := Option.map_eq_some_iff.mp hread
            cases heq
            exact ((blind_expect hclosing).stops hexpect).append [c]
          · cases hread
        | succ depth => exact further (f := pushChar c) hread
      · split at hread
        · exact further (f := fun parts => [] :: parts) hread
        · exact further (f := pushChar c) hread

theorem respaced_takeParts {text text' : List Char} (htext : Respaced text text') (depth : Nat) :
    Option.Rel (fun x y => List.Forall₂ Respaced x.1 y.1 ∧ Respaced x.2 y.2) (takeParts closing depth text)
      (takeParts closing depth text') := by
  induction htext generalizing depth with
  | nil => cases depth <;> exact .none
  | @ink c text text' _ hrest ih =>
    have further (depth : Nat) : Option.Rel (fun x y => List.Forall₂ Respaced x.1 y.1 ∧ Respaced x.2 y.2)
        ((takeParts closing depth text).map fun found => (pushChar c found.1, found.2))
        ((takeParts closing depth text').map fun found => (pushChar c found.1, found.2)) :=
      rel_map (ih depth) fun _ _ hfound => ⟨respaced_pushChar c hfound.1, hfound.2⟩
    -- The character is the same in both layouts, and so are the questions asked of it.
    rw [takeParts_cons, takeParts_cons]
    split
    · exact further (depth + 1)
    · split
      · cases depth with
        | zero =>
          simp only [closes_eq]
          split
          · exact rel_map ((blind_expect hclosing).same hrest) fun _ _ hbehind => ⟨.cons .nil .nil, hbehind⟩
          · exact .none
        | succ depth => exact further depth
      · split
        · exact rel_map (ih depth) fun _ _ hfound => ⟨.cons .nil hfound.1, hfound.2⟩
        · exact further depth
  | blanks hrun hrun' _ ih =>
    rw [takeParts_run hrun.2, takeParts_run hrun'.2]
    exact rel_map (ih depth) fun _ _ hfound => ⟨respaced_pushRun hrun hrun' hfound.1, hfound.2⟩

theorem blind_takeParts (depth : Nat) : BlindTake (List.Forall₂ Respaced) (takeParts closing depth) where
  stops hread := stopsAt_takeParts hclosing hread
  same htext := respaced_takeParts hclosing htext depth

end

theorem blind_takeBody (bracket : Bracket) : BlindTake Literal.SameInk (takeBody bracket) := by
  have hclosing : isBlank bracket.closing = false := by cases bracket <;> decide
  have hparts := blind_takeParts hclosing 0
  constructor
  · intro text l behind hread
    unfold takeBody at hread
    split at hread
    · rename_i parts behind' hfound
      split at hread
      · cases hread
        exact hparts.stops hfound
      · cases hread
    · cases hread
  · intro text text' htext
    have hread := hparts.same htext
    unfold takeBody
    generalize takeParts bracket.closing 0 text = x at hread ⊢
    generalize takeParts bracket.closing 0 text' = y at hread ⊢
    cases hread with
    | none => exact .none
    | @some found found' hfound =>
      have hlength := hfound.1.length_eq
      by_cases htwo : 2 ≤ found.1.length
      · simp only [dif_pos htwo, dif_pos (hlength ▸ htwo)]
        exact .some ⟨⟨rfl, hfound.1⟩, hfound.2⟩
      · simp only [dif_neg htwo, dif_neg (hlength ▸ htwo)]
        exact .none

theorem takeLiteral_eq (text : List Char) :
    takeLiteral text =
      ((expect '(' text).bind fun rest => (expect '(' rest).bind (takeBody .round)).or
        ((expect '[' text).bind fun rest => (expect '[' rest).bind (takeBody .square)) := by
  unfold takeLiteral
  split
  · simp [expect]
  · simp [expect]
  · rename_i hround hsquare
    cases text with
    | nil => rfl
    | cons c rest =>
      cases rest with
      | nil => by_cases hc : c = '(' <;> by_cases hd : c = '[' <;> simp [expect, hc, hd]
      | cons d rest =>
        by_cases hc : c = '('
        · have hd : d ≠ '(' := fun hd => hround rest (by rw [hc, hd])
          simp [expect, hc, hd]
        · by_cases hc' : c = '['
          · have hd : d ≠ '[' := fun hd => hsquare rest (by rw [hc', hd])
            simp [expect, hc', hd]
          · simp [expect, hc, hc']

theorem blind_takeLiteral : BlindTake Literal.SameInk takeLiteral := by
  rw [funext takeLiteral_eq]
  exact ((blind_expect (by decide)).bind_take ((blind_expect (by decide)).bind_take (blind_takeBody .round))).or
    ((blind_expect (by decide)).bind_take ((blind_expect (by decide)).bind_take (blind_takeBody .square)))

/-! ### Pieces -/

/-- Pieces of texts that differ in their layout only: the literals in other layouts, and so the characters between
them. -/
inductive RespacedPieces : List Piece → List Piece → Prop
  | nil : RespacedPieces [] []
  | chars {text text' : List Char} {rest rest' : List Piece} (chars : Respaced text text')
    (behind : RespacedPieces rest rest') : RespacedPieces (text.map .char ++ rest) (text'.map .char ++ rest')
  | literal {l l' : Literal} {rest rest' : List Piece} (same : l.SameInk l') (behind : RespacedPieces rest rest') :
    RespacedPieces (.literal l :: rest) (.literal l' :: rest')

theorem respaced_pieces {text text' : List Char} (h : Respaced text text') :
    RespacedPieces (pieces text) (pieces text') := by
  -- By the length of the text, since a literal is cut off with all its characters at once.
  induction hn : text.length using Nat.strongRecOn generalizing text text' with
  | ind n ih =>
    cases h with
    | nil => exact .nil
    | @ink c rest rest' hc hrest =>
      have hread := blind_takeLiteral.same (.ink hc hrest)
      unfold pieces
      rw [pieces_cons, pieces_cons]
      simp only [cutPiece]
      generalize hx : takeLiteral (c :: rest) = x at hread ⊢
      generalize hy : takeLiteral (c :: rest') = y at hread ⊢
      cases hread with
      | none => exact .chars (.ink hc .nil) (ih rest.length (by rw [← hn]; simp) hrest rfl)
      | @some found found' hfound =>
        obtain ⟨front, d, htext, -⟩ := blind_takeLiteral.stops hx
        obtain ⟨front', d', htext', -⟩ := blind_takeLiteral.stops hy
        rw [List.append_cons] at htext htext'
        have hdrop := (cut_append (by simp) htext).1
        have hdrop' := (cut_append (by simp) htext').1
        have hlength : found.2.length < n := by
          have := congrArg List.length htext
          simp only [List.length_append, List.length_cons, List.length_nil] at this hn
          omega
        simp only [hdrop, hdrop']
        exact .literal hfound.1 (ih _ hlength hfound.2 rfl)
    | @blanks run run' rest rest' hrun hrun' hrest =>
      have hplain {run : List Char} (h : IsRun run) : ∀ c ∈ run, c ∉ ['(', '['] := by
        intro c hc hmem
        have hblank := List.all_eq_true.mp h.2 c hc
        have hnone : ['(', '['].all (fun c => !isBlank c) = true := by decide
        have := List.all_eq_true.mp hnone c hmem
        rw [hblank] at this
        cases this
      rw [pieces_chars (hplain hrun), pieces_chars (hplain hrun')]
      exact .chars (hrun.respaced hrun') (ih _ (hn ▸ hrun.length_lt rest) hrest rfl)

namespace RespacedPieces
variable {pieces pieces' : List Piece}

theorem literals (h : RespacedPieces pieces pieces') :
    List.Forall₂ Literal.SameInk (literals pieces) (literals pieces') := by
  have hchars (text : List Char) (rest : List Piece) :
      Vector.literals (text.map .char ++ rest) = Vector.literals rest := by
    rw [Vector.literals, List.filterMap_append, List.filterMap_map]
    simp [Vector.literals, Piece.literal?, Function.comp_def]
  induction h with
  | nil => exact .nil
  | chars _ _ ih => rwa [hchars, hchars]
  | literal same _ ih => exact .cons same ih

theorem isEmpty_literals_eq (h : RespacedPieces pieces pieces') :
    (Vector.literals pieces).isEmpty = (Vector.literals pieces').isEmpty := by
  rw [Bool.eq_iff_iff, List.isEmpty_iff, List.isEmpty_iff, ← List.length_eq_zero_iff, ← List.length_eq_zero_iff,
    h.literals.length_eq]

/-- Texts made of the pieces, with what is related for the literals, are of two layouts. -/
theorem flatMap {write : Piece → List Char} (char : ∀ c, write (.char c) = [c])
    (literal : ∀ l l' : Literal, l.SameInk l' → Respaced (write (.literal l)) (write (.literal l')))
    (h : RespacedPieces pieces pieces') : Respaced (pieces.flatMap write) (pieces'.flatMap write) := by
  have hchars (text : List Char) (rest : List Piece) :
      (text.map Piece.char ++ rest).flatMap write = text ++ rest.flatMap write := by
    rw [List.flatMap_append, List.flatMap_map]
    simp [char]
  induction h with
  | nil => exact .nil
  | chars text _ ih =>
    rw [hchars, hchars]
    exact text.append ih
  | literal same _ ih =>
    rw [List.flatMap_cons, List.flatMap_cons]
    exact (literal _ _ same).append ih

/-- Up to the first literal there are the same characters in another layout, and behind it other pieces. -/
theorem span (h : RespacedPieces pieces pieces') :
    Respaced ((pieces.takeWhile (·.literal?.isNone)).filterMap Piece.char?)
        ((pieces'.takeWhile (·.literal?.isNone)).filterMap Piece.char?) ∧
      (pieces.dropWhile (·.literal?.isNone) = [] ∧ pieces'.dropWhile (·.literal?.isNone) = [] ∨
        ∃ l l' rest rest', pieces.dropWhile (·.literal?.isNone) = .literal l :: rest ∧
          pieces'.dropWhile (·.literal?.isNone) = .literal l' :: rest' ∧ l.SameInk l' ∧ RespacedPieces rest rest') := by
  have hchars (text : List Char) (rest : List Piece) :
      ((text.map Piece.char ++ rest).takeWhile (·.literal?.isNone)).filterMap Piece.char? =
          text ++ (rest.takeWhile (·.literal?.isNone)).filterMap Piece.char? ∧
        (text.map Piece.char ++ rest).dropWhile (·.literal?.isNone) = rest.dropWhile (·.literal?.isNone) := by
    have hall : ∀ piece ∈ text.map Piece.char, piece.literal?.isNone = true := by simp [Piece.literal?]
    rw [List.takeWhile_append_of_pos hall, List.dropWhile_append_of_pos hall, List.filterMap_append, filterMap_chars]
    exact ⟨rfl, rfl⟩
  induction h with
  | nil => exact ⟨.nil, .inl ⟨rfl, rfl⟩⟩
  | chars text _ ih =>
    rw [(hchars _ _).1, (hchars _ _).1, (hchars _ _).2, (hchars _ _).2]
    exact ⟨text.append ih.1, ih.2⟩
  | literal same hrest _ => exact ⟨.nil, .inr ⟨_, _, _, _, rfl, rfl, same, hrest⟩⟩

end RespacedPieces

/-! ### Parts of literals -/

theorem respaced_intercalate {parts parts' : List (List Char)} (separator : List Char)
    (h : List.Forall₂ Respaced parts parts') :
    Respaced (List.intercalate separator parts) (List.intercalate separator parts') := by
  induction h with
  | nil => exact .refl _
  | cons hpart hparts ih =>
    cases hparts with
    | nil =>
      rw [List.intercalate_singleton, List.intercalate_singleton]
      exact hpart
    | cons =>
      rw [List.intercalate_cons_cons, List.intercalate_cons_cons]
      exact (hpart.append (.refl separator)).append ih

theorem respaced_getD {parts parts' : List (List Char)} (h : List.Forall₂ Respaced parts parts') (i : Nat) :
    Respaced (parts[i]?.getD []) (parts'[i]?.getD []) := by
  induction h generalizing i with
  | nil => exact .nil
  | cons hpart _ ih =>
    cases i with
    | zero => exact hpart
    | succ i => exact ih i

namespace Literal.SameInk
variable {l l' : Literal}

theorem dimension_eq (h : l.SameInk l') : l.dimension = l'.dimension := h.parts.length_eq

theorem components (h : l.SameInk l') : List.Forall₂ Respaced l.components l'.components :=
  List.rel_map (fun _ _ hpart => hpart.trim) h.parts

theorem text (h : l.SameInk l') : Respaced l.text l'.text := by
  rw [Literal.text, Literal.text, h.bracket]
  exact ((Respaced.refl _).append (respaced_intercalate _ h.parts)).append (.refl _)

/-- An alias has its components without blanks, so their layout does not show. -/
theorem map_strip_eq (h : l.SameInk l') :
    (l.components.map fun c => String.ofList (strip c)) = l'.components.map fun c => String.ofList (strip c) := by
  have hsame : List.Forall₂ Eq (l.components.map fun c => String.ofList (strip c))
      (l'.components.map fun c => String.ofList (strip c)) :=
    List.rel_map (fun _ _ hc => congrArg String.ofList hc.strip_eq) h.components
  rwa [List.forall₂_eq_eq_eq] at hsame

end Literal.SameInk

/-! ### Aliases -/

theorem declaration?_respaced {pieces pieces' : List Piece} (h : RespacedPieces pieces pieces') :
    declaration? pieces = declaration? pieces' := by
  obtain ⟨hbefore, ⟨hnone, hnone'⟩ | ⟨l, l', after, after', hfound, hfound', hsame, hafter⟩⟩ := h.span
  · simp only [declaration?, hnone, hnone']
  · have hread := blind_splitEquation.same hbefore
    have htext : Respaced (after.flatMap Piece.text) (after'.flatMap Piece.text) :=
      hafter.flatMap (fun _ => rfl) fun _ _ hl => hl.text
    simp only [declaration?, hfound, hfound']
    generalize splitEquation _ = x at hread ⊢
    generalize splitEquation _ = y at hread ⊢
    cases hread with
    | none => rfl
    | @some sides sides' hsides =>
      have htrim := hsides.1.trim
      simp only [isName_respaced htrim, hsides.2.allBlank_eq, hafter.isEmpty_literals_eq, htext.allBlank_eq,
        hsame.map_strip_eq]
      split
      · rename_i hname
        have hink {name : List Char} (h : isName name = true) : ∀ c ∈ name, isBlank c = false := fun c hc =>
          isBlank_of_isWord (isWord_of_isName h c hc)
        rw [Respaced.eq_of_ink (hink (isName_respaced htrim ▸ hname.1)) (hink hname.1) htrim]
      · rfl

theorem isVector_respaced {text text' : List Char} (h : Respaced text text') : isVector text = isVector text' := by
  have hliteral : hasLiteral text = hasLiteral text' := congrArg not (respaced_pieces h).isEmpty_literals_eq
  rw [isVector, isVector, hliteral, h.isPrefixOf_eq ['(', '('] (by decide), h.isPrefixOf_eq ['[', '['] (by decide),
    h.isSuffixOf_eq [')', ')'] (by decide), h.isSuffixOf_eq [']', ']'] (by decide)]

theorem derivativeAndVector?_respaced {derivative derivative' vector vector' : List Char}
    (hderivative : Respaced derivative derivative') (hvector : Respaced vector vector') :
    Option.Rel (fun x y => x.1 = y.1 ∧ Respaced x.2 y.2) (derivativeAndVector? derivative vector)
      (derivativeAndVector? derivative' vector') := by
  rw [derivativeAndVector?, derivativeAndVector?, spacedDerivativeOf?_respaced hderivative, isVector_respaced hvector]
  split
  · split
    · exact .some ⟨rfl, hvector⟩
    · exact .none
  · exact .none

theorem aliasDerivative?_respaced {text text' : List Char} (h : Respaced text text') :
    Option.Rel (fun x y => x.1 = y.1 ∧ Respaced x.2 y.2) (aliasDerivative? text) (aliasDerivative? text') := by
  have hread := blind_splitEquation.same h
  unfold aliasDerivative?
  generalize splitEquation text = x at hread ⊢
  generalize splitEquation text' = y at hread ⊢
  cases hread with
  | none => exact .none
  | some hsides =>
    exact rel_or (derivativeAndVector?_respaced hsides.1.trim hsides.2.trim)
      (derivativeAndVector?_respaced hsides.2.trim hsides.1.trim)

/-- What alias an equation declares does not depend on its layout. -/
theorem declared?_respaced {text text' : String} (h : Respaced text.toList text'.toList) :
    declared? text = declared? text' := by
  have hderivative := aliasDerivative?_respaced h
  rw [declared?, declared?, declaration?_respaced (respaced_pieces h)]
  generalize aliasDerivative? text.toList = x at hderivative
  generalize aliasDerivative? text'.toList = y at hderivative
  cases hderivative with
  | none => rfl
  | some => rfl

/-! ### Expansion -/

/-- Errors of the same kind, whatever texts they quote. -/
abbrev SameKind (e e' : ParseError) : Prop := e.kind = e'.kind

theorem respaced_scalars {pieces pieces' : List Piece} (h : RespacedPieces pieces pieces') (dimension : Nat) :
    RespacedTexts (scalars dimension pieces) (scalars dimension pieces') := by
  rw [scalars, scalars, RespacedTexts, List.forall₂_map_left_iff, List.forall₂_map_right_iff, List.forall₂_same]
  intro i _
  rw [String.toList_ofList, String.toList_ofList]
  exact h.flatMap (fun _ => rfl) fun _ _ hl => respaced_getD hl.components i

theorem matched_expandLiterals {equation equation' : String} (h : Respaced equation.toList equation'.toList)
    {pieces pieces' : List Piece} (hpieces : RespacedPieces pieces pieces') :
    Matched SameKind RespacedTexts (expandLiterals equation pieces).result
      (expandLiterals equation' pieces').result := by
  have hliterals := hpieces.literals
  unfold expandLiterals
  generalize literals pieces = ls at hliterals ⊢
  generalize literals pieces' = ls' at hliterals ⊢
  cases hliterals with
  | nil => exact .ok (.cons h .nil)
  | @cons first first' others others' hfirst hothers =>
    have hall (n : Nat) : others.all (·.dimension == n) = others'.all (·.dimension == n) := by
      induction hothers with
      | nil => rfl
      | cons hl _ ih => rw [List.all_cons, List.all_cons, hl.dimension_eq, ih]
    simp only [hfirst.dimension_eq, hall]
    split
    · exact .ok (respaced_scalars hpieces _)
    · exact .error rfl

theorem respaced_componentEquations (names : List String) {rights rights' : List String}
    (h : RespacedTexts rights rights') :
    RespacedTexts (List.zipWith componentEquation names rights) (List.zipWith componentEquation names rights') := by
  induction h generalizing names with
  | nil => cases names <;> exact .nil
  | cons hright _ ih =>
    cases names with
    | nil => exact .nil
    | cons name names =>
      refine .cons ?_ (ih names)
      simp only [componentEquation, String.toList_append, String.toList_ofList]
      exact (Respaced.refl _).append hright.trim

theorem matched_expandAliasDerivative (aliases : Aliases) (equation equation' name : String)
    {rights rights' : List String} (h : RespacedTexts rights rights') :
    Matched SameKind RespacedTexts (expandAliasDerivative aliases equation name rights).result
      (expandAliasDerivative aliases equation' name rights').result := by
  simp only [expandAliasDerivative, h.length_eq]
  split
  · exact .ok (respaced_componentEquations _ h)
  · exact .error rfl

/-- In another layout an equation stands for as many equations, each in another layout, and leaves the same aliases; or
there is an error of the same kind. -/
theorem matched_expand (aliases : Aliases) {text text' : String} (h : Respaced text.toList text'.toList) :
    Matched SameKind (fun x y => RespacedTexts x.1 y.1 ∧ x.2 = y.2) (expand aliases text).result
      (expand aliases text').result := by
  have hderivative := aliasDerivative?_respaced h
  unfold expand
  generalize aliasDerivative? text.toList = x at hderivative ⊢
  generalize aliasDerivative? text'.toList = y at hderivative ⊢
  cases hderivative with
  | @some found found' hfound =>
    obtain ⟨hname, hvector⟩ := hfound
    have htext : Respaced (String.ofList found.2).toList (String.ofList found'.2).toList := by simpa using hvector
    have hrights := matched_expandLiterals htext (respaced_pieces hvector)
    simp only [hname, Logged.result_bind, Logged.result_pure]
    exact hrights.bind fun _ _ hrights => (matched_expandAliasDerivative aliases _ _ _ hrights).bind
      fun _ _ hscalars => .ok ⟨hscalars, rfl⟩
  | none =>
    have hpieces := respaced_pieces h
    simp only [declaration?_respaced hpieces]
    split
    · exact .ok ⟨.nil, rfl⟩
    · simp only [Logged.result_bind, Logged.result_pure]
      exact (matched_expandLiterals h hpieces).bind fun _ _ hscalars => .ok ⟨hscalars, rfl⟩

end OdeSystem.Vector
