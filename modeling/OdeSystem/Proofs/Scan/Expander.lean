import OdeSystem.Proofs.Scan.Literal
import OdeSystem.Proofs.Scan.Logarithm
import OdeSystem.Proofs.Scan.Token
import OdeSystem.Proofs.Vector.Expander

/-!
Expansion by places. A declaration is told from the places of the first sign of equality and of the literal, and a
component is written in place of each literal from one place to the next, its index being the same in all of them. No
scan fails, so each of them gives what is read of the characters.
-/

namespace OdeSystem.Scan

open Notation Text

/-- The alias that an equation with these literals declares, with its components. -/
def declaration (text : List Char) (found : List Found) : Checked (Option (String × List String)) :=
  match found with
  | [literal] =>
    match splitEquation text with
    | some (left, _) =>
      let equals := byteLength left
      let name := trim left
      if isName name ∧ equals < literal.start then do
        if allBlank (← slice (equals + 1) literal.start text) then
          if allBlank (← sliceFrom literal.stop text) then
            return some (String.ofList name, literal.components.map fun c => String.ofList (strip c))
          else return none
        else return none
      else return none
    | none => return none
  | _ => return none

/-- The text from a place on, with one component of each literal in its place. -/
def substituteFrom (text : List Char) (index cursor : Nat) : List Found → Checked (List Char)
  | [] => sliceFrom cursor text
  | literal :: others => do
    let between ← slice cursor literal.start text
    let component ← element index literal.components
    return between ++ component ++ (← substituteFrom text index literal.stop others)

/-- The scalar equations of an equation with these literals. -/
def scalars (text : List Char) (found : List Found) (dimension : Nat) : Checked (List String) :=
  (List.range dimension).mapM fun i => String.ofList <$> substituteFrom text i 0 found

/-- Whether a text is a vector, or begins with one and ends with one of the same brackets. -/
def isVector (text : List Char) : Checked Bool :=
  if (['(', '('].isPrefixOf text && [')', ')'].isSuffixOf text) ||
      (['[', '['].isPrefixOf text && [']', ']'].isSuffixOf text) then
    return !(← find text).isEmpty
  else return false

/-- The alias whose derivative one side is, when the other side is a vector. -/
def derivativeAndVector (derivative vector : List Char) : Checked (Option (List Char × List Char)) :=
  match spacedDerivativeOf? derivative with
  | some name => return if ← isVector vector then some (name, vector) else none
  | none => return none

/-- The alias whose derivative an equation gives, and the vector it gives for it. -/
def aliasDerivative (text : List Char) : Checked (Option (List Char × List Char)) :=
  match splitEquation text with
  | some (left, right) => do
    match ← derivativeAndVector (trim left) (trim right) with
    | some found => return some found
    | none => derivativeAndVector (trim right) (trim left)
  | none => return none

/-- Work of an expander that scans: it may also fail as scans do. -/
abbrev Work := ExceptT ParseError (StateT Vector.Expander Checked)

/-- Work without scans. -/
def perform {α : Type} (work : Vector.Expander.Work α) : Work α := fun x => pure (work.on x)

/-- Records the alias that an equation with these literals declares, and says whether it declares one. -/
def record (text : List Char) (found : List Found) : Work Bool := do
  match ← declaration text found with
  | some (name, components) => do
    perform (Vector.Expander.report (.aliasRecorded name components))
    perform (modify fun x => { x with aliases := x.aliases.insert name components })
    return true
  | none => return false

/-- Expands an equation. -/
def expand (equation : String) : Work (List String) := do
  match ← aliasDerivative equation.toList with
  | some (name, vector) =>
    if _h : vector.length < equation.toList.length then do
      let rights ← expand (String.ofList vector)
      perform (Vector.Expander.assign equation (String.ofList name) rights)
    else liftM (throw .stuck : Checked (List String))
  | none => do
    let found ← find equation.toList
    if found.isEmpty then return [equation]
    else
      let first ← element 0 found
      let dimension := first.components.length
      if found.any (·.components.length != dimension) then throw (.dimensionMismatch equation)
      else if ← record equation.toList found then return []
      else
        let scalars ← scalars equation.toList found dimension
        perform (Vector.Expander.report (.vectorExpanded equation scalars))
        return scalars
termination_by equation.toList.length
decreasing_by
  rw [String.toList_ofList]
  exact _h

/-- Reads an equation for its declaration only, and says whether it declares an alias. -/
def register (equation : String) : Work Bool := do
  if (← aliasDerivative equation.toList).isSome then return false
  else record equation.toList (← find equation.toList)

/-! ### Pieces -/

section
variable (front between : List Char) (pieces : List Vector.Piece)

/-- Up to the first literal, pieces are characters. -/
theorem pieces_cases : (∃ chars : List Char, pieces = chars.map .char) ∨
    ∃ (chars : List Char) (l : Vector.Literal) (after : List Vector.Piece),
      pieces = chars.map .char ++ .literal l :: after := by
  induction pieces with
  | nil => exact .inl ⟨[], rfl⟩
  | cons piece rest ih =>
    cases piece with
    | literal l => exact .inr ⟨[], l, rest, rfl⟩
    | char c =>
      rcases ih with ⟨chars, rfl⟩ | ⟨chars, l, after, rfl⟩
      · exact .inl ⟨c :: chars, rfl⟩
      · exact .inr ⟨c :: chars, l, after, rfl⟩

theorem locate_chars (start : Nat) (chars : List Char) :
    Vector.locate start (chars.map .char ++ pieces) = Vector.locate (start + byteLength chars) pieces := by
  induction chars generalizing start with
  | nil => rfl
  | cons c chars ih => rw [List.map_cons, List.cons_append, Vector.locate, ih, byteLength_cons, Nat.add_assoc]

theorem map_locate (start : Nat) : (Vector.locate start pieces).map (·.literal) = Vector.literals pieces := by
  induction pieces generalizing start with
  | nil => rfl
  | cons piece rest ih =>
    cases piece with
    | char c => exact ih _
    | literal l => exact congrArg (l :: ·) (ih _)

theorem text_chars (chars : List Char) : (chars.map Vector.Piece.char).flatMap Vector.Piece.text = chars := by
  induction chars with
  | nil => rfl
  | cons c chars ih => exact congrArg (c :: ·) ih

/-- A component is written in place of each literal behind a place, and what stands between them is kept. -/
theorem substituteFrom_pieces {index : Nat} (hindex : ∀ l ∈ Vector.literals pieces, index < l.dimension) :
    substituteFrom (front ++ between ++ pieces.flatMap Vector.Piece.text) index (byteLength front)
        ((Vector.locate (byteLength (front ++ between)) pieces).map foundOf) =
      pure (between ++ Vector.selectComponent index pieces) := by
  induction pieces generalizing front between with
  | nil =>
    rw [List.flatMap_nil, List.append_nil]
    exact (sliceFrom_append front between).trans (by rw [Vector.selectComponent, List.flatMap_nil, List.append_nil])
  | cons piece rest ih =>
    cases piece with
    | char c =>
      have hrest := ih front (between ++ [c]) hindex
      simp only [← List.append_assoc] at hrest
      rw [byteLength_concat, List.append_assoc _ [c]] at hrest
      exact hrest.trans (by simp [Vector.selectComponent])
    | literal l =>
      have hrest := ih (front ++ between ++ l.text) [] fun l' hl' => hindex l' (List.mem_cons_of_mem _ hl')
      have hcut := slice_append front between (l.text ++ rest.flatMap Vector.Piece.text)
      have hcomponent : element index l.components = pure ((l.components[index]?).getD []) := by
        have hlt : index < l.components.length := by
          rw [Vector.Literal.components, List.length_map]
          exact hindex l (List.mem_cons_self ..)
        rw [element_eq (List.getElem?_eq_getElem hlt), List.getElem?_eq_getElem hlt]
        rfl
      rw [List.append_nil, List.append_assoc _ l.text] at hrest
      rw [Vector.locate, ← byteLength_append, List.map_cons, substituteFrom, List.flatMap_cons, Vector.Piece.text]
      simp only [foundOf]
      rw [hcut, pure_bind, hcomponent, pure_bind, hrest, pure_bind]
      simp [Vector.selectComponent]

/-- Without a sign of equality in it, a text ends before the first one behind it. -/
theorem le_of_splitEquation {chars more left right : List Char} (hnone : splitEquation chars = none)
    (h : splitEquation (chars ++ more) = some (left, right)) : byteLength chars ≤ byteLength left := by
  obtain ⟨htext, hequals⟩ := splitEquation_eq_some_iff.mp h
  rcases List.append_eq_append_iff.mp htext with ⟨inner, rfl, -⟩ | ⟨inner, rfl, hinner⟩
  · rw [byteLength_append]
    exact Nat.le_add_right ..
  · cases inner with
    | nil => rw [List.append_nil]
    | cons c inner =>
      obtain ⟨rfl, -⟩ := List.cons.inj hinner
      rw [splitEquation_eq_some_iff.mpr ⟨rfl, hequals⟩] at hnone
      cases hnone

/-- With one literal, what is cut out of the text are the blanks on either side of it. -/
theorem declaration_single (chars back : List Char) (l : Vector.Literal) :
    declaration (chars ++ (l.text ++ back)) [⟨byteLength chars, byteLength (chars ++ l.text), l.components⟩] =
      pure (match splitEquation chars with
        | some (left, between) =>
          if isName (trim left) ∧ allBlank between ∧ allBlank back then
            some (String.ofList (trim left), l.components.map fun c => String.ofList (strip c))
          else none
        | none => none) := by
  have hback := sliceFrom_append (chars ++ l.text) back
  rw [List.append_assoc] at hback
  rw [declaration]
  cases hsplit : splitEquation chars with
  | none =>
    cases hwhole : splitEquation (chars ++ (l.text ++ back)) with
    | none => rfl
    | some found => exact if_neg fun h => absurd h.2 (Nat.not_lt.mpr (le_of_splitEquation hsplit hwhole))
  | some found =>
    obtain ⟨left, between⟩ := found
    obtain ⟨rfl, hequals⟩ := splitEquation_eq_some_iff.mp hsplit
    have hwhole : splitEquation (left ++ '=' :: between ++ (l.text ++ back)) =
        some (left, between ++ (l.text ++ back)) :=
      splitEquation_eq_some_iff.mpr ⟨by simp, hequals⟩
    have hlt : byteLength left < byteLength (left ++ '=' :: between) := by
      rw [byteLength_append]
      exact Nat.lt_add_of_pos_right (Vector.byteLength_pos (List.cons_ne_nil '=' between))
    have hcut := slice_append (left ++ ['=']) between (l.text ++ back)
    rw [byteLength_concat_ascii (by decide), List.append_assoc left, List.singleton_append] at hcut
    rw [hwhole]
    dsimp only
    cases hname : isName (trim left) with
    | false => rfl
    | true =>
      rw [if_pos ⟨rfl, hlt⟩, hcut, pure_bind]
      cases hbetween : allBlank between with
      | false => rfl
      | true =>
        rw [if_pos rfl, hback, pure_bind]
        cases allBlank back <;> rfl

/-- An alias is declared by a single literal behind the first sign of equality. -/
theorem declaration_pieces :
    declaration (pieces.flatMap Vector.Piece.text) ((Vector.locate 0 pieces).map foundOf) =
      pure (Vector.declaration? pieces) := by
  rcases pieces_cases pieces with ⟨chars, rfl⟩ | ⟨chars, l, after, rfl⟩
  · have hlocate := locate_chars [] 0 chars
    have hnone : (chars.map Vector.Piece.char).dropWhile (·.literal?.isNone) = [] :=
      List.dropWhile_eq_nil_iff.mpr (by simp [Vector.Piece.literal?])
    rw [List.append_nil] at hlocate
    rw [hlocate, Vector.declaration?, hnone]
    rfl
  obtain ⟨hbefore, hbehind⟩ := Vector.span_chars chars l after
  rw [locate_chars, Nat.zero_add, Vector.locate, ← byteLength_append, List.map_cons, Vector.declaration?, hbefore,
    hbehind, Vector.filterMap_chars, List.flatMap_append, text_chars, List.flatMap_cons]
  dsimp only
  rcases pieces_cases after with ⟨back, rfl⟩ | ⟨between, l', after, rfl⟩
  · have hlocate := locate_chars [] (byteLength (chars ++ l.text)) back
    rw [List.append_nil] at hlocate
    rw [hlocate, text_chars, Vector.literals_chars_only]
    refine (declaration_single chars back l).trans (congrArg pure ?_)
    cases splitEquation chars with
    | none => rfl
    | some found => simp
  · -- Several literals declare nothing.
    rw [locate_chars, Vector.locate, Vector.literals_chars]
    refine congrArg pure ?_
    cases splitEquation chars with
    | none => rfl
    | some found => exact (if_neg fun h => Bool.noConfusion (show false = true from h.2.2.1)).symm

end

/-! ### Work -/

section
variable {α β : Type}

theorem lift_pure (a : α) : (liftM (pure a : Checked α) : Work α) = pure a := rfl

theorem perform_bind (work : Vector.Expander.Work α) (f : α → Vector.Expander.Work β) :
    perform (work >>= f) = perform work >>= fun a => perform (f a) := by
  funext x
  rw [perform, Vector.Expander.Work.on_bind]
  change _ = (pure (work.on x) : Checked _) >>= fun found => ExceptT.bindCont (fun a => perform (f a)) found.1 found.2
  rw [pure_bind]
  obtain ⟨result, y⟩ := work.on x
  cases result <;> rfl

end

/-! ### Equations -/

theorem isEmpty_find (text : List Char) :
    ((Vector.locate 0 (Vector.pieces text)).map foundOf).isEmpty = (Vector.literals (Vector.pieces text)).isEmpty := by
  rw [← map_locate _ 0, List.isEmpty_map, List.isEmpty_map]

section
variable (pieces : List Vector.Piece)

theorem length_components (l : Vector.Literal) : l.components.length = l.dimension := List.length_map _

theorem element_found {first : Vector.Literal} {others : List Vector.Literal}
    (h : Vector.literals pieces = first :: others) :
    ∃ found, element 0 ((Vector.locate 0 pieces).map foundOf) = pure found ∧
      found.components.length = first.dimension := by
  rw [← map_locate _ 0] at h
  obtain ⟨located, later, hlocate, rfl, -⟩ := List.map_eq_cons_iff.mp h
  rw [hlocate]
  exact ⟨foundOf located, rfl, length_components _⟩

theorem any_found (dimension : Nat) :
    ((Vector.locate 0 pieces).map foundOf).any (·.components.length != dimension) =
      (Vector.literals pieces).any (·.dimension != dimension) := by
  rw [← map_locate _ 0, List.any_map, List.any_map]
  simp only [Function.comp_def, foundOf, length_components]

end

theorem isVector_eq (text : List Char) : isVector text = pure (Vector.isVector text) := by
  rw [isVector, Vector.isVector, Vector.hasLiteral]
  split
  · rename_i hbrackets
    rw [hbrackets, find_eq, pure_bind, isEmpty_find, Bool.true_and]
  · rename_i hbrackets
    rw [Bool.eq_false_iff.mpr hbrackets, Bool.false_and]

theorem derivativeAndVector_eq (derivative vector : List Char) :
    derivativeAndVector derivative vector = pure (Vector.derivativeAndVector? derivative vector) := by
  rw [derivativeAndVector, Vector.derivativeAndVector?]
  cases spacedDerivativeOf? derivative with
  | none => rfl
  | some name =>
    dsimp only
    rw [isVector_eq, pure_bind]

theorem aliasDerivative_eq (text : List Char) : aliasDerivative text = pure (Vector.aliasDerivative? text) := by
  rw [aliasDerivative, Vector.aliasDerivative?]
  cases splitEquation text with
  | none => rfl
  | some sides =>
    obtain ⟨left, right⟩ := sides
    dsimp only
    rw [derivativeAndVector_eq, pure_bind]
    cases Vector.derivativeAndVector? (trim left) (trim right) with
    | none => rw [derivativeAndVector_eq, Option.none_or]
    | some found => rfl

theorem mapM_eq_pure {α β : Type} {f : α → Checked β} {g : α → β} {xs : List α} (h : ∀ x ∈ xs, f x = pure (g x)) :
    xs.mapM f = pure (xs.map g) := by
  induction xs with
  | nil => rfl
  | cons x xs ih =>
    rw [List.mapM_cons, h x (List.mem_cons_self ..), pure_bind, ih fun y hy => h y (List.mem_cons_of_mem _ hy),
      pure_bind]
    rfl

/-- Where all literals have a common dimension, no index is beyond it. -/
theorem scalars_pieces (pieces : List Vector.Piece) {dimension : Nat}
    (hsame : ∀ l ∈ Vector.literals pieces, l.dimension = dimension) :
    scalars (pieces.flatMap Vector.Piece.text) ((Vector.locate 0 pieces).map foundOf) dimension =
      pure (Vector.scalars dimension pieces) := by
  refine mapM_eq_pure fun i hi => ?_
  have hindex : ∀ l ∈ Vector.literals pieces, i < l.dimension := fun l hl => by
    rw [hsame l hl]
    exact List.mem_range.mp hi
  exact congrArg (String.ofList <$> ·) (substituteFrom_pieces [] [] pieces hindex)

theorem record_eq (text : List Char) :
    record text ((Vector.locate 0 (Vector.pieces text)).map foundOf) =
      perform (Vector.Expander.record (Vector.pieces text)) := by
  have hdeclaration := declaration_pieces (Vector.pieces text)
  rw [Vector.text_pieces] at hdeclaration
  rw [record, hdeclaration, Vector.Expander.record]
  cases Vector.declaration? (Vector.pieces text) with
  | none => rfl
  | some declared =>
    obtain ⟨name, components⟩ := declared
    simp only [perform_bind]
    rfl

/-- An equation that gives no derivative of an alias is expanded by the places of its literals. -/
theorem expand_of_none {equation : String} (h : Vector.aliasDerivative? equation.toList = none) :
    expand equation = perform (Vector.Expander.expand equation) := by
  rw [expand, aliasDerivative_eq, lift_pure, pure_bind, h]
  dsimp only
  rw [Vector.Expander.expand_of_none h, find_eq, lift_pure, pure_bind, isEmpty_find]
  cases hliterals : Vector.literals (Vector.pieces equation.toList) with
  | nil => rfl
  | cons first others =>
    obtain ⟨found, hfound, hdimension⟩ := element_found (Vector.pieces equation.toList) hliterals
    rw [if_neg nofun, hfound, lift_pure, pure_bind, hdimension, any_found, hliterals, List.any_cons,
      bne_self_eq_false, Bool.false_or]
    dsimp only
    cases hsame : others.all (·.dimension == first.dimension) with
    | false =>
      rw [if_pos (by rw [List.any_eq_not_all_not]; simpa using hsame)]
      rfl
    | true =>
      have hdimensions : ∀ l ∈ Vector.literals (Vector.pieces equation.toList), l.dimension = first.dimension := by
        simpa [hliterals] using hsame
      have hscalars := scalars_pieces (Vector.pieces equation.toList) hdimensions
      rw [Vector.text_pieces] at hscalars
      rw [if_neg (by rw [List.any_eq_not_all_not]; simpa using hsame), if_pos rfl, perform_bind, record_eq]
      congr 1
      funext recorded
      cases recorded with
      | true => rfl
      | false =>
        simp only [Bool.false_eq_true, ↓reduceIte]
        rw [hscalars, lift_pure, pure_bind, perform_bind]
        rfl

/-- An expander that scans does what one does that reads characters. -/
theorem expand_eq (equation : String) : expand equation = perform (Vector.Expander.expand equation) := by
  induction hn : equation.toList.length using Nat.strongRecOn generalizing equation with
  | ind n ih =>
    cases hderivative : Vector.aliasDerivative? equation.toList with
    | none => exact expand_of_none hderivative
    | some found =>
      obtain ⟨name, vector⟩ := found
      have hshorter : vector.length < equation.toList.length := Vector.length_lt_of_aliasDerivative? hderivative
      have hvector : (String.ofList vector).toList.length < n := by rwa [String.toList_ofList, ← hn]
      rw [expand, aliasDerivative_eq, lift_pure, pure_bind, hderivative]
      dsimp only
      rw [dif_pos hshorter, Vector.Expander.expand_of_some hderivative, perform_bind, ih _ hvector _ rfl]

theorem register_eq (equation : String) : register equation = perform (Vector.Expander.register equation) := by
  rw [register, aliasDerivative_eq, lift_pure, pure_bind, Vector.Expander.register]
  split
  · rfl
  · rw [find_eq, lift_pure, pure_bind, record_eq]

/-! ### All scans -/

/-- No scan fails, whatever the text is and whatever aliases an expander has: none cuts a text outside of its range, out
of order or inside of a character, looks up a byte, a literal or a component that is not there, closes a group when none
is open, or takes a turn that brings it no further. What it gives is what is read character by character. -/
theorem scans_never_fail :
    (∀ text, tokens text = pure (Notation.tokens text)) ∧
    (∀ text, plainLogarithms text = pure (Notation.plainLogarithms text)) ∧
    (∀ text, takeArgument text = pure ((Notation.takeArgument text).map fun found =>
      (found.1, byteLength text - byteLength found.2))) ∧
    (∀ text : String, find text.toList = pure ((Vector.find text).map foundOf)) ∧
    (∀ (equation : String) (x : Vector.Expander),
      (expand equation).run.run x = pure ((Vector.Expander.expand equation).on x)) ∧
    ∀ (equation : String) (x : Vector.Expander),
      (register equation).run.run x = pure ((Vector.Expander.register equation).on x) := by
  refine ⟨tokens_eq, plainLogarithms_eq, takeArgument_eq, fun text => find_eq text.toList, fun equation x => ?_,
    fun equation x => ?_⟩
  · rw [expand_eq]
    rfl
  · rw [register_eq]
    rfl

end OdeSystem.Scan
