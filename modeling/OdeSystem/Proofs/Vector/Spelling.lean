import OdeSystem.Proofs.Vector.Alias
import OdeSystem.Proofs.Vector.Expansion

/-!
Spellings of one vector equation. The derivatives of the components of a vector can be given for a literal of the
variables or for an alias that stands for it, in parentheses or brackets, and on either side of the equation. All
spellings expand to scalar equations that are read alike.
-/

namespace OdeSystem.Vector

open Notation Text

/-- The derivative of a literal as it is written. -/
def Literal.derivativeText (l : Literal) : List Char := ['d'] ++ l.text ++ "/dt".toList

/-- The ways to write the derivative of a vector, of a literal or of an alias and on the left or on the right. -/
inductive Spelling
  | literal
  | literalSwapped
  | named
  | namedSwapped
  deriving DecidableEq, Repr

namespace Spelling

/-- Whether a spelling is about an alias. -/
def isNamed : Spelling → Bool
  | literal | literalSwapped => false
  | named | namedSwapped => true

/-- The equation for the derivatives of some variables, which an alias may stand for. -/
def text (components rights : Literal) (name : List Char) : Spelling → List Char
  | literal => components.derivativeText ++ " = ".toList ++ rights.text
  | literalSwapped => rights.text ++ " = ".toList ++ components.derivativeText
  | named => derivative name ++ " = ".toList ++ rights.text
  | namedSwapped => rights.text ++ " = ".toList ++ derivative name

end Spelling

/-- The declaration of an alias. -/
def declarationText (name : List Char) (components : Literal) : List Char := name ++ " = ".toList ++ components.text

/-- The scalar equation for the derivative of a variable. -/
def scalarText (name right : List Char) : List Char := derivative name ++ " = ".toList ++ right

/-! ### Expansions -/

section
variable {aliases : Aliases} {components rights : Literal}

theorem selectComponent_append (index : Nat) (first later : List Piece) :
    selectComponent index (first ++ later) = selectComponent index first ++ selectComponent index later :=
  List.flatMap_append

theorem selectComponent_chars_only (text : List Char) (i : Nat) : selectComponent i (text.map .char) = text := by
  simp [selectComponent, List.flatMap_map]

theorem selectComponent_chars (text : List Char) (i : Nat) (rest : List Piece) :
    selectComponent i (text.map .char ++ rest) = text ++ selectComponent i rest := by
  rw [selectComponent_append, selectComponent_chars_only]

theorem selectComponent_literal (l : Literal) (i : Nat) (rest : List Piece) :
    selectComponent i (.literal l :: rest) = (l.components[i]?).getD [] ++ selectComponent i rest := rfl

theorem literals_append (first later : List Piece) : literals (first ++ later) = literals first ++ literals later :=
  List.filterMap_append

theorem literals_chars_only (text : List Char) : literals (text.map .char) = [] := by
  simp [literals, Piece.literal?, List.filterMap_map, Function.comp_def]

theorem literals_chars (text : List Char) (rest : List Piece) : literals (text.map .char ++ rest) = literals rest := by
  rw [literals_append, literals_chars_only, List.nil_append]

theorem scalars_two {front middle back : List Char} {l l' : Literal} (hsame : l'.parts.length = l.parts.length) :
    scalars l.dimension (front.map .char ++ .literal l :: (middle.map .char ++ .literal l' :: back.map .char)) =
      List.zipWith (fun a b => String.ofList (front ++ trim a ++ middle ++ trim b ++ back)) l.parts l'.parts := by
  refine List.ext_getElem (by simp [scalars, Literal.dimension, hsame]) fun i hi hi' => ?_
  have hlt : i < l.parts.length := by simpa [scalars, Literal.dimension] using hi
  simp only [scalars, List.getElem_map, List.getElem_range, List.getElem_zipWith]
  rw [selectComponent_chars, selectComponent_literal, selectComponent_chars, selectComponent_literal,
    selectComponent_chars_only]
  simp [Literal.components, hlt, hsame ▸ hlt]

theorem scalars_one (l : Literal) :
    scalars l.dimension [.literal l] = l.parts.map fun a => String.ofList (trim a) := by
  refine List.ext_getElem (by simp [scalars, Literal.dimension]) fun i hi hi' => ?_
  have hlt : i < l.parts.length := by simpa [scalars, Literal.dimension] using hi
  simp [scalars, selectComponent, Literal.components, hlt]

theorem result_expandLiterals {equation : String} {pieces : List Piece} {first : Literal} {others : List Literal}
    (hliterals : literals pieces = first :: others) (hsame : ∀ l ∈ others, l.dimension = first.dimension) :
    (expandLiterals equation pieces).result = .ok (scalars first.dimension pieces) := by
  have hall : others.all (·.dimension == first.dimension) = true := by simpa using hsame
  rw [expandLiterals, hliterals]
  simp only [hall, ↓reduceIte]
  rfl

/-- An equation stands for one equation per component of its literals, unless it gives the derivative of an alias or has
a sign of equality before its first literal. -/
theorem expand_pieces {text front : List Char} {l : Literal} {rest : List Piece}
    (hderivative : aliasDerivative? text = none) (hpieces : pieces text = front.map .char ++ .literal l :: rest)
    (hfront : splitEquation front = none) (hsame : ∀ l' ∈ literals rest, l'.dimension = l.dimension) :
    (expand aliases (String.ofList text)).result =
      .ok (scalars l.dimension (front.map .char ++ .literal l :: rest), aliases) := by
  have hdeclaration : declaration? (pieces text) = none := by
    obtain ⟨hbefore, hbehind⟩ := span_chars front l rest
    rw [hpieces, declaration?, hbefore, hbehind, filterMap_chars, hfront]
  have hliterals : literals (pieces text) = l :: literals rest := by
    rw [hpieces, literals_chars]
    rfl
  have hscalars : (expandLiterals (String.ofList text) (pieces text)).result =
      .ok (scalars l.dimension (pieces text)) :=
    result_expandLiterals hliterals hsame
  rw [expand, String.toList_ofList, hderivative]
  simp only [hdeclaration, Logged.result_bind, hscalars]
  rw [hpieces]
  rfl

/-- An equation between the derivative of a literal and another literal, in either order, stands for one equation per
component. -/
theorem expand_two {text front middle back : List Char} {l l' : Literal} (hderivative : aliasDerivative? text = none)
    (hpieces : pieces text = front.map .char ++ .literal l :: (middle.map .char ++ .literal l' :: back.map .char))
    (hfront : splitEquation front = none) (hsame : l'.parts.length = l.parts.length) :
    (expand aliases (String.ofList text)).result =
      .ok (List.zipWith (fun a b => String.ofList (front ++ trim a ++ middle ++ trim b ++ back)) l.parts l'.parts,
        aliases) := by
  have hliterals : literals (middle.map .char ++ .literal l' :: back.map .char) = [l'] := by
    rw [literals_chars]
    exact congrArg (l' :: ·) (literals_chars_only back)
  rw [expand_pieces hderivative hpieces hfront (by simpa [hliterals, Literal.dimension] using hsame), scalars_two hsame]

/-- The declaration of an alias stands for no equation, and records the components. -/
theorem expand_declaration {name : List Char} (hname : isIdentifier name = true)
    (hcomponents : ∀ part ∈ components.parts, isIdentifier part = true) :
    (expand aliases (String.ofList (declarationText name components))).result =
      .ok ([], aliases.insert (String.ofList name) (components.parts.map String.ofList)) := by
  have hequals : '=' ∉ name := not_mem_of_isIdentifier hname (by decide)
  have hwell : components.WellFormed := fun part hpart =>
    isPart_of_plain (unbracketed_identifier (hcomponents part hpart))
  have hderivative : aliasDerivative? (declarationText name components) = none := by
    rw [declarationText, aliasDerivative?_spaced hequals (tight_identifier hname) components.tight_text,
      derivativeAndVector?_identifier hname, derivativeAndVector?_text_left]
    rfl
  have hstrip : components.components.map (fun c => String.ofList (strip c)) =
      components.parts.map String.ofList := by
    rw [Literal.components, List.map_map]
    refine List.map_congr_left fun part hpart => ?_
    have htight := tight_identifier (hcomponents part hpart)
    rw [Function.comp_apply, htight.trim, strip_eq_self fun c hc =>
      isBlank_of_isIdentifierChar (isIdentifierChar_of_mem (hcomponents part hpart) c hc)]
  rw [expand, String.toList_ofList, hderivative]
  simp only [declarationText, declaration?_spaced hname hwell, hstrip]
  rfl

/-- An equation about the derivative of an alias stands for one equation per component of the alias. -/
theorem expand_named {text name : List Char} {names : List String}
    (hderivative : aliasDerivative? text = some (name, rights.text)) (hrights : rights.WellFormed)
    (hknown : aliases.get? (String.ofList name) = some names) (hlength : names.length = rights.parts.length) :
    (expand aliases (String.ofList text)).result =
      .ok (List.zipWith componentEquation names (rights.parts.map fun a => String.ofList (trim a)), aliases) := by
  have hexpand : (expandLiterals (String.ofList rights.text) (pieces rights.text)).result =
      .ok (rights.parts.map fun a => String.ofList (trim a)) := by
    have hliterals : literals [.literal rights] = rights :: [] := rfl
    rw [Literal.pieces_text hrights, result_expandLiterals hliterals (by simp), scalars_one]
  exact result_expand_derivative (by rw [String.toList_ofList, hderivative]) hexpand hknown
    (by rw [hlength, List.length_map])

end

/-! ### Readings -/

section
variable {isFunction : String → Bool} {name right right' : List Char}

/-- Blanks around the right-hand side of a scalar equation do not matter. -/
theorem reading_trim (hname : isIdentifier name = true) (right : List Char) :
    Equation.reading isFunction (String.ofList (scalarText name (trim right))) =
      Equation.reading isFunction (String.ofList (scalarText name right)) := by
  have hside : Equation.IsDerivative isFunction name ([] ++ derivative name ++ [' ']) :=
    Equation.isDerivative_padded hname rfl (by decide)
  have halike : Alike isFunction (' ' :: trim right) (' ' :: right) :=
    (alike_blank_cons _).trans ((alike_trim right).trans (alike_blank_cons right).symm)
  have hread := Equation.reading_left hside hside halike
  simpa [scalarText] using hread

/-- Nor does it matter that the sides are swapped, unless the right-hand side is taken for a derivative. -/
theorem reading_swapped (hname : isIdentifier name = true)
    (hright : derivativeOf? (normalText isFunction right) = none) :
    Equation.reading isFunction (String.ofList (trim right ++ " = ".toList ++ derivative name)) =
      Equation.reading isFunction (String.ofList (scalarText name right)) :=
  Equation.reading_spaced hname (alike_trim right) hright

end

/-! ### Spellings -/

section
variable {aliases : Aliases} {components rights : Literal} {name : List Char}

theorem tight_derivativeText (l : Literal) : Tight l.derivativeText := by
  have hd : isBlank 'd' = false := by decide
  have ht : isBlank 't' = false := by decide
  have h := tight_cons_append hd ht (l.text ++ ['/', 'd'])
  simpa [Literal.derivativeText] using h

theorem derivativeAndVector?_derivativeText (l : Literal) (vector : List Char) :
    derivativeAndVector? l.derivativeText vector = none := by
  have hnone : spacedDerivativeOf? l.derivativeText = none := by
    simp [spacedDerivativeOf?, Literal.derivativeText, expect, l.takeNameSpaced_text]
  rw [derivativeAndVector?, hnone]

theorem expand_literal (hcomponents : components.WellFormed) (hrights : rights.WellFormed)
    (hequals : ∀ part ∈ components.parts, '=' ∉ part) (hsame : rights.parts.length = components.parts.length) :
    (expand aliases (String.ofList (Spelling.literal.text components rights name))).result =
      .ok (List.zipWith (fun x e => String.ofList (scalarText (trim x) (trim e))) components.parts rights.parts,
        aliases) := by
  have hpieces : pieces (Spelling.literal.text components rights name) =
      ['d'].map .char ++ .literal components :: ("/dt = ".toList.map .char ++ .literal rights :: [].map .char) := by
    have htext : Spelling.literal.text components rights name =
        ['d'] ++ (components.text ++ ("/dt = ".toList ++ rights.text)) := by
      simp [Spelling.text, Literal.derivativeText]
    rw [htext, pieces_chars (by simp), pieces_literal hcomponents, pieces_chars (by simp),
      Literal.pieces_text hrights]
    rfl
  have hnone : aliasDerivative? (Spelling.literal.text components rights name) = none := by
    have hside : '=' ∉ components.derivativeText := by
      simpa [Literal.derivativeText] using Literal.not_mem_text hequals
    rw [Spelling.text, aliasDerivative?_spaced hside (tight_derivativeText _) rights.tight_text,
      derivativeAndVector?_derivativeText, derivativeAndVector?_text_left]
    rfl
  rw [expand_two hnone hpieces rfl hsame]
  simp [scalarText, derivative]

theorem expand_literalSwapped (hcomponents : components.WellFormed) (hrights : rights.WellFormed)
    (hequals : ∀ part ∈ rights.parts, '=' ∉ part) (hsame : rights.parts.length = components.parts.length) :
    (expand aliases (String.ofList (Spelling.literalSwapped.text components rights name))).result =
      .ok (List.zipWith (fun x e => String.ofList (trim e ++ " = ".toList ++ derivative (trim x))) components.parts
        rights.parts, aliases) := by
  have hpieces : pieces (Spelling.literalSwapped.text components rights name) =
      [].map .char ++ .literal rights ::
        (" = d".toList.map .char ++ .literal components :: "/dt".toList.map .char) := by
    have htext : Spelling.literalSwapped.text components rights name =
        rights.text ++ (" = d".toList ++ (components.text ++ ("/dt".toList ++ []))) := by
      simp [Spelling.text, Literal.derivativeText]
    rw [htext, pieces_literal hrights, pieces_chars (by simp), pieces_literal hcomponents, pieces_chars (by simp)]
    rfl
  have hnone : aliasDerivative? (Spelling.literalSwapped.text components rights name) = none := by
    rw [Spelling.text, aliasDerivative?_spaced (Literal.not_mem_text hequals) rights.tight_text
      (tight_derivativeText _), derivativeAndVector?_derivativeText, derivativeAndVector?_text_left]
    rfl
  rw [expand_two hnone hpieces rfl hsame.symm, List.zipWith_comm]
  simp [derivative]

theorem aliasDerivative?_named (hname : isIdentifier name = true) (hrights : rights.WellFormed) :
    aliasDerivative? (Spelling.named.text components rights name) = some (name, rights.text) := by
  have hequals : '=' ∉ derivative name := not_mem_derivative hname (by decide) (by decide)
  rw [Spelling.text, aliasDerivative?_spaced hequals (tight_derivative name) rights.tight_text,
    derivativeAndVector?_derivative hname hrights]
  rfl

theorem aliasDerivative?_namedSwapped (hname : isIdentifier name = true) (hrights : rights.WellFormed)
    (hequals : ∀ part ∈ rights.parts, '=' ∉ part) :
    aliasDerivative? (Spelling.namedSwapped.text components rights name) = some (name, rights.text) := by
  rw [Spelling.text, aliasDerivative?_spaced (Literal.not_mem_text hequals) rights.tight_text (tight_derivative name),
    derivativeAndVector?_text_left, derivativeAndVector?_derivative hname hrights]
  rfl

theorem map_zipWith_congr {α β γ δ : Type} {f : α → β → γ} {g : γ → δ} {h : α → β → δ} {xs : List α} {ys : List β}
    (hsame : ∀ x ∈ xs, ∀ y ∈ ys, g (f x y) = h x y) : (List.zipWith f xs ys).map g = List.zipWith h xs ys := by
  induction xs generalizing ys with
  | nil => rfl
  | cons x xs ih =>
    cases ys with
    | nil => rfl
    | cons y ys =>
      rw [List.zipWith_cons_cons, List.map_cons, hsame x (List.mem_cons_self ..) y (List.mem_cons_self ..),
        ih fun x hx y hy => hsame x (List.mem_cons_of_mem _ hx) y (List.mem_cons_of_mem _ hy), List.zipWith_cons_cons]

theorem zipWith_componentEquation (names rights : List (List Char)) :
    List.zipWith componentEquation (names.map String.ofList) (rights.map fun e => String.ofList (trim e)) =
      List.zipWith (fun x e => String.ofList (scalarText x (trim (trim e)))) names rights := by
  rw [List.zipWith_map]
  refine congrArg (List.zipWith · names rights) ?_
  funext x e
  rw [componentEquation, String.toList_ofList]
  simp [scalarText, derivative, ← String.toList_inj]

end

section
variable {isFunction : String → Bool} {names rights : List (List Char)} {name : List Char}

/-- However a vector equation is spelled, it expands to the same readings: one scalar equation per component, read as
the derivative of the variable with the component on the right. Spellings with the literal of the variables on the
right need components that are not taken for derivatives; spellings by a name need its declaration. -/
theorem expand_spellings (htwo : 2 ≤ names.length) (hsame : rights.length = names.length)
    (hnames : ∀ x ∈ names, isIdentifier x = true) (hname : isIdentifier name = true)
    (hrights : ∀ e ∈ rights, isPart 0 e = true ∧ '=' ∉ e) (bracket : Bracket) (aliases : Aliases) :
    ∃ declared, (expand aliases (String.ofList (declarationText name ⟨bracket, names, htwo⟩))).result =
        .ok ([], declared) ∧
      ∀ (spelling : Spelling) (left right : Bracket) (known : Aliases),
        (spelling.isNamed = true → known = declared) →
        (spelling = .literalSwapped → ∀ e ∈ rights, derivativeOf? (normalText isFunction e) = none) →
        ∃ scalars, (expand known (String.ofList
            (spelling.text ⟨left, names, htwo⟩ ⟨right, rights, hsame ▸ htwo⟩ name))).result = .ok (scalars, known) ∧
          scalars.length = names.length ∧
          scalars.map (Equation.reading isFunction) =
            List.zipWith (fun x e => Equation.reading isFunction (String.ofList (scalarText x e))) names rights := by
  refine ⟨_, expand_declaration hname hnames, fun spelling left right known hknown hplain => ?_⟩
  have hcomponents : (Literal.mk left names htwo).WellFormed := fun part hpart =>
    isPart_of_plain (unbracketed_identifier (hnames part hpart))
  have hwell : (Literal.mk right rights (hsame ▸ htwo)).WellFormed := fun part hpart => (hrights part hpart).1
  have hequals : ∀ part ∈ names, '=' ∉ part := fun part hpart =>
    not_mem_of_isIdentifier (hnames part hpart) (by decide)
  have hequals' : ∀ part ∈ rights, '=' ∉ part := fun part hpart => (hrights part hpart).2
  have htrim {x : List Char} (hx : x ∈ names) : trim x = x := (tight_identifier (hnames x hx)).trim
  -- By a name, the derivative ends up on the left whichever side it is on.
  have named {text : List Char} (hknown : known = aliases.insert (String.ofList name) (names.map String.ofList))
      (hderivative : aliasDerivative? text = some (name, (Literal.mk right rights (hsame ▸ htwo)).text)) :
      ∃ scalars, (expand known (String.ofList text)).result = .ok (scalars, known) ∧
        scalars.length = names.length ∧
        scalars.map (Equation.reading isFunction) =
          List.zipWith (fun x e => Equation.reading isFunction (String.ofList (scalarText x e))) names rights := by
    have hget : known.get? (String.ofList name) = some (names.map String.ofList) := by
      rw [hknown, Table.get?_insert_self]
    refine ⟨_, expand_named hderivative hwell hget (by simp [hsame]), by simp [hsame], ?_⟩
    rw [zipWith_componentEquation]
    refine map_zipWith_congr fun x hx e he => ?_
    rw [reading_trim (hnames x hx), reading_trim (hnames x hx)]
  cases spelling with
  | literal =>
    refine ⟨_, expand_literal hcomponents hwell hequals hsame, by simp [hsame], map_zipWith_congr fun x hx e he => ?_⟩
    rw [htrim hx, reading_trim (hnames x hx)]
  | literalSwapped =>
    refine ⟨_, expand_literalSwapped hcomponents hwell hequals' hsame, by simp [hsame],
      map_zipWith_congr fun x hx e he => ?_⟩
    rw [htrim hx, reading_swapped (hnames x hx) (hplain rfl e he)]
  | named => exact named (hknown rfl) (aliasDerivative?_named hname hwell)
  | namedSwapped => exact named (hknown rfl) (aliasDerivative?_namedSwapped hname hwell hequals')

/-- The equation of a circle, however it is written. -/
theorem expand_spellings_circle :
    ∃ declared, (expand Table.empty "r = ((x,y))").result = .ok ([], declared) ∧
      ∀ (spelling : Spelling) (left right : Bracket), ∃ scalars,
        (expand declared (String.ofList (spelling.text ⟨left, [['x'], ['y']], by decide⟩
          ⟨right, [['y'], ['-', 'x']], by decide⟩ ['r']))).result = .ok (scalars, declared) ∧
        scalars.length = 2 ∧
        scalars.map (Equation.reading knownFunctions.contains) =
          ["dx/dt = y", "dy/dt = -x"].map (Equation.reading knownFunctions.contains) := by
  obtain ⟨declared, hdeclared, hspellings⟩ := @expand_spellings knownFunctions.contains [['x'], ['y']]
    [['y'], ['-', 'x']] ['r'] (by decide) rfl (by decide) (by decide) (by decide) .round Table.empty
  refine ⟨declared, hdeclared, fun spelling left right => ?_⟩
  exact hspellings spelling left right declared (fun _ => rfl) (fun _ => by decide +kernel)

/-- A component that is the derivative of a variable but for the parentheses around it is taken for one all the same:
with the literal of the variables on the right, it is what the first scalar equation defines. -/
theorem literalSwapped_parenthesized_derivative :
    let names := ["x1".toList, "x2".toList]
    let rights := ["(dx/dt)".toList, ['y']]
    let text := Spelling.literalSwapped.text ⟨.round, names, by decide⟩ ⟨.round, rights, by decide⟩ ['r']
    (∀ x ∈ names, isIdentifier x = true) ∧
      (∀ e ∈ rights, isPart 0 e = true ∧ '=' ∉ e ∧ trim e ≠ []) ∧
      (∀ e ∈ rights, ∀ x, normalText knownFunctions.contains e ≠ derivative x) ∧
      ∃ scalars known, (expand Table.empty (String.ofList text)).result = .ok (scalars, known) ∧
        scalars.map (Equation.reading knownFunctions.contains) ≠
          List.zipWith (fun x e => Equation.reading knownFunctions.contains (String.ofList (scalarText x e)))
            names rights := by
  intro names rights text
  refine ⟨by decide, by decide +kernel, fun e he x hx => ?_, ?_⟩
  · have hhead : ∀ e ∈ rights, (normalText knownFunctions.contains e).head? ≠ some 'd' := by decide +kernel
    exact hhead e he (by rw [hx]; rfl)
  · have hexpand : (expand Table.empty (String.ofList text)).result.toOption.any
        (fun expanded => expanded.1 == ["(dx/dt) = dx1/dt", "y = dx2/dt"]) = true := by
      decide +kernel
    obtain ⟨⟨scalars, known⟩, hresult, hscalars⟩ := exists_ok_of_any hexpand
    obtain rfl : scalars = ["(dx/dt) = dx1/dt", "y = dx2/dt"] := by simpa using hscalars
    refine ⟨_, known, hresult, fun hsame => ?_⟩
    -- The first equation defines `x` where it should define `x1`.
    have hname : (Equation.reading knownFunctions.contains "(dx/dt) = dx1/dt").toOption.map Equation.name ≠
        (Equation.reading knownFunctions.contains
          (String.ofList (scalarText "x1".toList "(dx/dt)".toList))).toOption.map Equation.name := by
      decide +kernel
    exact hname (congrArg (fun reading => reading.toOption.map Equation.name) (List.cons.inj hsame).1)

end

end OdeSystem.Vector
