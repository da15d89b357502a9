import OdeSystem.Proofs.Enclosure
import OdeSystem.Proofs.Vector.Spelling

/-!
Components as units. A component is put in the place of its literal as it is written, without parentheses: it is a unit
of the expression around it if it stands in parentheses, its own or some directly around the literal, or if nothing
stands around it. Elsewhere the operators next to the literal may take it apart.
-/

namespace OdeSystem.Vector

open Notation Text

/-- The text of pieces with each literal replaced by one of its components in parentheses. -/
def encloseComponent (index : Nat) (pieces : List Piece) : List Char :=
  pieces.flatMap fun
    | .char c => [c]
    | .literal l => '(' :: ((l.components[index]?).getD [] ++ [')'])

/-! ### The text of a scalar equation -/

section
variable {aliases : Aliases} {names : Literal} {right : List Char}

/-- The derivative of a literal makes an equation about no alias. -/
theorem aliasDerivative?_derivativeText (hequals : ∀ part ∈ names.parts, '=' ∉ part) (right : List Char) :
    aliasDerivative? (names.derivativeText ++ " = ".toList ++ right) = none := by
  have hside : '=' ∉ names.derivativeText := by
    simpa [Literal.derivativeText] using Literal.not_mem_text hequals
  have htrim : trim ([] ++ names.derivativeText ++ [' ']) = names.derivativeText :=
    (tight_derivativeText names).trim_padded rfl (by decide)
  have hvector (vector : List Char) : derivativeAndVector? vector names.derivativeText = none := by
    have hnone : isVector names.derivativeText = false := rfl
    rw [derivativeAndVector?, hnone]
    cases spacedDerivativeOf? vector <;> rfl
  rw [List.nil_append] at htrim
  rw [aliasDerivative?, splitEquation_spaced hside]
  simp only [htrim, derivativeAndVector?_derivativeText, hvector]
  rfl

/-- A vector equation stands for one scalar equation per component, with the texts of the components in the places of the
literals. -/
theorem expand_derivativeText (hnames : names.WellFormed) (hequals : ∀ part ∈ names.parts, '=' ∉ part)
    (hsame : ∀ l ∈ literals (pieces right), l.dimension = names.dimension) :
    (expand aliases (String.ofList (names.derivativeText ++ " = ".toList ++ right))).result =
      .ok (names.components.mapIdx fun i name => String.ofList (scalarText name (selectComponent i (pieces right))),
        aliases) := by
  have hpieces : pieces (names.derivativeText ++ " = ".toList ++ right) =
      ['d'].map .char ++ .literal names :: ("/dt = ".toList.map .char ++ pieces right) := by
    have htext : names.derivativeText ++ " = ".toList ++ right =
        ['d'] ++ (names.text ++ ("/dt = ".toList ++ right)) := by
      simp [Literal.derivativeText]
    rw [htext, pieces_chars (by simp), pieces_literal hnames, pieces_chars (by simp)]
  have hliterals : literals ("/dt = ".toList.map .char ++ pieces right) = literals (pieces right) :=
    literals_chars "/dt = ".toList (pieces right)
  have hscalars : scalars names.dimension (['d'].map .char ++ .literal names :: ("/dt = ".toList.map .char ++ pieces right)) =
      names.components.mapIdx fun i name => String.ofList (scalarText name (selectComponent i (pieces right))) := by
    refine List.ext_getElem (by simp [scalars, Literal.dimension, Literal.components]) fun i hi hi' => ?_
    have hlt : i < names.components.length := by simpa using hi'
    simp only [scalars, List.getElem_map, List.getElem_range, List.getElem_mapIdx, selectComponent_chars,
      selectComponent_literal, List.getElem?_eq_getElem hlt, Option.getD_some]
    simp [scalarText, derivative]
  rw [expand_pieces (aliasDerivative?_derivativeText hequals right) hpieces rfl (hliterals ▸ hsame), hscalars]

end

/-! ### Components in parentheses -/

section
variable {isFunction : String → Bool} {index : Nat}

/-- Whether the components with an index stand in parentheses, either their own or some directly around their literals,
and could stand there alone. -/
inductive InParentheses (isFunction : String → Bool) (index : Nat) : List Piece → Prop
  | nil : InParentheses isFunction index []
  | char {pieces : List Piece} (c : Char) (h : InParentheses isFunction index pieces) :
      InParentheses isFunction index (.char c :: pieces)
  | component {l : Literal} {inner : List Char} {pieces : List Piece}
      (hcomponent : l.components[index]? = some ('(' :: (inner ++ [')']))) (hinner : IsUnit isFunction inner)
      (h : InParentheses isFunction index pieces) : InParentheses isFunction index (.literal l :: pieces)
  | literal {l : Literal} {component : List Char} {pieces : List Piece}
      (hcomponent : l.components[index]? = some component) (hunit : IsUnit isFunction component)
      (h : InParentheses isFunction index pieces) :
      InParentheses isFunction index (.char '(' :: .literal l :: .char ')' :: pieces)

/-- Where components stand in parentheses, those put around them are second ones. -/
theorem InParentheses.enclosed {pieces : List Piece} (h : InParentheses isFunction index pieces) :
    Enclosed '(' ')' (IsUnit isFunction) (selectComponent index pieces) (encloseComponent index pieces) := by
  induction h with
  | nil => exact .plain []
  | char c _ ih => exact ih.append_left [c]
  | @component l inner pieces hcomponent hinner _ ih =>
    have hselect : selectComponent index (.literal l :: pieces) =
        [] ++ '(' :: (inner ++ ')' :: selectComponent index pieces) := by
      simp [selectComponent, hcomponent]
    have henclose : encloseComponent index (.literal l :: pieces) =
        [] ++ '(' :: '(' :: (inner ++ ')' :: ')' :: encloseComponent index pieces) := by
      simp [encloseComponent, hcomponent]
    rw [hselect, henclose]
    exact .group hinner ih
  | @literal l component pieces hcomponent hunit _ ih =>
    have hselect : selectComponent index (.char '(' :: .literal l :: .char ')' :: pieces) =
        [] ++ '(' :: (component ++ ')' :: selectComponent index pieces) := by
      simp [selectComponent, hcomponent]
    have henclose : encloseComponent index (.char '(' :: .literal l :: .char ')' :: pieces) =
        [] ++ '(' :: '(' :: (component ++ ')' :: ')' :: encloseComponent index pieces) := by
      simp [encloseComponent, hcomponent]
    rw [hselect, henclose]
    exact .group hunit ih

/-- Whether nothing that stands next to the literals can take the components with an index apart. -/
inductive StandsAlone (isFunction : String → Bool) (index : Nat) : List Piece → Prop
  | inParentheses {pieces : List Piece} (h : InParentheses isFunction index pieces) :
      StandsAlone isFunction index pieces
  | whole {leading trailing component : List Char} {l : Literal} (hleading : allBlank leading = true)
      (htrailing : allBlank trailing = true) (hcomponent : l.components[index]? = some component)
      (hunit : IsUnit isFunction component) :
      StandsAlone isFunction index (leading.map .char ++ .literal l :: trailing.map .char)

/-! ### Readings -/

/-- The blanks around the sign of equality do not matter. -/
theorem reading_scalarText {name : List Char} (hname : isIdentifier name = true) (right : List Char) :
    Equation.reading isFunction (String.ofList (scalarText name right)) =
      Equation.reading isFunction (String.ofList (derivative name ++ '=' :: right)) := by
  have hside : Equation.IsDerivative isFunction name ([] ++ derivative name ++ [' ']) :=
    Equation.isDerivative_padded hname rfl (by decide)
  have hside' : Equation.IsDerivative isFunction name ([] ++ derivative name ++ []) :=
    Equation.isDerivative_padded hname rfl rfl
  have hread := Equation.reading_left hside hside' (alike_blank_cons right)
  simpa [scalarText] using hread

/-- Components that stand alone are read as they are in parentheses. -/
theorem reading_components {name : List Char} (hname : isIdentifier name = true) {pieces : List Piece}
    (h : StandsAlone isFunction index pieces) (hselect : Equation.IsPlain isFunction (selectComponent index pieces))
    (henclose : Equation.IsPlain isFunction (encloseComponent index pieces)) :
    Matched Eq Equation.Agrees
      (Equation.reading isFunction (String.ofList (scalarText name (selectComponent index pieces))))
      (Equation.reading isFunction (String.ofList (scalarText name (encloseComponent index pieces)))) := by
  have hside : Equation.IsDerivative isFunction name ([] ++ derivative name ++ []) :=
    Equation.isDerivative_padded hname rfl rfl
  rw [List.nil_append, List.append_nil] at hside
  rw [reading_scalarText hname, reading_scalarText hname]
  cases h with
  | inParentheses h => exact Equation.reading_enclosed hside hselect henclose h.enclosed
  | @whole leading trailing component l hleading htrailing hcomponent hunit =>
    have hselected : selectComponent index (leading.map .char ++ .literal l :: trailing.map .char) =
        leading ++ component ++ trailing := by
      rw [selectComponent_chars, selectComponent_literal, hcomponent, selectComponent_chars_only, List.append_assoc]
      rfl
    have henclosed : encloseComponent index (leading.map .char ++ .literal l :: trailing.map .char) =
        leading ++ ('(' :: (component ++ [')'])) ++ trailing := by
      simp [encloseComponent, hcomponent, List.flatMap_map]
    rw [hselected] at hselect ⊢
    rw [henclosed] at henclose ⊢
    rw [Equation.reading_left hside hside (alike_padded hleading htrailing component),
      Equation.reading_left hside hside (alike_padded hleading htrailing ('(' :: (component ++ [')'])))]
    exact Equation.reading_parenthesized hside (hselect.of_padded hleading htrailing)
      (henclose.of_padded hleading htrailing) hunit

/-! ### Units -/

/-- A vector equation stands for one scalar equation per component, in which the components are put in the places of the
literals as they are written. Where they stand alone, each is a unit of the expression: the scalar equation is read like
the one with all components in parentheses, and has the same values. -/
theorem expand_units {aliases : Aliases} {names : Literal} {right : List Char} (hnames : names.WellFormed)
    (hequals : ∀ part ∈ names.parts, '=' ∉ part)
    (hsame : ∀ l ∈ literals (pieces right), l.dimension = names.dimension) :
    (expand aliases (String.ofList (names.derivativeText ++ " = ".toList ++ right))).result =
        .ok (names.components.mapIdx fun i name =>
          String.ofList (scalarText name (selectComponent i (pieces right))), aliases) ∧
      ∀ i name, names.components[i]? = some name → isIdentifier name = true → StandsAlone isFunction i (pieces right) →
        Equation.IsPlain isFunction (selectComponent i (pieces right)) →
        Equation.IsPlain isFunction (encloseComponent i (pieces right)) →
        Matched Eq Equation.Agrees
          (Equation.reading isFunction (String.ofList (scalarText name (selectComponent i (pieces right)))))
          (Equation.reading isFunction (String.ofList (scalarText name (encloseComponent i (pieces right))))) :=
  ⟨expand_derivativeText hnames hequals hsame, fun _ _ _ hname halone hselect henclose =>
    reading_components hname halone hselect henclose⟩

/-- Components with parentheses of their own, and a literal that is the argument of a function. -/
theorem expand_units_sheared :
    (expand Table.empty "d((x, y))/dt = 3(((x - y), (y + x))) - sin(((x, y)))").result =
        .ok (["dx/dt = 3(x - y) - sin(x)", "dy/dt = 3(y + x) - sin(y)"], Table.empty) ∧
      Matched Eq Equation.Agrees (Equation.reading knownFunctions.contains "dx/dt = 3(x - y) - sin(x)")
        (Equation.reading knownFunctions.contains "dx/dt = 3((x - y)) - sin((x))") ∧
      Matched Eq Equation.Agrees (Equation.reading knownFunctions.contains "dy/dt = 3(y + x) - sin(y)")
        (Equation.reading knownFunctions.contains "dy/dt = 3((y + x)) - sin((y))") := by
  let right := "3(((x - y), (y + x))) - sin(((x, y)))".toList
  let differences : Literal := ⟨.round, ["(x - y)".toList, " (y + x)".toList], by decide⟩
  let arguments : Literal := ⟨.round, ["x".toList, " y".toList], by decide⟩
  have hpieces : pieces right = ['3'].map .char ++ .literal differences ::
      (" - sin".toList.map .char ++ [.char '(', .literal arguments, .char ')']) := by
    decide +kernel
  have halone (i : Nat) (difference argument : List Char)
      (hdifference : differences.components[i]? = some ('(' :: (difference ++ [')'])))
      (hargument : arguments.components[i]? = some argument)
      (hunits : IsUnit knownFunctions.contains difference ∧ IsUnit knownFunctions.contains argument) :
      StandsAlone knownFunctions.contains i (pieces right) := by
    have hchars {pieces : List Piece} (text : List Char) (h : InParentheses knownFunctions.contains i pieces) :
        InParentheses knownFunctions.contains i (text.map .char ++ pieces) := by
      induction text with
      | nil => exact h
      | cons c _ ih => exact .char c ih
    rw [hpieces]
    exact .inParentheses (hchars _ (.component hdifference hunits.1 (hchars _ (.literal hargument hunits.2 .nil))))
  have hselect : (arguments.components.mapIdx fun i name =>
      String.ofList (scalarText name (selectComponent i (pieces right)))) =
        ["dx/dt = 3(x - y) - sin(x)", "dy/dt = 3(y + x) - sin(y)"] := by
    decide +kernel
  have henclose : (arguments.components.mapIdx fun i name =>
      String.ofList (scalarText name (encloseComponent i (pieces right)))) =
        ["dx/dt = 3((x - y)) - sin((x))", "dy/dt = 3((y + x)) - sin((y))"] := by
    decide +kernel
  obtain ⟨hexpand, hread⟩ := @expand_units knownFunctions.contains Table.empty arguments right
    (by decide +kernel) (by decide +kernel) (by decide +kernel)
  have hfirst := hread 0 ['x'] rfl (by decide) (halone 0 "x - y".toList ['x'] rfl rfl (by decide +kernel)) (by decide +kernel)
    (by decide +kernel)
  have hsecond := hread 1 ['y'] rfl (by decide) (halone 1 "y + x".toList ['y'] rfl rfl (by decide +kernel)) (by decide +kernel)
    (by decide +kernel)
  obtain ⟨hfirst_select, hsecond_select⟩ := List.cons_eq_cons.mp hselect
  obtain ⟨hfirst_enclose, hsecond_enclose⟩ := List.cons_eq_cons.mp henclose
  rw [hselect] at hexpand
  refine ⟨hexpand, ?_, ?_⟩
  · rw [← hfirst_select, ← hfirst_enclose]
    exact hfirst
  · rw [← (List.cons_eq_cons.mp hsecond_select).1, ← (List.cons_eq_cons.mp hsecond_enclose).1]
    exact hsecond

/-- A component that does not stand alone is taken apart: the factor is one of its first summand only. -/
theorem product_takes_component_apart :
    let right := "2*((x+1,y))".toList
    let state : State := (Table.empty.insert "x" 1).insert "y" 1
    let value (text : List Char) : Option Float :=
      (Equation.reading knownFunctions.contains (String.ofList (scalarText ['x'] text))).toOption.bind fun e =>
        (e.eval state 0 Table.empty).toOption
    (∀ l ∈ literals (pieces right), ∀ component ∈ l.components, IsUnit knownFunctions.contains component) ∧
      (expand Table.empty (String.ofList ("d((x,y))/dt = ".toList ++ right))).result =
        .ok (["dx/dt = 2*x+1", "dy/dt = 2*y"], Table.empty) ∧
      String.ofList (scalarText ['x'] (selectComponent 0 (pieces right))) = "dx/dt = 2*x+1" ∧
      (value (selectComponent 0 (pieces right)) == some 3) = true ∧
      (value (encloseComponent 0 (pieces right)) == some 4) = true := by
  let right := "2*((x+1,y))".toList
  have hexpand := @expand_derivativeText Table.empty ⟨.round, [['x'], ['y']], by decide⟩ right
    (by decide +kernel) (by decide +kernel) (by decide +kernel)
  exact ⟨by decide +kernel, hexpand, by decide +kernel, by decide +kernel, by decide +kernel⟩

end

end OdeSystem.Vector
