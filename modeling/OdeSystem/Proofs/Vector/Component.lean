import OdeSystem.Proofs.Reading
import OdeSystem.Proofs.Vector.Shape

/-!
Derivatives of aliases. An equation between the derivative of an alias and an expression with vector literals stands for
the derivatives of the components of the alias, one equation for each, if the expression is taken for a vector. That
goes by the brackets at its ends: where others stand there, the equation stands for as many about the alias itself.
-/

namespace OdeSystem.Vector

open Notation Text

/-! ### Scalar equations -/

section
variable {isFunction : String → Bool}

/-- Whether a scalar equation, if it is accepted, defines the derivative of a variable. -/
def DefinesDerivative (isFunction : String → Bool) (text variableName : String) : Prop :=
  ∀ e, Equation.ofText isFunction text = .ok e → e.kind = .derivative ∧ e.name = variableName

theorem definesDerivative_componentEquation {name : String} (hname : isIdentifier name.toList = true) (right : String) :
    DefinesDerivative isFunction (componentEquation name right) name := by
  intro e he
  have hside : Equation.IsDerivative isFunction name.toList ([] ++ derivative name.toList ++ [' ']) :=
    Equation.isDerivative_padded hname rfl (by decide)
  have htext : (componentEquation name right).toList =
      ([] ++ derivative name.toList ++ [' ']) ++ '=' :: ' ' :: trim right.toList := by
    simp [componentEquation, derivative]
  obtain ⟨kind, defined, expression, formula, hparts, -, rfl⟩ := Equation.ofText_eq_ok he
  rw [htext, hside.normalText_left, Equation.parts?_derivative_left hname] at hparts
  split at hparts
  · cases hparts
  · cases hparts
    exact ⟨rfl, String.ofList_toList⟩

/-- A component put in the place of its literal brings no other characters. -/
theorem mem_of_mem_selectComponent {index : Nat} {text : List Char} {c : Char}
    (h : c ∈ selectComponent index (pieces text)) : c ∈ text := by
  rw [← text_pieces text]
  obtain ⟨piece, hpiece, hc⟩ := List.mem_flatMap.mp h
  refine List.mem_flatMap.mpr ⟨piece, hpiece, ?_⟩
  cases piece with
  | char d => exact hc
  | literal l =>
    cases hcomponent : l.components[index]? with
    | none => simp [hcomponent] at hc
    | some component =>
      obtain ⟨part, hpart, rfl⟩ := List.mem_map.mp (List.mem_of_getElem? hcomponent)
      obtain ⟨leading, trailing, -, -, htext⟩ := exists_blanks_append_trim part
      have hmem : c ∈ part := by
        rw [htext]
        simpa [hcomponent] using Or.inr (Or.inl hc)
      simp [Piece.text, Literal.text, Literal.mem_intercalate_of_mem hpart hmem]

end

/-! ### Expansions -/

section
variable {isFunction : String → Bool} {aliases : Aliases} {name text expression : List Char} {components : List String}

theorem result_expandLiterals_of_dimension {equation : String} {pieces : List Piece} {dimension : Nat}
    (hne : literals pieces ≠ []) (hsame : ∀ l ∈ literals pieces, l.dimension = dimension) :
    (expandLiterals equation pieces).result = .ok (scalars dimension pieces) := by
  obtain ⟨first, others, hliterals⟩ := List.exists_cons_of_ne_nil hne
  rw [hliterals] at hsame
  obtain ⟨rfl, hothers⟩ := List.forall_mem_cons.mp hsame
  exact result_expandLiterals hliterals hothers

/-- An equation that is neither about an alias nor declares one stands for one equation per component, in which all but
the components is as it was. -/
theorem expand_surrounded {front back : List Char} {dimension : Nat} (hfront : Unbracketed front)
    (hback : Unbracketed back) (hderivative : aliasDerivative? (front ++ expression ++ back) = none)
    (hdeclaration : declaration? (pieces (front ++ expression ++ back)) = none)
    (hne : literals (pieces expression) ≠ []) (hsame : ∀ l ∈ literals (pieces expression), l.dimension = dimension) :
    (expand aliases (String.ofList (front ++ expression ++ back))).result =
      .ok ((List.range dimension).map fun i =>
        String.ofList (front ++ selectComponent i (pieces expression) ++ back), aliases) := by
  have hliterals := literals_surrounded hfront hback expression
  have hscalars (equation : String) : (expandLiterals equation (pieces (front ++ expression ++ back))).result =
      .ok (scalars dimension (pieces (front ++ expression ++ back))) :=
    result_expandLiterals_of_dimension (hliterals ▸ hne) (hliterals ▸ hsame)
  rw [expand, String.toList_ofList, hderivative]
  simp only [hdeclaration, Logged.result_bind, hscalars, Except.bind, Logged.result_pure]
  simp only [scalars, pieces_surrounded hfront hback, selectComponent_append, selectComponent_chars_only]

/-- An equation between the derivative of an alias and an expression whose literals have as many parts as the alias has
components stands for that many equations. If the expression is taken for a vector, they define the derivatives of the
components, each of its own; if not, all of them are about the derivative of the alias. -/
theorem expand_alias_components (h : EquatesDerivative name text expression)
    (hcomponents : aliases.get? (String.ofList name) = some components)
    (hidentifiers : ∀ x ∈ components, isIdentifier x.toList = true) (hliteral : hasLiteral expression = true)
    (hsame : ∀ l ∈ literals (pieces expression), l.dimension = components.length) :
    ∃ found, (expand aliases (String.ofList text)).result = .ok (found, aliases) ∧ found.length = components.length ∧
      (isVector expression = true →
        found = List.zipWith componentEquation components (scalars components.length (pieces expression)) ∧
          List.Forall₂ (DefinesDerivative isFunction) found components) ∧
      (isVector expression = false → ∀ scalar ∈ found, ∃ right, EquatesDerivative name scalar.toList right) := by
  have hne : literals (pieces expression) ≠ [] := by simpa [hasLiteral] using hliteral
  have hderivative := h.aliasDerivative?_eq hliteral
  cases hvector : isVector expression with
  | true =>
    rw [hvector, if_pos rfl] at hderivative
    have hlength : components.length = (scalars components.length (pieces expression)).length := by simp [scalars]
    refine ⟨_, result_expand_derivative (by rw [String.toList_ofList, hderivative])
      (result_expandLiterals_of_dimension hne hsame) hcomponents hlength, by simp [scalars], fun _ => ⟨rfl, ?_⟩,
      Bool.noConfusion⟩
    refine List.forall₂_iff_get.mpr ⟨by simp [scalars], fun i hi hi' => ?_⟩
    rw [List.get_eq_getElem, List.get_eq_getElem, List.getElem_zipWith]
    exact definesDerivative_componentEquation (hidentifiers _ (List.getElem_mem hi')) _
  | false =>
    rw [hvector, if_neg Bool.false_ne_true] at hderivative
    obtain ⟨front, back, hfront, hback, rfl, hreplaced⟩ := h.exists_around
    refine ⟨_, expand_surrounded hfront hback hderivative (h.declaration?_eq_none hliteral) hne hsame, by simp,
      Bool.noConfusion, fun _ scalar hscalar => ?_⟩
    obtain ⟨i, -, rfl⟩ := List.mem_map.mp hscalar
    rw [String.toList_ofList]
    exact hreplaced _ fun c hc => mem_of_mem_selectComponent hc

/-- A sum of vectors is taken for one, and the derivative may also stand behind a vector. -/
theorem expand_alias_components_sum :
    let aliases : Aliases := Table.empty.insert "r" ["x", "y"]
    (expand aliases "dr/dt = ((y, 0)) + ((0, -x))").result = .ok (["dx/dt = y + 0", "dy/dt = 0 + -x"], aliases) ∧
      (expand aliases "[[y, -x]] = d r / dt").result = .ok (["dx/dt = y", "dy/dt = -x"], aliases) ∧
      List.Forall₂ (DefinesDerivative knownFunctions.contains) ["dx/dt = y", "dy/dt = -x"] ["x", "y"] := by
  intro aliases
  have hget : aliases.get? (String.ofList ['r']) = some ["x", "y"] := Table.get?_insert_self ..
  have hidentifiers : ∀ x ∈ ["x", "y"], isIdentifier x.toList = true := by decide
  obtain ⟨_, hsum, -, hvector, -⟩ := @expand_alias_components knownFunctions.contains aliases ['r']
    "dr/dt = ((y, 0)) + ((0, -x))".toList "((y, 0)) + ((0, -x))".toList ["x", "y"]
    (@EquatesDerivative.left ['r'] "dr/dt ".toList " ((y, 0)) + ((0, -x))".toList (by decide) (by decide +kernel)) hget
    hidentifiers (by decide +kernel) (by decide +kernel)
  obtain ⟨_, hswapped, -, hvector', -⟩ := @expand_alias_components knownFunctions.contains aliases ['r']
    "[[y, -x]] = d r / dt".toList "[[y, -x]]".toList ["x", "y"]
    (@EquatesDerivative.right ['r'] "[[y, -x]] ".toList " d r / dt".toList (by decide) (by decide +kernel)) hget
    hidentifiers (by decide +kernel) (by decide +kernel)
  obtain ⟨rfl, -⟩ := hvector (by decide +kernel)
  obtain ⟨rfl, hdefines⟩ := hvector' (by decide +kernel)
  have hscalars : List.zipWith componentEquation ["x", "y"] (scalars 2 (pieces "((y, 0)) + ((0, -x))".toList)) =
      ["dx/dt = y + 0", "dy/dt = 0 + -x"] := by decide +kernel
  have hscalars' : List.zipWith componentEquation ["x", "y"] (scalars 2 (pieces "[[y, -x]]".toList)) =
      ["dx/dt = y", "dy/dt = -x"] := by decide +kernel
  exact ⟨hscalars ▸ hsum, hscalars' ▸ hswapped, hscalars' ▸ hdefines⟩

/-- A vector with a sign before it is not taken for one, nor is a sum of vectors in brackets of two kinds: every
component is given to the derivative of the alias, where the last one remains. -/
theorem alias_derivative_loses_components :
    let aliases : Aliases := Table.empty.insert "r" ["x", "y"]
    ∀ expression ∈ ["-((y, -x))".toList, "((y, 0)) + [[0, -x]]".toList],
      EquatesDerivative ['r'] ("dr/dt = ".toList ++ expression) expression ∧ hasLiteral expression = true ∧
        (∀ l ∈ literals (pieces expression), l.dimension = 2) ∧
        ∃ found known, (expand aliases (String.ofList ("dr/dt = ".toList ++ expression))).result = .ok (found, known) ∧
          found.length = 2 ∧ ∀ scalar ∈ found, ∃ e,
            Equation.ofText knownFunctions.contains scalar = .ok e ∧ e.kind = .derivative ∧ e.name = "r" := by
  intro aliases expression hexpression
  have hequates : EquatesDerivative ['r'] ("dr/dt = ".toList ++ expression) (trim (' ' :: expression)) :=
    @EquatesDerivative.left ['r'] "dr/dt ".toList (' ' :: expression) (by decide) (by decide +kernel)
  have hruns : ∀ expression ∈ ["-((y, -x))".toList, "((y, 0)) + [[0, -x]]".toList],
      trim (' ' :: expression) = expression ∧ hasLiteral expression = true ∧
        (∀ l ∈ literals (pieces expression), l.dimension = 2) ∧
        (expand aliases (String.ofList ("dr/dt = ".toList ++ expression))).result.toOption.any (fun expanded =>
          expanded.1.length == 2 && expanded.1.all fun scalar =>
            (Equation.ofText knownFunctions.contains scalar).toOption.any fun e =>
              e.kind == .derivative && e.name == "r") = true := by
    decide +kernel
  obtain ⟨htrim, hliteral, hsame, hrun⟩ := hruns expression hexpression
  obtain ⟨⟨found, known⟩, hfound, hread⟩ := exists_ok_of_any hrun
  rw [Bool.and_eq_true, beq_iff_eq] at hread
  rw [htrim] at hequates
  refine ⟨hequates, hliteral, hsame, found, known, hfound, hread.1, fun scalar hscalar => ?_⟩
  obtain ⟨e, he, hdefined⟩ := exists_ok_of_any (List.all_eq_true.mp hread.2 scalar hscalar)
  rw [Bool.and_eq_true, beq_iff_eq, beq_iff_eq] at hdefined
  exact ⟨e, he, hdefined⟩

end

end OdeSystem.Vector
