import OdeSystem.Proofs.Model.Order

/-!
Where an alias is known. The equations of a list are added one after the other, and each sees the aliases declared
before it on top of those known in the beginning. Only the derivative of an alias looks at them, and only for that
alias, so two beginnings that agree there cannot be told apart.

In two passes everything declared is known in the beginning, but the declarations are recorded once more on the way.
A derivative that stands between two declarations of its alias therefore sees the earlier one.
-/

namespace OdeSystem.Model

variable {isFunction : String → Bool} {redeclaration : Redeclaration}

/-- The aliases that equations declare; of several declarations of one the last counts. -/
def aliasesOf (texts : List String) : Vector.Aliases := Table.ofList (texts.filterMap Vector.declared?)

/-- Derivatives of aliases stand behind a declaration of the alias, unless there is none at all. -/
def DeclaredFirst (texts : List String) : Prop :=
  ∀ i, ∀ h : i < texts.length, ∀ name ∈ Vector.derivedAlias? texts[i],
    (aliasesOf texts).contains name → (aliasesOf (texts.take i)).contains name

instance (texts : List String) : Decidable (DeclaredFirst texts) :=
  inferInstanceAs (Decidable (∀ i, ∀ _ : i < texts.length, _))

/-! ### Adding a list of equations -/

/-- Behind a list of equations the aliases are those known before it, with all that it declares. -/
theorem aliases_foldlM_addEquation {texts : List String} {sofar last : Definitions × Vector.Aliases}
    (h : texts.foldlM (fun sofar text => (addEquation isFunction redeclaration sofar text).result) sofar = .ok last) :
    last.2 = sofar.2.insertAll (texts.filterMap Vector.declared?) := by
  induction texts generalizing sofar with
  | nil =>
    cases h
    rfl
  | cons text rest ih =>
    obtain ⟨next, hstep, hrest⟩ := foldlM_cons_eq_ok.mp h
    rw [result_addEquation] at hstep
    obtain ⟨d, -, rfl⟩ := exists_of_map_eq_ok hstep
    rw [ih hrest, insertAll_recorded]

theorem addDefinitions_congr {aliases aliases' : Vector.Aliases} {text : String}
    (h : ∀ name ∈ Vector.derivedAlias? text, aliases.get? name = aliases'.get? name) (d : Definitions) :
    addDefinitions isFunction redeclaration aliases d text =
      addDefinitions isFunction redeclaration aliases' d text := by
  have hscalars := Vector.map_fst_expand_congr h
  simp only [addDefinitions, addEquation, Logged.result_bind, Logged.result_foldlM]
  cases hexpand : (Vector.expand aliases text).result with
  | error e =>
    rw [hexpand] at hscalars
    rw [map_eq_error hscalars.symm]
  | ok expanded =>
    rw [hexpand] at hscalars
    obtain ⟨expanded', hexpand', hsame⟩ := exists_of_map_eq_ok hscalars.symm
    simp only [hexpand', Except.bind, hsame]
    cases expanded.1.foldlM (fun d scalar => (d.addText isFunction redeclaration scalar).result) d <;> rfl

/-- Two beginnings give the same definitions if at each derivative of an alias they agree on that alias, or the
equations before have declared it. -/
theorem map_fst_foldlM_addEquation_congr {texts : List String} {aliases aliases' : Vector.Aliases}
    (agree : ∀ i, ∀ h : i < texts.length, ∀ name ∈ Vector.derivedAlias? texts[i],
      (aliases.insertAll ((texts.take i).filterMap Vector.declared?)).get? name =
        (aliases'.insertAll ((texts.take i).filterMap Vector.declared?)).get? name) (d : Definitions) :
    (texts.foldlM (fun sofar text => (addEquation isFunction redeclaration sofar text).result)
        (d, aliases)).map Prod.fst =
      (texts.foldlM (fun sofar text => (addEquation isFunction redeclaration sofar text).result)
        (d, aliases')).map Prod.fst := by
  -- The beginnings of the rest are those of the list with what the first equation declares.
  induction texts generalizing d aliases aliases' with
  | nil => rfl
  | cons text rest ih =>
    have hfirst : addDefinitions isFunction redeclaration aliases d text =
        addDefinitions isFunction redeclaration aliases' d text :=
      addDefinitions_congr (agree 0 (Nat.zero_lt_succ _)) d
    rw [List.foldlM_cons, List.foldlM_cons, result_addEquation, result_addEquation, hfirst]
    cases addDefinitions isFunction redeclaration aliases' d text with
    | error e => rfl
    | ok next =>
      refine ih (fun i hi name hname => ?_) next
      rw [insertAll_recorded, insertAll_recorded]
      exact agree (i + 1) (Nat.succ_lt_succ hi) name hname

/-! ### The two passes -/

theorem result_initialAliases_twoPass (texts : List String) :
    (initialAliases .twoPass texts).result = .ok (aliasesOf texts) :=
  result_initialAliases texts

theorem get?_behind (aliases : Vector.Aliases) (texts : List String) (name : String) :
    (aliases.insertAll (texts.filterMap Vector.declared?)).get? name =
      ((aliasesOf texts).get? name).or (aliases.get? name) :=
  Table.get?_insertAll ..

/-- Where the derivatives of aliases stand behind declarations, it does not matter whether the aliases are known
from the beginning. -/
theorem compile_declarationOrder_eq_twoPass {inputs : List WrittenEquation}
    (first : DeclaredFirst (canonicalTexts inputs)) :
    (compile isFunction ⟨redeclaration, .declarationOrder⟩ inputs).result =
      (compile isFunction ⟨redeclaration, .twoPass⟩ inputs).result := by
  have hnone : (initialAliases .declarationOrder (canonicalTexts inputs)).result = .ok Table.empty := rfl
  have hall := result_initialAliases_twoPass (canonicalTexts inputs)
  rw [result_compile hnone, result_compile hall]
  generalize canonicalTexts inputs = texts at first
  have agree : ∀ i, ∀ h : i < texts.length, ∀ name ∈ Vector.derivedAlias? texts[i],
      (Table.empty.insertAll ((texts.take i).filterMap Vector.declared?)).get? name =
        ((aliasesOf texts).insertAll ((texts.take i).filterMap Vector.declared?)).get? name := by
    intro i hi name hname
    rw [get?_behind, get?_behind, Table.get?_empty]
    cases hsome : (aliasesOf texts).get? name with
    | none => rfl
    | some components =>
      obtain ⟨earlier, hearlier⟩ := Option.isSome_iff_exists.mp
        (first i hi name hname (Option.isSome_iff_exists.mpr ⟨components, hsome⟩))
      rw [hearlier, Option.some_or, Option.some_or]
  have hdefinitions : (texts.foldlM (fun sofar text => (addEquation isFunction redeclaration sofar text).result)
        (.empty, Table.empty)).map Prod.fst =
      (texts.foldlM (fun sofar text => (addEquation isFunction redeclaration sofar text).result)
        (.empty, aliasesOf texts)).map Prod.fst :=
    map_fst_foldlM_addEquation_congr agree .empty
  cases hfold : texts.foldlM (fun sofar text => (addEquation isFunction redeclaration sofar text).result)
      (.empty, Table.empty) with
  | error e =>
    rw [hfold] at hdefinitions
    rw [map_eq_error hdefinitions.symm]
  | ok last =>
    rw [hfold] at hdefinitions
    obtain ⟨last', hfold', hsame⟩ := exists_of_map_eq_ok hdefinitions.symm
    have haliases : last'.2 = last.2 := by
      rw [aliases_foldlM_addEquation hfold, aliases_foldlM_addEquation hfold']
      exact Table.insertAll_ofList_self _
    rw [hfold', Except.map, Except.map, hsame, haliases]

/-- An alias that is declared again between two of its derivatives. -/
theorem compile_declarationOrder_eq_twoPass_redeclared :
    ∃ m, (compile knownFunctions.contains ⟨.reject, .declarationOrder⟩ (["r = ((x, y))", "dr/dt = ((y, -x))",
        "r = ((u, v))", "dr/dt = ((v, -u))"].map .ofText)).result = .ok m ∧
      (compile knownFunctions.contains ⟨.reject, .twoPass⟩ (["r = ((x, y))", "dr/dt = ((y, -x))",
        "r = ((u, v))", "dr/dt = ((v, -u))"].map .ofText)).result = .ok m ∧
      m.variableNames = ["u", "v", "x", "y"] ∧ m.aliases.get? "r" = some ["u", "v"] := by
  have hcompiled : (compile knownFunctions.contains ⟨.reject, .declarationOrder⟩ (["r = ((x, y))",
      "dr/dt = ((y, -x))", "r = ((u, v))", "dr/dt = ((v, -u))"].map .ofText)).result.toOption.any (fun m =>
        m.variableNames == ["u", "v", "x", "y"] && m.aliases.get? "r" == some ["u", "v"]) = true := by
    decide +kernel
  obtain ⟨m, hm, hfound⟩ := exists_ok_of_any hcompiled
  rw [Bool.and_eq_true, beq_iff_eq, beq_iff_eq] at hfound
  exact ⟨m, hm, (compile_declarationOrder_eq_twoPass (by decide +kernel)).symm.trans hm, hfound⟩

/-- In two passes, the derivative of an alias is taken by the components of the last declaration before it, and by
those of the last declaration of all only if there is none before it. The aliases of the model are those of the last
declarations. -/
theorem compile_twoPass_expand {inputs : List WrittenEquation} {m : Model} {before after : List String}
    {text : String} {name vector : List Char}
    (h : (compile isFunction ⟨redeclaration, .twoPass⟩ inputs).result = .ok m)
    (htexts : canonicalTexts inputs = before ++ text :: after)
    (hderivative : Vector.aliasDerivative? text.toList = some (name, vector))
    (hdeclared : (aliasesOf (canonicalTexts inputs)).contains (String.ofList name)) :
    m.aliases = aliasesOf (canonicalTexts inputs) ∧
    ∃ sofar components rights,
      before.foldlM (fun sofar text => (addEquation isFunction redeclaration sofar text).result)
        (.empty, aliasesOf (canonicalTexts inputs)) = .ok sofar ∧
      ((aliasesOf before).get? (String.ofList name)).or (m.aliases.get? (String.ofList name)) = some components ∧
      (Vector.expandLiterals (String.ofList vector) (Vector.pieces vector)).result = .ok rights ∧
      components.length = rights.length ∧
      (Vector.expand sofar.2 text).result =
        .ok (List.zipWith Vector.componentEquation components rights, sofar.2) := by
  rw [result_compile (result_initialAliases_twoPass _)] at h
  -- What is declared has been known from the beginning, so in the end nothing has changed.
  obtain ⟨last, hfold, rfl⟩ := exists_of_map_eq_ok h
  have haliases : last.2 = aliasesOf (canonicalTexts inputs) :=
    (aliases_foldlM_addEquation hfold).trans (Table.insertAll_ofList_self _)
  refine ⟨haliases, ?_⟩
  rw [htexts] at hfold
  obtain ⟨sofar, hbefore, hrest⟩ := foldlM_append_eq_ok.mp hfold
  obtain ⟨next, hstep, -⟩ := foldlM_cons_eq_ok.mp hrest
  obtain ⟨scalars, hexpand, -⟩ := addEquation_eq_ok.mp hstep
  have hknown : sofar.2.get? (String.ofList name) =
      ((aliasesOf before).get? (String.ofList name)).or (last.2.get? (String.ofList name)) := by
    rw [aliases_foldlM_addEquation hbefore, get?_behind, haliases, htexts]
  -- The alias is known here in any case, from before or from the beginning.
  obtain ⟨components, hcomponents⟩ : ∃ components, sofar.2.get? (String.ofList name) = some components := by
    obtain ⟨final, hfinal⟩ := Option.isSome_iff_exists.mp hdeclared
    rw [hknown, haliases, hfinal]
    cases (aliasesOf before).get? (String.ofList name) with
    | none => exact ⟨final, rfl⟩
    | some earlier => exact ⟨earlier, rfl⟩
  obtain ⟨rights, hrights, hlength, hexpanded⟩ := Vector.expand_derivative hderivative hcomponents hexpand
  rw [← htexts] at hbefore
  exact ⟨sofar, components, rights, hbefore, hknown ▸ hcomponents, hrights, hlength, hexpanded ▸ hexpand⟩

/-- Between two declarations the earlier one counts. -/
theorem compile_twoPass_expand_between :
    ∃ m known, (compile knownFunctions.contains ⟨.overwrite, .twoPass⟩
        (["r = ((x, y))", "dr/dt = ((1, 2))", "r = ((u, v))"].map .ofText)).result = .ok m ∧
      m.aliases.get? "r" = some ["u", "v"] ∧
      (Vector.expand known "dr/dt = ((1, 2))").result = .ok (["dx/dt = 1", "dy/dt = 2"], known) := by
  have hcompiled : (compile knownFunctions.contains ⟨.overwrite, .twoPass⟩
      (["r = ((x, y))", "dr/dt = ((1, 2))", "r = ((u, v))"].map .ofText)).result.toOption.any
        (fun m => m.aliases.get? "r" == some ["u", "v"]) = true := by
    decide +kernel
  obtain ⟨m, hm, hfinal⟩ := exists_ok_of_any hcompiled
  rw [beq_iff_eq] at hfinal
  have htexts : canonicalTexts (["r = ((x, y))", "dr/dt = ((1, 2))", "r = ((u, v))"].map .ofText) =
      ["r = ((x, y))"] ++ "dr/dt = ((1, 2))" :: ["r = ((u, v))"] := by decide +kernel
  have hderivative : Vector.aliasDerivative? "dr/dt = ((1, 2))".toList = some (['r'], "((1, 2))".toList) := by
    decide +kernel
  obtain ⟨-, sofar, components, rights, -, hcomponents, hrights, -, hexpand⟩ :=
    compile_twoPass_expand hm htexts hderivative (by decide +kernel)
  have hearlier : (aliasesOf ["r = ((x, y))"]).get? (String.ofList ['r']) = some ["x", "y"] := by decide +kernel
  rw [hearlier, Option.some_or, Option.some.injEq] at hcomponents
  have hfound : (Vector.expandLiterals (String.ofList "((1, 2))".toList)
      (Vector.pieces "((1, 2))".toList)).result.toOption = some ["1", "2"] := by decide +kernel
  rw [hrights] at hfound
  obtain rfl : rights = ["1", "2"] := Option.some.inj hfound
  subst hcomponents
  exact ⟨m, sofar.2, hm, hfinal, hexpand⟩

/-- The derivative between two declarations is that of other components than the model has under the alias. -/
theorem derivatives_between_declarations :
    ∃ m, (compile knownFunctions.contains ⟨.overwrite, .twoPass⟩
        (["r = ((x, y))", "dr/dt = ((1, 2))", "r = ((u, v))"].map .ofText)).result = .ok m ∧
      m.aliases.get? "r" = some ["u", "v"] ∧ m.variableNames = ["x", "y"] := by
  have hcompiled : (compile knownFunctions.contains ⟨.overwrite, .twoPass⟩
      (["r = ((x, y))", "dr/dt = ((1, 2))", "r = ((u, v))"].map .ofText)).result.toOption.any
        (fun m => m.aliases.get? "r" == some ["u", "v"] && m.variableNames == ["x", "y"]) = true := by
    decide +kernel
  obtain ⟨m, hm, hfound⟩ := exists_ok_of_any hcompiled
  rw [Bool.and_eq_true, beq_iff_eq, beq_iff_eq] at hfound
  exact ⟨m, hm, hfound⟩

end OdeSystem.Model
