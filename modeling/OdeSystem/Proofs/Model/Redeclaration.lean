import OdeSystem.Proofs.Model.Alias

/-!
Redeclarations. Reading a list of equations goes through the scalar equations that it stands for, one after the other,
and adds each to the definitions. To reject redeclarations is to stop at the first of them whose kind and name there has
been before; up to there the definitions are the same as without the rule, and whatever else ends the reading ends it
either way.
-/

namespace OdeSystem

/-- What an equation defines: a variable or a helper, and which. -/
def Equation.key (e : Equation) : EquationKind × String := (e.kind, e.name)

/-! ### What cannot be read is no redeclaration -/

theorem Equation.ofText_ne_redeclared {isFunction : String → Bool} {text name : String} :
    Equation.ofText isFunction text ≠ .error (.redeclared name) := by
  intro h
  unfold Equation.ofText at h
  dsimp only at h
  split at h
  · cases h
  · split at h
    · cases h
    · rename_i right _
      unfold Expression.ofText at h
      dsimp only at h
      split at h
      · rename_i hread
        split at hread <;> cases hread
        cases h
      · cases h

namespace Vector

theorem expandLiterals_ne_redeclared {equation name : String} {pieces : List Piece} :
    (expandLiterals equation pieces).result ≠ .error (.redeclared name) := by
  intro h
  unfold expandLiterals at h
  split at h
  · cases h
  · split at h <;> cases h

theorem expandAliasDerivative_ne_redeclared {aliases : Aliases} {equation derived name : String}
    {rights : List String} : (expandAliasDerivative aliases equation derived rights).result ≠ .error (.redeclared name) := by
  intro h
  unfold expandAliasDerivative at h
  dsimp only at h
  split at h <;> cases h

theorem expand_ne_redeclared {aliases : Aliases} {text name : String} :
    (expand aliases text).result ≠ .error (.redeclared name) := by
  intro h
  unfold expand at h
  split at h
  · rcases Logged.bind_eq_error.mp h with h | ⟨rights, -, h⟩
    · exact expandLiterals_ne_redeclared h
    · rcases Logged.bind_eq_error.mp h with h | ⟨scalars, -, h⟩
      · exact expandAliasDerivative_ne_redeclared h
      · cases h
  · dsimp only at h
    split at h
    · cases h
    · rcases Logged.bind_eq_error.mp h with h | ⟨scalars, -, h⟩
      · exact expandLiterals_ne_redeclared h
      · cases h

end Vector

namespace Definitions
variable {redeclaration : Redeclaration} {d d' : Definitions} {e : Equation} {es : List Equation}

/-! ### Adding equations -/

/-- Whether there is a definition of a kind and name. -/
def Has (d : Definitions) (key : EquationKind × String) : Prop := (d.ofKind key.1).contains key.2 = true

theorem not_has_empty (key : EquationKind × String) : ¬ empty.Has key := by
  obtain ⟨kind, name⟩ := key
  cases kind <;> intro h <;> cases h

theorem has_insert {key : EquationKind × String} : (d.insert e).Has key ↔ key = e.key ∨ d.Has key := by
  rw [Has, contains_ofKind_insert, Prod.ext_iff]
  rfl

theorem has_foldl_insert {key : EquationKind × String} :
    (es.foldl insert d).Has key ↔ key ∈ es.map Equation.key ∨ d.Has key := by
  induction es generalizing d with
  | nil => simp
  | cons e rest ih =>
    rw [List.foldl_cons, ih, has_insert, List.map_cons, List.mem_cons]
    tauto

theorem foldlM_add_overwrite : es.foldlM (add .overwrite) d = .ok (es.foldl insert d) := by
  induction es generalizing d with
  | nil => rfl
  | cons e rest ih => exact foldlM_cons_eq_ok.mpr ⟨d.insert e, rfl, ih⟩

/-- Equations of different kinds or names are added as they are without the rule, and only such ones. -/
theorem foldlM_add_reject_eq_ok :
    es.foldlM (add .reject) d = .ok d' ↔
      (∀ e ∈ es, ¬ d.Has e.key) ∧ (es.map Equation.key).Nodup ∧ d' = es.foldl insert d := by
  induction es generalizing d with
  | nil =>
    constructor
    · intro h
      cases h
      simp
    · rintro ⟨-, -, rfl⟩
      rfl
  | cons e rest ih =>
    rw [foldlM_cons_eq_ok, List.map_cons, List.nodup_cons, List.foldl_cons]
    constructor
    · rintro ⟨next, hadd, hrest⟩
      obtain ⟨hfresh, rfl⟩ := add_reject_eq_ok.mp hadd
      obtain ⟨hothers, honce, rfl⟩ := ih.mp hrest
      have hnew : ¬ d.Has e.key := by
        intro h
        rw [show d.Has e.key = ((d.ofKind e.kind).contains e.name = true) from rfl, hfresh] at h
        cases h
      refine ⟨fun other hother => ?_, ⟨fun hmem => ?_, honce⟩, rfl⟩
      · rcases List.mem_cons.mp hother with rfl | hother
        · exact hnew
        · exact fun h => hothers other hother (has_insert.mpr (.inr h))
      · obtain ⟨other, hother, hkey⟩ := List.mem_map.mp hmem
        exact hothers other hother (has_insert.mpr (.inl hkey))
    · rintro ⟨hothers, ⟨hnew, honce⟩, rfl⟩
      refine ⟨d.insert e, add_reject_eq_ok.mpr ⟨?_, rfl⟩, ih.mpr ⟨fun other hother => ?_, honce, rfl⟩⟩
      · exact Bool.eq_false_iff.mpr (hothers e (List.mem_cons_self ..))
      · intro h
        rcases has_insert.mp h with hkey | h
        · exact hnew (hkey ▸ List.mem_map_of_mem hother)
        · exact hothers other (List.mem_cons_of_mem _ hother) h

theorem foldlM_add_reject_empty_eq_ok :
    es.foldlM (add .reject) empty = .ok d' ↔ (es.map Equation.key).Nodup ∧ d' = es.foldl insert empty := by
  rw [foldlM_add_reject_eq_ok]
  exact and_iff_right fun e _ => not_has_empty e.key

theorem add_eq_error {error : ParseError} :
    d.add redeclaration e = .error error ↔ redeclaration = .reject ∧ d.Has e.key ∧ error = .redeclared e.name := by
  unfold add
  split
  · rename_i h
    obtain ⟨hreject, hhas⟩ := h
    constructor
    · intro herror
      cases herror
      exact ⟨hreject, hhas, rfl⟩
    · rintro ⟨-, -, rfl⟩
      rfl
  · rename_i h
    constructor
    · intro herror
      cases herror
    · rintro ⟨hreject, hhas, -⟩
      exact absurd ⟨hreject, hhas⟩ h

/-! ### Adding what has been read -/

/-- Adds an equation, if it could be read. -/
def addReading (redeclaration : Redeclaration) (d : Definitions) (reading : Except ParseError Equation) :
    Except ParseError Definitions :=
  reading.bind (d.add redeclaration)

theorem foldlM_addReading_eq_ok {readings : List (Except ParseError Equation)} :
    readings.foldlM (addReading redeclaration) d = .ok d' ↔
      ∃ es : List Equation, readings = es.map .ok ∧ es.foldlM (add redeclaration) d = .ok d' := by
  constructor
  · intro h
    induction readings generalizing d with
    | nil => exact ⟨[], rfl, h⟩
    | cons reading rest ih =>
      obtain ⟨next, hnext, hrest⟩ := foldlM_cons_eq_ok.mp h
      obtain ⟨e, rfl, hadd⟩ := bind_eq_ok.mp hnext
      obtain ⟨es, rfl, hes⟩ := ih hrest
      exact ⟨e :: es, rfl, foldlM_cons_eq_ok.mpr ⟨next, hadd, hes⟩⟩
  · rintro ⟨es, rfl, h⟩
    rw [List.foldlM_map]
    exact h

/-- What ends the adding is an equation that cannot be read, or one that is a redeclaration. -/
theorem foldlM_addReading_eq_error {readings : List (Except ParseError Equation)} {error : ParseError} :
    readings.foldlM (addReading redeclaration) d = .error error ↔
      ∃ (es : List Equation) (reading : Except ParseError Equation) (later : List (Except ParseError Equation))
        (middle : Definitions), readings = es.map .ok ++ reading :: later ∧
        es.foldlM (add redeclaration) d = .ok middle ∧
        (reading = .error error ∨
          ∃ e, reading = .ok e ∧ redeclaration = .reject ∧ middle.Has e.key ∧ error = .redeclared e.name) := by
  rw [foldlM_eq_error]
  constructor
  · rintro ⟨earlier, reading, later, middle, rfl, hearlier, hreading⟩
    obtain ⟨es, rfl, hes⟩ := foldlM_addReading_eq_ok.mp hearlier
    refine ⟨es, reading, later, middle, rfl, hes, (bind_eq_error.mp hreading).imp id ?_⟩
    rintro ⟨e, he, hadd⟩
    exact ⟨e, he, add_eq_error.mp hadd⟩
  · rintro ⟨es, reading, later, middle, rfl, hes, hreading⟩
    refine ⟨es.map .ok, reading, later, middle, rfl, foldlM_addReading_eq_ok.mpr ⟨es, rfl, hes⟩,
      bind_eq_error.mpr (hreading.imp id ?_)⟩
    rintro ⟨e, he, hadd⟩
    exact ⟨e, he, add_eq_error.mpr hadd⟩

end Definitions

namespace Model
variable {isFunction : String → Bool} {redeclaration : Redeclaration} {resolution : AliasResolution}
  {inputs : List WrittenEquation}

/-! ### The scalar equations of a list -/

/-- The aliases that are known before the first equation. -/
def knownAliases (resolution : AliasResolution) (texts : List String) : Vector.Aliases :=
  match resolution with
  | .declarationOrder => Table.empty
  | .twoPass => aliasesOf texts

/-- The scalar equations that a list of equations stands for, in order. An equation that cannot be expanded is the last:
nothing behind it is expanded. -/
def scalarTexts : Vector.Aliases → List String → List (Except ParseError String)
  | _, [] => []
  | aliases, text :: rest =>
    match (Vector.expand aliases text).result with
    | .error error => [.error error]
    | .ok (scalars, behind) => scalars.map .ok ++ scalarTexts behind rest

/-- The scalar equations that a list of equations stands for, each read by itself. -/
def readings (isFunction : String → Bool) (resolution : AliasResolution) (inputs : List WrittenEquation) :
    List (Except ParseError Equation) :=
  let texts := canonicalTexts inputs
  (scalarTexts (knownAliases resolution texts) texts).map fun scalar => scalar.bind (Equation.ofText isFunction)

theorem result_initialAliases_known (resolution : AliasResolution) (texts : List String) :
    (initialAliases resolution texts).result = .ok (knownAliases resolution texts) := by
  cases resolution with
  | declarationOrder => rfl
  | twoPass => exact result_initialAliases_twoPass texts

theorem foldlM_addText (scalars : List String) (d : Definitions) :
    scalars.foldlM (fun (d : Definitions) scalar => (d.addText isFunction redeclaration scalar).result) d =
      ((scalars.map Except.ok).map fun scalar => scalar.bind (Equation.ofText isFunction)).foldlM
        (Definitions.addReading redeclaration) d := by
  rw [List.map_map, List.foldlM_map]
  simp only [Definitions.result_addText, Definitions.addReading, Function.comp_apply, Except.bind]

/-- Adding equations one after the other adds the scalar equations that they stand for. -/
theorem map_fst_foldlM_addEquation (texts : List String) (d : Definitions) (aliases : Vector.Aliases) :
    (texts.foldlM (fun sofar text => (addEquation isFunction redeclaration sofar text).result)
        (d, aliases)).map Prod.fst =
      ((scalarTexts aliases texts).map fun scalar => scalar.bind (Equation.ofText isFunction)).foldlM
        (Definitions.addReading redeclaration) d := by
  induction texts generalizing d aliases with
  | nil => rfl
  | cons text rest ih =>
    rw [List.foldlM_cons, scalarTexts]
    cases hexpand : (Vector.expand aliases text).result with
    | error error =>
      have hadd : (addEquation isFunction redeclaration (d, aliases) text).result = .error error :=
        Logged.bind_eq_error.mpr (.inl hexpand)
      rw [hadd]
      rfl
    | ok expanded =>
      obtain ⟨scalars, behind⟩ := expanded
      have hadd : (addEquation isFunction redeclaration (d, aliases) text).result =
          (scalars.foldlM (fun (d : Definitions) scalar => (d.addText isFunction redeclaration scalar).result) d).map
            (·, behind) := by
        simp only [addEquation, Logged.result_bind, hexpand, Except.bind, Logged.result_foldlM]
        rfl
      rw [hadd, foldlM_addText, List.map_append, List.foldlM_append]
      cases ((scalars.map Except.ok).map fun scalar => scalar.bind (Equation.ofText isFunction)).foldlM
          (Definitions.addReading redeclaration) d with
      | error error => rfl
      | ok next => exact ih next behind

/-- Behind a list of equations stand the definitions of its scalar equations, and the aliases it declares. -/
theorem result_compile_readings (isFunction : String → Bool) (redeclaration : Redeclaration)
    (resolution : AliasResolution) (inputs : List WrittenEquation) :
    (compile isFunction ⟨redeclaration, resolution⟩ inputs).result =
      ((readings isFunction resolution inputs).foldlM (Definitions.addReading redeclaration) .empty).map
        (⟨inputs, ·, aliasesOf (canonicalTexts inputs)⟩) := by
  rw [result_compile (result_initialAliases_known _ _), readings, ← map_fst_foldlM_addEquation]
  cases hfold : (canonicalTexts inputs).foldlM
      (fun sofar text => (addEquation isFunction redeclaration sofar text).result)
      (.empty, knownAliases resolution (canonicalTexts inputs)) with
  | error error => rfl
  | ok last =>
    have haliases : last.2 = aliasesOf (canonicalTexts inputs) := by
      rw [aliases_foldlM_addEquation hfold]
      cases resolution with
      | declarationOrder => rfl
      | twoPass => exact Table.insertAll_ofList_self _
    rw [Except.map, Except.map, Except.map, haliases]

theorem readings_ne_redeclared {name : String} : .error (.redeclared name) ∉ readings isFunction resolution inputs := by
  intro h
  obtain ⟨scalar, hscalar, herror⟩ := List.mem_map.mp h
  rcases bind_eq_error.mp herror with rfl | ⟨text, -, hread⟩
  · generalize knownAliases resolution (canonicalTexts inputs) = aliases at hscalar
    generalize canonicalTexts inputs = texts at hscalar
    induction texts generalizing aliases with
    | nil => cases hscalar
    | cons text rest ih =>
      rw [scalarTexts] at hscalar
      split at hscalar
      · rename_i hexpand
        cases List.mem_singleton.mp hscalar
        exact Vector.expand_ne_redeclared hexpand
      · rcases List.mem_append.mp hscalar with hscalar | hscalar
        · obtain ⟨scalar, -, hok⟩ := List.mem_map.mp hscalar
          cases hok
        · exact ih _ hscalar
  · exact Equation.ofText_ne_redeclared hread

/-! ### Rejecting and overwriting -/

theorem compile_eq_ok {m : Model} :
    (compile isFunction ⟨redeclaration, resolution⟩ inputs).result = .ok m ↔
      ∃ (es : List Equation) (d : Definitions), readings isFunction resolution inputs = es.map .ok ∧
        es.foldlM (Definitions.add redeclaration) .empty = .ok d ∧
        ⟨inputs, d, aliasesOf (canonicalTexts inputs)⟩ = m := by
  rw [result_compile_readings]
  constructor
  · intro h
    obtain ⟨d, hd, rfl⟩ := exists_of_map_eq_ok h
    obtain ⟨es, hes, hadd⟩ := Definitions.foldlM_addReading_eq_ok.mp hd
    exact ⟨es, d, hes, hadd, rfl⟩
  · rintro ⟨es, d, hes, hadd, rfl⟩
    rw [Definitions.foldlM_addReading_eq_ok.mpr ⟨es, hes, hadd⟩]
    rfl

theorem compile_eq_error {error : ParseError} :
    (compile isFunction ⟨redeclaration, resolution⟩ inputs).result = .error error ↔
      ∃ (es : List Equation) (reading : Except ParseError Equation) (later : List (Except ParseError Equation))
        (middle : Definitions), readings isFunction resolution inputs = es.map .ok ++ reading :: later ∧
        es.foldlM (Definitions.add redeclaration) .empty = .ok middle ∧
        (reading = .error error ∨
          ∃ e, reading = .ok e ∧ redeclaration = .reject ∧ middle.Has e.key ∧ error = .redeclared e.name) := by
  rw [result_compile_readings, ← Definitions.foldlM_addReading_eq_error]
  constructor
  · exact map_eq_error
  · intro h
    rw [h]
    rfl

/-- To reject redeclarations only adds failures. What is accepted is what is accepted otherwise, with the same model,
if no two scalar equations have one kind and name; what is refused as a redeclaration is the first that has those of
one before it, all up to it having been read; and any other failure is there without the rule. -/
theorem compile_reject_adds_failures (isFunction : String → Bool) (resolution : AliasResolution)
    (inputs : List WrittenEquation) :
    (∀ m, (compile isFunction ⟨.reject, resolution⟩ inputs).result = .ok m ↔
      (compile isFunction ⟨.overwrite, resolution⟩ inputs).result = .ok m ∧
        ∃ es : List Equation, readings isFunction resolution inputs = es.map .ok ∧ (es.map Equation.key).Nodup) ∧
    (∀ name, (compile isFunction ⟨.reject, resolution⟩ inputs).result = .error (.redeclared name) ↔
      ∃ (earlier : List Equation) (e : Equation) (later : List (Except ParseError Equation)),
        readings isFunction resolution inputs = earlier.map .ok ++ .ok e :: later ∧
        (earlier.map Equation.key).Nodup ∧ e.key ∈ earlier.map Equation.key ∧ e.name = name) ∧
    ∀ error, (∀ name, error ≠ .redeclared name) →
      (compile isFunction ⟨.reject, resolution⟩ inputs).result = .error error →
      (compile isFunction ⟨.overwrite, resolution⟩ inputs).result = .error error := by
  refine ⟨fun m => ⟨fun h => ?_, fun ⟨h, es, hes, honce⟩ => ?_⟩, fun name => ⟨fun h => ?_, ?_⟩, fun error hother h => ?_⟩
  · obtain ⟨es, d, hes, hadd, rfl⟩ := compile_eq_ok.mp h
    obtain ⟨honce, rfl⟩ := Definitions.foldlM_add_reject_empty_eq_ok.mp hadd
    exact ⟨compile_eq_ok.mpr ⟨es, _, hes, Definitions.foldlM_add_overwrite, rfl⟩, es, hes, honce⟩
  · obtain ⟨es', d, hes', hadd, rfl⟩ := compile_eq_ok.mp h
    obtain rfl : es' = es := List.map_injective_iff.mpr (fun _ _ => Except.ok.inj) (hes'.symm.trans hes)
    obtain rfl := Except.ok.inj (Definitions.foldlM_add_overwrite.symm.trans hadd)
    exact compile_eq_ok.mpr ⟨es', _, hes, Definitions.foldlM_add_reject_empty_eq_ok.mpr ⟨honce, rfl⟩, rfl⟩
  · obtain ⟨earlier, reading, later, middle, hreadings, hadd, rfl | ⟨e, rfl, -, hhas, herror⟩⟩ := compile_eq_error.mp h
    · have hmem : .error (.redeclared name) ∈ readings isFunction resolution inputs := by
        rw [hreadings]
        exact List.mem_append_right _ (List.mem_cons_self ..)
      exact absurd hmem readings_ne_redeclared
    · obtain ⟨honce, rfl⟩ := Definitions.foldlM_add_reject_empty_eq_ok.mp hadd
      have hbefore : e.key ∈ earlier.map Equation.key :=
        (Definitions.has_foldl_insert.mp hhas).resolve_right (Definitions.not_has_empty _)
      exact ⟨earlier, e, later, hreadings, honce, hbefore, (ParseError.redeclared.inj herror).symm⟩
  · rintro ⟨earlier, e, later, hreadings, honce, hbefore, rfl⟩
    exact compile_eq_error.mpr ⟨earlier, .ok e, later, _, hreadings,
      Definitions.foldlM_add_reject_empty_eq_ok.mpr ⟨honce, rfl⟩,
      .inr ⟨e, rfl, rfl, Definitions.has_foldl_insert.mpr (.inl hbefore), rfl⟩⟩
  · obtain ⟨earlier, reading, later, middle, hreadings, hadd, hreading | ⟨e, -, -, -, rfl⟩⟩ := compile_eq_error.mp h
    · exact compile_eq_error.mpr
        ⟨earlier, reading, later, _, hreadings, Definitions.foldlM_add_overwrite, .inl hreading⟩
    · exact absurd rfl (hother e.name)

/-- A variable and a helper of one name are no redeclaration, and a derivative of an alias is one of a component that has
been defined. An equation that cannot be read is refused before a redeclaration behind it. -/
theorem compile_reject_adds_failures_component :
    (∃ m, (compile knownFunctions.contains ⟨.reject, .twoPass⟩
        (["dr/dt = ((y, -x))", "x = 2", "r = ((x, y))"].map .ofText)).result = .ok m ∧
      (compile knownFunctions.contains ⟨.overwrite, .twoPass⟩
        (["dr/dt = ((y, -x))", "x = 2", "r = ((x, y))"].map .ofText)).result = .ok m) ∧
    (∃ (earlier : List Equation) (e : Equation) (later : List (Except ParseError Equation)),
      readings knownFunctions.contains .declarationOrder
          (["r = ((x, y))", "dy/dt = 1", "dr/dt = ((y, -x))", "x + y"].map .ofText) =
        earlier.map .ok ++ .ok e :: later ∧
      (earlier.map Equation.key).Nodup ∧ e.key ∈ earlier.map Equation.key ∧ e.name = "y") ∧
    (compile knownFunctions.contains ⟨.reject, .declarationOrder⟩
      (["dx/dt = 1", "x + y", "dx/dt = 2"].map .ofText)).result = .error (.malformed "x + y") ∧
    (compile knownFunctions.contains ⟨.overwrite, .declarationOrder⟩
      (["dx/dt = 1", "x + y", "dx/dt = 2"].map .ofText)).result = .error (.malformed "x + y") := by
  refine ⟨?_, ?_, ?_⟩
  · have haccepted : (compile knownFunctions.contains ⟨.reject, .twoPass⟩
        (["dr/dt = ((y, -x))", "x = 2", "r = ((x, y))"].map .ofText)).result.toOption.any (fun _ => true) = true := by
      decide +kernel
    obtain ⟨m, hm, -⟩ := exists_ok_of_any haccepted
    exact ⟨m, hm, ((compile_reject_adds_failures _ _ _).1 m).mp hm |>.1⟩
  · have hrefused : (match (compile knownFunctions.contains ⟨.reject, .declarationOrder⟩
        (["r = ((x, y))", "dy/dt = 1", "dr/dt = ((y, -x))", "x + y"].map .ofText)).result with
        | .error (.redeclared name) => name == "y"
        | _ => false) = true := by
      decide +kernel
    split at hrefused
    · rename_i name herror
      rw [beq_iff_eq.mp hrefused] at herror
      exact ((compile_reject_adds_failures _ _ _).2.1 "y").mp herror
    · cases hrefused
  · have hrefused : (match (compile knownFunctions.contains ⟨.reject, .declarationOrder⟩
        (["dx/dt = 1", "x + y", "dx/dt = 2"].map .ofText)).result with
        | .error (.malformed text) => text == "x + y"
        | _ => false) = true := by
      decide +kernel
    split at hrefused
    · rename_i text herror
      rw [beq_iff_eq.mp hrefused] at herror
      exact ⟨herror, (compile_reject_adds_failures _ _ _).2.2 _ (fun _ h => by cases h) herror⟩
    · cases hrefused

end Model

end OdeSystem
