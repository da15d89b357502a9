import OdeSystem.Model.Evaluation
import OdeSystem.Proofs.Model.Reading
import OdeSystem.Proofs.Vector.Expansion

/-!
The order of the equations of a model. When every alias is known before the first equation, each equation stands
for the same scalar equations wherever it is, and definitions of different names can be added in any order. What
is added twice is refused either way.
-/

namespace OdeSystem

namespace Definitions

theorem add_reject_eq_ok {d d' : Definitions} {e : Equation} :
    d.add .reject e = .ok d' ↔ (d.ofKind e.kind).contains e.name = false ∧ d' = d.insert e := by
  unfold add
  split
  · rename_i h
    simp [h.2]
  · rename_i h
    have hfresh : (d.ofKind e.kind).contains e.name = false := by simpa using h
    simp [hfresh, eq_comm]

theorem contains_ofKind_insert (d : Definitions) (e : Equation) (kind : EquationKind) (name : String) :
    ((d.insert e).ofKind kind).contains name = true ↔
      (kind = e.kind ∧ name = e.name) ∨ (d.ofKind kind).contains name = true := by
  rw [ofKind_insert]
  split
  · rename_i hkind
    simp only [Table.contains, Table.get?_insert, hkind, true_and]
    split <;> simp [*]
  · rename_i hkind
    simp [hkind]

theorem insert_comm (d : Definitions) {e e' : Equation} (h : ¬ (e.kind = e'.kind ∧ e.name = e'.name)) :
    (d.insert e).insert e' = (d.insert e').insert e := by
  unfold insert
  cases hkind : e.kind <;> cases hkind' : e'.kind <;> simp only [hkind, hkind', true_and] at h ⊢
  · rw [Table.insert_comm _ h]
  · rw [Table.insert_comm _ h]

/-- Equations that can be added one after the other can be added the other way round. -/
theorem add_swaps : Swaps (add .reject) := by
  intro d d₁ d₂ e e' h h'
  obtain ⟨hfresh, rfl⟩ := add_reject_eq_ok.mp h
  obtain ⟨hfresh', rfl⟩ := add_reject_eq_ok.mp h'
  rw [← Bool.not_eq_true, contains_ofKind_insert, not_or, Bool.not_eq_true] at hfresh'
  obtain ⟨hdifferent, hfresh'⟩ := hfresh'
  refine ⟨d.insert e', add_reject_eq_ok.mpr ⟨hfresh', rfl⟩, add_reject_eq_ok.mpr ⟨?_, ?_⟩⟩
  · rw [← Bool.not_eq_true, contains_ofKind_insert, not_or, Bool.not_eq_true]
    exact ⟨fun heq => hdifferent ⟨heq.1.symm, heq.2.symm⟩, hfresh⟩
  · exact insert_comm d fun heq => hdifferent ⟨heq.1.symm, heq.2.symm⟩

/-- Adding what several texts define reads all of them and adds the equations. -/
theorem foldlM_addText_eq_ok {isFunction : String → Bool} {redeclaration : Redeclaration} {d d' : Definitions}
    {scalars : List String} :
    scalars.foldlM (fun d scalar => (d.addText isFunction redeclaration scalar).result) d = .ok d' ↔
      ∃ es, scalars.mapM (Equation.ofText isFunction) = .ok es ∧ es.foldlM (add redeclaration) d = .ok d' := by
  induction scalars generalizing d with
  | nil =>
    refine ⟨fun h => ⟨[], rfl, h⟩, fun ⟨es, hes, h⟩ => ?_⟩
    cases hes
    exact h
  | cons scalar rest ih =>
    rw [foldlM_cons_eq_ok, result_addText, List.mapM_cons]
    constructor
    · rintro ⟨next, hnext, hrest⟩
      obtain ⟨e, hread, hadd⟩ := bind_eq_ok.mp hnext
      obtain ⟨es, hes, hes'⟩ := ih.mp hrest
      exact ⟨e :: es, bind_eq_ok.mpr ⟨e, hread, bind_eq_ok.mpr ⟨es, hes, rfl⟩⟩,
        foldlM_cons_eq_ok.mpr ⟨next, hadd, hes'⟩⟩
    · rintro ⟨es, hes, hes'⟩
      obtain ⟨e, hread, hes⟩ := bind_eq_ok.mp hes
      obtain ⟨tail, htail, hes⟩ := bind_eq_ok.mp hes
      cases hes
      obtain ⟨next, hadd, hrest⟩ := foldlM_cons_eq_ok.mp hes'
      exact ⟨next, bind_eq_ok.mpr ⟨e, hread, hadd⟩, ih.mpr ⟨tail, htail, hrest⟩⟩

end Definitions

namespace Model
variable {isFunction : String → Bool}

/-- The aliases that equations declare, in the order of the declarations. -/
def declaredAliases (inputs : List WrittenEquation) : List (String × List String) :=
  (canonicalTexts inputs).filterMap Vector.declared?

/-- The scalar equations that an equation stands for, read. -/
def readText (isFunction : String → Bool) (aliases : Vector.Aliases) (text : String) :
    Except ParseError (List Equation) :=
  (Vector.expand aliases text).result.bind fun expanded => expanded.1.mapM (Equation.ofText isFunction)

/-- Adds what an equation stands for, the aliases left aside. -/
def addDefinitions (isFunction : String → Bool) (redeclaration : Redeclaration) (aliases : Vector.Aliases)
    (d : Definitions) (text : String) : Except ParseError Definitions :=
  (addEquation isFunction redeclaration (d, aliases) text).result.map Prod.fst

theorem addDefinitions_eq_ok {redeclaration : Redeclaration} {aliases : Vector.Aliases} {d d' : Definitions}
    {text : String} :
    addDefinitions isFunction redeclaration aliases d text = .ok d' ↔
      ∃ es, readText isFunction aliases text = .ok es ∧ es.foldlM (Definitions.add redeclaration) d = .ok d' := by
  constructor
  · intro h
    obtain ⟨next, hnext, rfl⟩ := exists_of_map_eq_ok h
    obtain ⟨scalars, hexpand, hfold⟩ := addEquation_eq_ok.mp hnext
    obtain ⟨es, hread, hadd⟩ := Definitions.foldlM_addText_eq_ok.mp hfold
    exact ⟨es, bind_eq_ok.mpr ⟨_, hexpand, hread⟩, hadd⟩
  · rintro ⟨es, hread, hadd⟩
    obtain ⟨expanded, hexpand, hread⟩ := bind_eq_ok.mp hread
    have hnext : (addEquation isFunction redeclaration (d, aliases) text).result = .ok (d', expanded.2) :=
      addEquation_eq_ok.mpr ⟨expanded.1, hexpand, Definitions.foldlM_addText_eq_ok.mpr ⟨es, hread, hadd⟩⟩
    rw [addDefinitions, hnext]
    rfl

/-- Equations whose aliases are known swap, since what they stand for does. -/
theorem addDefinitions_swaps (aliases : Vector.Aliases) :
    Swaps (addDefinitions isFunction .reject aliases) := by
  intro d d₁ d₂ text text' h h'
  obtain ⟨es, hread, hadd⟩ := addDefinitions_eq_ok.mp h
  obtain ⟨es', hread', hadd'⟩ := addDefinitions_eq_ok.mp h'
  have hboth : (es ++ es').foldlM (Definitions.add .reject) d = .ok d₂ :=
    foldlM_append_eq_ok.mpr ⟨d₁, hadd, hadd'⟩
  obtain ⟨d₁', hadd₁, hadd₂⟩ :=
    foldlM_append_eq_ok.mp (foldlM_perm Definitions.add_swaps List.perm_append_comm hboth)
  exact ⟨d₁', addDefinitions_eq_ok.mpr ⟨es', hread', hadd₁⟩, addDefinitions_eq_ok.mpr ⟨es, hread, hadd₂⟩⟩

/-- Adding an equation adds what it stands for, and records the alias it declares. -/
theorem result_addEquation (redeclaration : Redeclaration) (aliases : Vector.Aliases) (text : String)
    (d : Definitions) :
    (addEquation isFunction redeclaration (d, aliases) text).result =
      (addDefinitions isFunction redeclaration aliases d text).map
        (·, Vector.recorded aliases (Vector.declared? text)) := by
  unfold addDefinitions
  cases hresult : (addEquation isFunction redeclaration (d, aliases) text).result with
  | error e => rfl
  | ok next =>
    obtain ⟨scalars, hexpand, -⟩ := addEquation_eq_ok.mp hresult
    rw [Except.map, Except.map, ← Vector.aliases_expand hexpand]

theorem foldlM_addEquation {redeclaration : Redeclaration} {aliases : Vector.Aliases} {texts : List String}
    (known : ∀ text ∈ texts, Vector.recorded aliases (Vector.declared? text) = aliases) (d : Definitions) :
    texts.foldlM (fun sofar text => (addEquation isFunction redeclaration sofar text).result) (d, aliases) =
      (texts.foldlM (addDefinitions isFunction redeclaration aliases) d).map (·, aliases) := by
  induction texts generalizing d with
  | nil => rfl
  | cons text rest ih =>
    rw [List.foldlM_cons, List.foldlM_cons, result_addEquation, known text (List.mem_cons_self ..)]
    cases addDefinitions isFunction redeclaration aliases d text with
    | error e => rfl
    | ok next => exact ih (fun text htext => known text (List.mem_cons_of_mem _ htext)) next

/-- Recording what a text declares, and then what further texts do, is putting in all their declarations. -/
theorem insertAll_recorded (aliases : Vector.Aliases) (text : String) (rest : List String) :
    (Vector.recorded aliases (Vector.declared? text)).insertAll (rest.filterMap Vector.declared?) =
      aliases.insertAll ((text :: rest).filterMap Vector.declared?) := by
  cases hdeclared : Vector.declared? text with
  | none => rw [List.filterMap_cons_none hdeclared, Vector.recorded]
  | some declaration => rw [List.filterMap_cons_some hdeclared, Table.insertAll_cons, Vector.recorded]

theorem foldlM_recorded (texts : List String) (aliases : Vector.Aliases) :
    texts.foldlM (fun aliases text => Except.ok (ε := ParseError)
      (Vector.recorded aliases (Vector.declared? text))) aliases =
      .ok (aliases.insertAll (texts.filterMap Vector.declared?)) := by
  induction texts generalizing aliases with
  | nil => rfl
  | cons text rest ih =>
    rw [List.foldlM_cons, ← insertAll_recorded]
    exact ih _

/-- The aliases known before the first equation are those of all declarations. -/
theorem result_initialAliases (texts : List String) :
    (initialAliases .twoPass texts).result = .ok (Table.ofList (texts.filterMap Vector.declared?)) := by
  rw [initialAliases, Logged.result_foldlM]
  simp only [Logged.result_bind, Vector.result_register, Except.bind, Logged.result_pure]
  exact foldlM_recorded texts Table.empty

/-- Reading a list of equations is adding them one after the other to the aliases known in the beginning. -/
theorem result_compile {options : Options} {inputs : List WrittenEquation} {aliases : Vector.Aliases}
    (h : (initialAliases options.aliasResolution (canonicalTexts inputs)).result = .ok aliases) :
    (compile isFunction options inputs).result =
      ((canonicalTexts inputs).foldlM
        (fun sofar text => (addEquation isFunction options.redeclaration sofar text).result) (.empty, aliases)).map
          fun last => ⟨inputs, last.1, last.2⟩ := by
  simp only [compile, Logged.result_bind, h, Logged.result_foldlM, Logged.result_report, Except.bind]
  cases (canonicalTexts inputs).foldlM
    (fun sofar text => (addEquation isFunction options.redeclaration sofar text).result) (.empty, aliases) <;> rfl

/-- With every alias declared once and known from the beginning, reading a list of equations is adding the
definitions of each. -/
theorem compile_eq {redeclaration : Redeclaration} {inputs : List WrittenEquation}
    (once : ((declaredAliases inputs).map Prod.fst).Nodup) :
    (compile isFunction ⟨redeclaration, .twoPass⟩ inputs).result =
      ((canonicalTexts inputs).foldlM
        (addDefinitions isFunction redeclaration (Table.ofList (declaredAliases inputs))) .empty).map
          (⟨inputs, ·, Table.ofList (declaredAliases inputs)⟩) := by
  have known : ∀ text ∈ canonicalTexts inputs, Vector.recorded (Table.ofList (declaredAliases inputs))
      (Vector.declared? text) = Table.ofList (declaredAliases inputs) := fun text htext =>
    Vector.recorded_eq_self fun name components hdeclared =>
      Table.get?_insertAll_of_mem once (List.mem_filterMap.mpr ⟨text, htext, hdeclared⟩)
  rw [result_compile (result_initialAliases (canonicalTexts inputs))]
  rw [show (canonicalTexts inputs).filterMap Vector.declared? = declaredAliases inputs from rfl]
  rw [foldlM_addEquation known]
  cases (canonicalTexts inputs).foldlM (addDefinitions isFunction redeclaration
    (Table.ofList (declaredAliases inputs))) .empty <;> rfl

theorem canonicalTexts_perm {inputs inputs' : List WrittenEquation} (perm : inputs.Perm inputs') :
    (canonicalTexts inputs).Perm (canonicalTexts inputs') :=
  (perm.map _).filterMap _

theorem compile_eq_ok_of_perm {inputs inputs' : List WrittenEquation} (perm : inputs.Perm inputs')
    (once : ((declaredAliases inputs).map Prod.fst).Nodup) {m : Model}
    (h : (compile isFunction ⟨.reject, .twoPass⟩ inputs).result = .ok m) :
    (compile isFunction ⟨.reject, .twoPass⟩ inputs').result = .ok ⟨inputs', m.definitions, m.aliases⟩ := by
  have hdeclared : (declaredAliases inputs).Perm (declaredAliases inputs') :=
    (canonicalTexts_perm perm).filterMap _
  rw [compile_eq once] at h
  rw [compile_eq ((hdeclared.map _).nodup_iff.mp once)]
  cases hfold : (canonicalTexts inputs).foldlM
      (addDefinitions isFunction .reject (Table.ofList (declaredAliases inputs))) .empty with
  | error e => simp [hfold, Except.map] at h
  | ok d =>
    rw [hfold] at h
    cases h
    have hsame : Table.ofList (declaredAliases inputs') = Table.ofList (declaredAliases inputs) :=
      (Table.insertAll_perm hdeclared once).symm
    rw [hsame, foldlM_perm (addDefinitions_swaps _) (canonicalTexts_perm perm) hfold]
    rfl

/-- The order of the equations does not matter: when every alias is declared once and known from the beginning,
and nothing may be redeclared, two orders either are both refused or give the same definitions and aliases, and
so the same values. -/
theorem compile_perm {inputs inputs' : List WrittenEquation} (perm : inputs.Perm inputs')
    (once : ((declaredAliases inputs).map Prod.fst).Nodup) :
    ((∃ e, (compile isFunction ⟨.reject, .twoPass⟩ inputs).result = .error e) ∧
      ∃ e, (compile isFunction ⟨.reject, .twoPass⟩ inputs').result = .error e) ∨
    ∃ m m', (compile isFunction ⟨.reject, .twoPass⟩ inputs).result = .ok m ∧
      (compile isFunction ⟨.reject, .twoPass⟩ inputs').result = .ok m' ∧
      m.derivatives = m'.derivatives ∧ m.helpers = m'.helpers ∧ m.aliases = m'.aliases ∧
      ∀ state time, (m.helperValues state time).result = (m'.helperValues state time).result ∧
        (m.derivativeValues state time).result = (m'.derivativeValues state time).result ∧
        (m.allValues state time).result = (m'.allValues state time).result := by
  cases h : (compile isFunction ⟨.reject, .twoPass⟩ inputs).result with
  | ok m =>
    refine .inr ⟨m, _, rfl, compile_eq_ok_of_perm perm once h, rfl, rfl, rfl, fun state time => ⟨rfl, rfl, rfl⟩⟩
  | error e =>
    -- The other order cannot give a model, or going back from it would give one here.
    refine .inl ⟨⟨e, rfl⟩, ?_⟩
    cases h' : (compile isFunction ⟨.reject, .twoPass⟩ inputs').result with
    | error e' => exact ⟨e', rfl⟩
    | ok m' =>
      have hdeclared : (declaredAliases inputs).Perm (declaredAliases inputs') :=
        (canonicalTexts_perm perm).filterMap _
      rw [compile_eq_ok_of_perm perm.symm ((hdeclared.map _).nodup_iff.mp once) h'] at h
      cases h

/-- The derivative of an alias may stand before the declaration, and a helper behind what reads it. -/
theorem compile_perm_oscillator :
    ∃ m m', (compile knownFunctions.contains ⟨.reject, .twoPass⟩
        (["k = 2", "r = ((x, y))", "dr/dt = ((y, -k x))"].map .ofText)).result = .ok m ∧
      (compile knownFunctions.contains ⟨.reject, .twoPass⟩
        (["dr/dt = ((y, -k x))", "r = ((x, y))", "k = 2"].map .ofText)).result = .ok m' ∧
      m.variableNames = ["x", "y"] ∧ m.helpers.names = ["k"] ∧
      m.derivatives = m'.derivatives ∧ m.helpers = m'.helpers ∧ m.aliases = m'.aliases := by
  have hcompiled : (compile knownFunctions.contains ⟨.reject, .twoPass⟩
      (["k = 2", "r = ((x, y))", "dr/dt = ((y, -k x))"].map .ofText)).result.toOption.any
        (fun m => m.variableNames == ["x", "y"] && m.helpers.names == ["k"]) = true := by
    decide +kernel
  obtain ⟨m, hm, hnames⟩ := exists_ok_of_any hcompiled
  rw [Bool.and_eq_true, beq_iff_eq, beq_iff_eq] at hnames
  have perm : (["k = 2", "r = ((x, y))", "dr/dt = ((y, -k x))"].map WrittenEquation.ofText).Perm
      (["dr/dt = ((y, -k x))", "r = ((x, y))", "k = 2"].map .ofText) := by decide
  rcases compile_perm perm (by decide +kernel) with ⟨⟨e, herror⟩, -⟩ | ⟨m₁, m', hm₁, hm', hd, hh, ha, -⟩
  · rw [hm] at herror
    cases herror
  · obtain rfl : m = m₁ := Except.ok.inj (hm.symm.trans hm₁)
    exact ⟨m, m', hm, hm', hnames.1, hnames.2, hd, hh, ha⟩

end Model

end OdeSystem
