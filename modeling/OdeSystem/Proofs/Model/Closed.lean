import OdeSystem.Proofs.Formula.Lookup
import OdeSystem.Proofs.Helper.Solution
import OdeSystem.Proofs.Model.Evaluation

/-!
Closed models. When a helper is evaluated, the helpers that it reads have values, and when the derivatives are, all
helpers have. So if a state gives a value to every name that nothing else defines, no evaluation fails for want of a
name, whatever else it fails on.
-/

namespace OdeSystem

/-- An equation that fails on a name reads it, and the scope has no value for it. -/
theorem Equation.eval_eq_variableNotFound {isFunction : String → Bool} {text : String} {e : Equation}
    (read : ofText isFunction text = .ok e) {state : State} {time : Float} {helpers : HelperValues}
    {source name : String} (h : e.eval state time helpers = .error (.formula source (.variableNotFound name))) :
    name ∈ e.expression.names ∧ (⟨state, time, helpers⟩ : Scope).get? name = none := by
  obtain ⟨_, _, right, expression, -, hexpression, rfl⟩ := ofText_eq_ok read
  unfold Expression.ofText at hexpression
  dsimp only at hexpression
  split at hexpression
  · cases hexpression
  · rename_i tree htree
    cases hexpression
    unfold Equation.eval Expression.eval at h
    dsimp only at h ⊢
    have hsorted : name ∈ tree.names → name ∈ Table.sortNames tree.names := fun hname =>
      Table.mem_names_ofList.mpr (by simpa using hname)
    split at h
    · rename_i herror
      split at herror
      · rename_i hfault
        cases herror
        cases h
        obtain ⟨hname, hnone⟩ := (Formula.Tree.proper_of_ofText htree).eval_eq_variableNotFound hfault
        rw [Scope.get?_restrict, if_pos (hsorted hname)] at hnone
        exact ⟨hsorted hname, hnone⟩
      · cases herror
    · cases h
    · cases h

theorem Scope.get?_eq_none_iff {scope : Scope} {name : String} :
    scope.get? name = none ↔
      name ≠ "t" ∧ scope.helpers.get? name = none ∧ scope.state.get? name = none ∧ constant? name = none := by
  unfold Scope.get?
  split <;> simp [*]

namespace Model

/-- The names that equations of the model read and that nothing defines but a state: neither the time nor a helper nor
a constant. -/
def freeNames (m : Model) : List String :=
  ((m.helpers.entries ++ m.derivatives.entries).flatMap fun entry => entry.2.expression.names).filter fun name =>
    name ≠ "t" && !m.helpers.contains name && (constant? name).isNone

/-- Whether a state has a value for every name that only a state defines. -/
def ClosedBy (m : Model) (state : State) : Prop := ∀ name ∈ m.freeNames, (state.get? name).isSome = true

instance (m : Model) (state : State) : Decidable (m.ClosedBy state) := inferInstanceAs (Decidable (∀ _ ∈ _, _))

section
variable {isFunction : String → Bool} {options : Options} {inputs : List WrittenEquation} {m : Model} {state : State}
  {time : Float}

/-- What an equation of a closed model fails to find is a helper. -/
theorem ClosedBy.contains_of_missing (closed : m.ClosedBy state) {reader : String} {e : Equation}
    (hentry : (reader, e) ∈ m.helpers.entries ++ m.derivatives.entries) {text : String}
    (read : Equation.ofText isFunction text = .ok e) {values : HelperValues} {source name : String}
    (h : e.eval state time values = .error (.formula source (.variableNotFound name))) :
    name ∈ e.expression.names ∧ m.helpers.contains name = true ∧ values.get? name = none := by
  obtain ⟨hname, hnone⟩ := Equation.eval_eq_variableNotFound read h
  obtain ⟨htime, hvalue, hstate, hconstant⟩ := Scope.get?_eq_none_iff.mp hnone
  refine ⟨hname, ?_, hvalue⟩
  by_contra hforeign
  have hfree : name ∈ m.freeNames :=
    List.mem_filter.mpr ⟨List.mem_flatMap.mpr ⟨(reader, e), hentry, hname⟩, by simp [htime, hforeign, hconstant]⟩
  have hsome := closed name hfree
  rw [hstate] at hsome
  cases hsome

theorem ClosedBy.helperValues_ne (closed : m.ClosedBy state) (read : ReadFrom isFunction .helper m.helpers)
    (plain : ∀ name, m.helpers.contains name = true → isFunction name = false) (time : Float) (source name : String) :
    (m.helperValues state time).result ≠ .error (.formula source (.variableNotFound name)) := by
  intro h
  obtain ⟨events, walk, frame, rest, hreach, top, hstep⟩ := Helper.evaluate_eq_error h
  rcases Helper.step_eq_error hstep with ⟨_, -, -, hcyclic⟩ | ⟨_, _, -, -, -, hcyclic⟩ | ⟨reader, e, rfl, he, heval⟩
  · cases hcyclic
  · cases hcyclic
  · obtain ⟨-, -, text, htext⟩ := read reader e he
    have hentry : (reader, e) ∈ m.helpers.entries := Table.mem_entries_of_get? he
    obtain ⟨hname, hhelper, hnone⟩ := closed.contains_of_missing (List.mem_append_left _ hentry) htext heval
    -- The helper is a dependency, so it has been evaluated before the one that reads it.
    have hdepends := Helper.recorded_of_readFrom read plain reader e he name hname hhelper
    have hvalue := hreach.isSome_of_done (hreach.ordered.ready top hdepends)
    rw [hnone] at hvalue
    cases hvalue

theorem ClosedBy.derivativesWith_ne (closed : m.ClosedBy state) (read : ReadFrom isFunction .derivative m.derivatives)
    {values : HelperValues} (complete : ∀ name, m.helpers.contains name = true → (values.get? name).isSome = true)
    (time : Float) (source name : String) :
    m.derivativesWith state time values ≠ .error (.formula source (.variableNotFound name)) := by
  intro h
  obtain ⟨⟨reader, e⟩, hentry, heval⟩ := exists_of_mapM_eq_error (map_eq_error h)
  obtain ⟨-, -, text, htext⟩ := read reader e (Table.get?_of_mem_entries hentry)
  obtain ⟨-, hhelper, hnone⟩ :=
    closed.contains_of_missing (List.mem_append_right _ hentry) htext (map_eq_error heval)
  have hvalue := complete name hhelper
  rw [hnone] at hvalue
  cases hvalue

/-- A closed model without helpers named like functions never fails for want of a name: not when its helpers are
evaluated, nor its derivatives, nor both. -/
theorem values_closed (compiled : (compile isFunction options inputs).result = .ok m)
    (plain : ∀ name, m.helpers.contains name = true → isFunction name = false) (closed : m.ClosedBy state)
    (time : Float) (source name : String) :
    (m.helperValues state time).result ≠ .error (.formula source (.variableNotFound name)) ∧
      (m.derivativeValues state time).result ≠ .error (.formula source (.variableNotFound name)) ∧
      (m.allValues state time).result ≠ .error (.formula source (.variableNotFound name)) := by
  have hhelpers := closed.helperValues_ne (compile_readFrom compiled .helper) plain time source name
  have hderivatives {values : HelperValues} (hvalues : (m.helperValues state time).result = .ok values) :=
    closed.derivativesWith_ne (compile_readFrom compiled .derivative)
      (fun _ hname => Helper.isSome_of_evaluate hvalues hname) time source name
  refine ⟨hhelpers, fun h => ?_, fun h => ?_⟩
  · rcases Logged.bind_eq_error.mp h with h | ⟨values, hvalues, h⟩
    · exact hhelpers h
    · exact hderivatives hvalues h
  · rcases Logged.bind_eq_error.mp h with h | ⟨values, hvalues, h⟩
    · exact hhelpers h
    · rcases Logged.bind_eq_error.mp h with h | ⟨slopes, -, h⟩
      · exact hderivatives hvalues h
      · cases h

end

/-- A pendulum whose helpers stand behind their readers, with the state of its variables and its one parameter. -/
theorem values_closed_pendulum :
    ∃ m, (compile knownFunctions.contains .usual
        (["a = -w2 sin(x)", "w2 = g / l", "l = 2 pi + t", "dx/dt = v", "dv/dt = a"].map .ofText)).result = .ok m ∧
      (∀ name, m.helpers.contains name = true → knownFunctions.contains name = false) ∧
      m.freeNames = ["x", "g", "v"] ∧ m.ClosedBy (.ofList [("x", 1), ("v", 0), ("g", 9)]) ∧
      ∀ source name, (m.allValues (.ofList [("x", 1), ("v", 0), ("g", 9)]) 0).result ≠
        .error (.formula source (.variableNotFound name)) := by
  have hcompiled : (compile knownFunctions.contains .usual
      (["a = -w2 sin(x)", "w2 = g / l", "l = 2 pi + t", "dx/dt = v", "dv/dt = a"].map
        .ofText)).result.toOption.any (fun m =>
          m.helpers.names.all (fun name => !knownFunctions.contains name) &&
          decide (m.freeNames = ["x", "g", "v"]) &&
          decide (m.ClosedBy (.ofList [("x", 1), ("v", 0), ("g", 9)]))) = true := by
    decide +kernel
  obtain ⟨m, hm, hfound⟩ := exists_ok_of_any hcompiled
  simp only [Bool.and_eq_true, decide_eq_true_eq, List.all_eq_true, Bool.not_eq_true'] at hfound
  obtain ⟨⟨hplain, hfree⟩, hclosed⟩ := hfound
  have plain : ∀ name, m.helpers.contains name = true → knownFunctions.contains name = false :=
    fun name hname => hplain name (Table.mem_names.mpr hname)
  exact ⟨m, hm, plain, hfree, hclosed, fun source name => (values_closed hm plain hclosed 0 source name).2.2⟩

end Model

end OdeSystem
