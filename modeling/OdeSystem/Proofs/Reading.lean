import Mathlib.Data.List.Basic
import OdeSystem.Equation
import OdeSystem.Proofs.Table

/-!
What an expression reads. Its value depends on a scope only through the names it has recorded, and the names that
a helper has recorded are its dependencies, but for those of functions.
-/

namespace OdeSystem

theorem Scope.get?_restrict (scope : Scope) (names : List String) (name : String) :
    (scope.restrict names).get? name = if name ∈ names then scope.get? name else none := by
  unfold Scope.restrict
  induction names with
  | nil => rfl
  | cons first rest ih =>
    cases hfirst : scope.get? first with
    | none =>
      rw [List.filterMap_cons_none (by rw [hfirst]; rfl), ih]
      by_cases heq : name = first
      · rw [heq, hfirst, ite_self, ite_self]
      · simp only [List.mem_cons, heq, false_or]
    | some x =>
      rw [List.filterMap_cons_some (by rw [hfirst]; rfl), Table.get?_ofList_cons, ih]
      by_cases heq : name = first
      · rw [heq, hfirst, if_pos rfl, if_pos (List.mem_cons_self ..)]
        split <;> rfl
      · simp only [List.mem_cons, heq, false_or, ↓reduceIte, Option.or_none]

/-- The values of names that two scopes agree on are the same. -/
theorem Scope.restrict_congr {s s' : Scope} {names : List String}
    (h : ∀ name ∈ names, s.get? name = s'.get? name) : s.restrict names = s'.restrict names := by
  unfold Scope.restrict
  congr 1
  exact List.filterMap_congr fun name hname => by rw [h name hname]

/-- The state shows only in names that are not the time's and have no helper value. -/
theorem Scope.get?_congr_state {state state' : State} {time : Float} {helpers : HelperValues} {name : String}
    (h : name ≠ "t" → helpers.get? name = none → state.get? name = state'.get? name) :
    (⟨state, time, helpers⟩ : Scope).get? name = (⟨state', time, helpers⟩ : Scope).get? name := by
  unfold Scope.get?
  split
  · rfl
  · rename_i hne
    cases hvalue : helpers.get? name with
    | some value => simp only [Option.some_or]
    | none => simp only [h hne hvalue]

/-- An expression sees a scope through its names only. -/
theorem Expression.eval_congr {e : Expression} {s s' : Scope} (h : ∀ name ∈ e.names, s.get? name = s'.get? name) :
    e.eval s = e.eval s' := by
  unfold Expression.eval
  rw [Scope.restrict_congr h]

namespace Equation

theorem eval_congr {e : Equation} {state state' : State} {time : Float} {helpers helpers' : HelperValues}
    (h : ∀ name ∈ e.expression.names,
      (⟨state, time, helpers⟩ : Scope).get? name = (⟨state', time, helpers'⟩ : Scope).get? name) :
    e.eval state time helpers = e.eval state' time helpers' := by
  unfold Equation.eval
  rw [Expression.eval_congr h]

/-- Helper values that agree on the names an equation reads give it the same value. -/
theorem eval_helpers_congr {e : Equation} {state : State} {time : Float} {helpers helpers' : HelperValues}
    (h : ∀ name ∈ e.expression.names, helpers.get? name = helpers'.get? name) :
    e.eval state time helpers = e.eval state time helpers' :=
  eval_congr fun name hname => by simp only [Scope.get?, h name hname]

/-- States that agree on the names an equation reads, but for those that have a helper value, give it the same
value. -/
theorem eval_congr_state {e : Equation} {state state' : State} {time : Float} {helpers : HelperValues}
    (h : ∀ name ∈ e.expression.names, name ≠ "t" → helpers.get? name = none →
      state.get? name = state'.get? name) :
    e.eval state time helpers = e.eval state' time helpers :=
  eval_congr fun name hname => Scope.get?_congr_state (h name hname)

/-- An evaluation fails on the expression or on the kind of its result. -/
theorem eval_eq_error {e : Equation} {state : State} {time : Float} {helpers : HelperValues} {error : EvalError}
    (h : e.eval state time helpers = .error error) :
    (∃ fault, error = .formula e.expression.source fault) ∨ ∃ text, error = .nonScalar e.name text := by
  unfold Equation.eval Expression.eval at h
  cases heval : e.expression.tree.eval (Scope.restrict ⟨state, time, helpers⟩ e.expression.names).get? with
  | error fault =>
    rw [heval] at h
    cases h
    exact .inl ⟨fault, rfl⟩
  | ok v =>
    rw [heval] at h
    dsimp only at h
    split at h
    · rename_i hok
      cases hok
    · cases h
    · cases h
      exact .inr ⟨_, rfl⟩

theorem eval_ne_cyclicDependency {e : Equation} {state : State} {time : Float} {helpers : HelperValues}
    {name : String} : e.eval state time helpers ≠ .error (.cyclicDependency name) := by
  intro h
  rcases eval_eq_error h with ⟨_, h⟩ | ⟨_, h⟩ <;> cases h

theorem eval_ne_unknownVariable {e : Equation} {state : State} {time : Float} {helpers : HelperValues}
    {name : String} : e.eval state time helpers ≠ .error (.unknownVariable name) := by
  intro h
  rcases eval_eq_error h with ⟨_, h⟩ | ⟨_, h⟩ <;> cases h

/-- What reading a scalar equation gives: its parts in normal form, and the expression on its right. -/
theorem ofText_eq_ok {isFunction : String → Bool} {text : String} {e : Equation}
    (h : ofText isFunction text = .ok e) :
    ∃ kind name right expression,
      parts? (Notation.normalText isFunction text.toList) = some (kind, name, right) ∧
      Expression.ofText (String.ofList right) = .ok expression ∧
      e = ⟨kind, name, String.ofList right,
        match kind with
        | .helper => expression.names.filter fun n => !isFunction n
        | .derivative => [], expression⟩ := by
  unfold ofText at h
  dsimp only at h
  split at h
  · cases h
  · split at h
    · cases h
    · rename_i kind name right hparts
      cases hexpr : Expression.ofText (String.ofList right) with
      | error err => simp [hexpr] at h
      | ok expression =>
        simp only [hexpr, Except.ok.injEq] at h
        exact ⟨kind, name, right, expression, hparts, hexpr, h.symm⟩

/-- A helper depends on every name it reads that is not one of a function. -/
theorem mem_dependencies {isFunction : String → Bool} {text : String} {e : Equation}
    (h : ofText isFunction text = .ok e) (hkind : e.kind = .helper) {name : String} :
    name ∈ e.dependencies ↔ name ∈ e.expression.names ∧ isFunction name = false := by
  obtain ⟨kind, _, _, expression, -, -, rfl⟩ := ofText_eq_ok h
  cases hkind
  simp

/-- No equation names a dependency twice. -/
theorem nodup_dependencies {isFunction : String → Bool} {text : String} {e : Equation}
    (h : ofText isFunction text = .ok e) : e.dependencies.Nodup := by
  obtain ⟨kind, _, _, expression, -, hexpression, rfl⟩ := ofText_eq_ok h
  have hnames : expression.names.Nodup := by
    unfold Expression.ofText at hexpression
    dsimp only at hexpression
    split at hexpression
    · cases hexpression
    · cases hexpression
      exact Table.nodup_names _
  cases kind with
  | helper => exact hnames.filter _
  | derivative => exact .nil

end Equation

end OdeSystem
