import OdeSystem.Proofs.Helper.Cycle
import OdeSystem.Proofs.Table

/-!
What helpers read of a state. When a helper is evaluated, the helpers that it depends on have values, and these come
before the state. So the state shows only through the other names it reads, and two states that agree on those cannot
be told apart, neither by the values nor by the failures and events on the way to them.
-/

namespace OdeSystem.Helper

/-- Whether an equation looks a name up in the state: it reads the name, which is neither the time nor that of a
helper it depends on. -/
def ReadsState (helpers : Helpers) (e : Equation) (name : String) : Prop :=
  name ∈ e.expression.names ∧ name ≠ "t" ∧ ¬ (name ∈ e.dependencies ∧ helpers.contains name = true)

instance (helpers : Helpers) (e : Equation) (name : String) : Decidable (ReadsState helpers e name) :=
  inferInstanceAs (Decidable (_ ∧ _))

/-- Whether two states agree on every name that one of the helpers looks up in them. -/
def AgreeOn (helpers : Helpers) (state state' : State) : Prop :=
  ∀ helper e, helpers.get? helper = some e → ∀ name, ReadsState helpers e name → state.get? name = state'.get? name

section
variable {helpers : Helpers} {state state' : State} {time : Float} {walk next : Walk} {frame : Frame}
  {rest : List Frame} {events : List Event}

/-- What is done has a value. -/
theorem Reachable.isSome_of_done (h : Reachable helpers state time events walk) {name : String}
    (done : walk.marks.get? name = some .done) : (walk.values.get? name).isSome = true := by
  induction h with
  | initial => cases done
  | root _ _ _ _ _ ih => exact ih done
  | move _ top moves ih =>
    cases moves with
    | foreign => exact ih done
    | skip => exact ih done
    | enter pushed found unmarked => exact ih ((get?_insert_inProgress_eq_done unmarked).mp done)
    | finish found evaluated =>
      rw [Table.get?_insert]
      split
      · rfl
      · rename_i hne
        rw [Table.get?_insert_of_ne _ _ hne] at done
        exact ih done

/-- Only helpers have values. -/
theorem Reachable.contains_of_value (h : Reachable helpers state time events walk) {name : String}
    (value : (walk.values.get? name).isSome = true) : helpers.contains name = true := by
  induction h with
  | initial => cases value
  | root _ _ _ _ _ ih => exact ih value
  | move _ top moves ih =>
    cases moves with
    | foreign => exact ih value
    | skip => exact ih value
    | enter pushed found unmarked => exact ih value
    | finish found evaluated =>
      rw [Table.get?_insert] at value
      split at value
      · rename_i heq
        rw [heq, Table.contains, found]
        rfl
      · exact ih value

/-- An equation has the same value for two states if what it looks up in them is the same. -/
theorem eval_congr_of_values {e : Equation} {values : HelperValues}
    (agree : ∀ name, ReadsState helpers e name → state.get? name = state'.get? name)
    (ready : ∀ name ∈ e.dependencies, helpers.contains name = true → (values.get? name).isSome = true) :
    e.eval state time values = e.eval state' time values := by
  refine Equation.eval_congr_state fun name hname hne hnone => agree name ⟨hname, hne, ?_⟩
  rintro ⟨hdependency, hhelper⟩
  have hvalue := ready name hdependency hhelper
  rw [hnone] at hvalue
  cases hvalue

theorem step_congr (agree : AgreeOn helpers state state') (before : Reachable helpers state time events walk)
    (top : walk.stack = frame :: rest) :
    step helpers state time { walk with stack := rest } frame =
      step helpers state' time { walk with stack := rest } frame := by
  unfold step
  cases found : helpers.get? frame.name with
  | none => rfl
  | some helper =>
    cases frame with
    | enter name => rfl
    | finish name =>
      have ready : ∀ d ∈ helper.dependencies, helpers.contains d = true → (walk.values.get? d).isSome = true :=
        fun d hd hhelper => before.isSome_of_done (before.ordered.ready top ⟨helper, found, hd, hhelper⟩)
      have heval : helper.eval state time walk.values = helper.eval state' time walk.values :=
        eval_congr_of_values (agree name helper found) ready
      simp only [finish, heval]

theorem run_of_error {values : HelperValues} {marks : Table Mark} {e : EvalError}
    (h : (step helpers state time ⟨values, marks, rest⟩ frame).result = .error e) :
    run helpers state time ⟨values, marks, frame :: rest⟩ =
      ⟨(step helpers state time ⟨values, marks, rest⟩ frame).events, .error e⟩ := by
  rw [run]
  split
  · rename_i e' he'
    rw [h] at he'
    cases he'
    rfl
  · rename_i next hnext
    rw [h] at hnext
    cases hnext

theorem run_of_ok {values : HelperValues} {marks : Table Mark}
    (h : (step helpers state time ⟨values, marks, rest⟩ frame).result = .ok next) :
    run helpers state time ⟨values, marks, frame :: rest⟩ =
      ⟨(step helpers state time ⟨values, marks, rest⟩ frame).events ++ (run helpers state time next).events,
        (run helpers state time next).result⟩ := by
  rw [run]
  split
  · rename_i e he
    rw [h] at he
    cases he
  · rename_i next' hnext'
    rw [h] at hnext'
    cases hnext'
    rfl

theorem run_congr (agree : AgreeOn helpers state state') (before : Reachable helpers state time events walk) :
    run helpers state time walk = run helpers state' time walk := by
  -- Both take the same step, and behind it the walk has been reached again.
  fun_induction run helpers state time walk generalizing events with
  | case1 values marks => rw [run]
  | case2 values marks frame stack stepped e =>
    rename_i herror
    have hstep : stepped = step helpers state' time ⟨values, marks, stack⟩ frame := step_congr agree before rfl
    rw [hstep] at herror
    rw [run_of_error herror, hstep]
  | case3 values marks frame stack stepped middle hmiddle rest =>
    rename_i ih
    have hstep : stepped = step helpers state' time ⟨values, marks, stack⟩ frame := step_congr agree before rfl
    have hrest : rest = run helpers state' time middle := ih (before.move rfl (moves_of_step hmiddle))
    rw [hstep] at hmiddle
    rw [run_of_ok hmiddle, hstep, hrest]

theorem walkFrom_congr (agree : AgreeOn helpers state state') (before : Reachable helpers state time events walk)
    (idle : walk.stack = []) {root : String} (known : helpers.contains root = true) :
    walkFrom helpers state time walk root = walkFrom helpers state' time walk root := by
  unfold walkFrom
  split
  · rfl
  · rename_i hmark
    exact run_congr agree (before.root root idle known (by simpa [Table.contains] using hmark))

theorem foldlM_walkFrom_congr (agree : AgreeOn helpers state state') {roots : List String}
    (known : ∀ root ∈ roots, helpers.contains root = true) (before : Reachable helpers state time events walk)
    (idle : walk.stack = []) :
    roots.foldlM (walkFrom helpers state time) walk = roots.foldlM (walkFrom helpers state' time) walk := by
  induction roots generalizing walk events with
  | nil => rfl
  | cons root roots ih =>
    have hroot : helpers.contains root = true := known root (List.mem_cons_self ..)
    have hfirst := walkFrom_congr agree before idle hroot
    rw [List.foldlM_cons, List.foldlM_cons, ← hfirst]
    refine Logged.bind_congr fun next hnext => ?_
    obtain ⟨hreach, hidle, -, -⟩ := walkFrom_eq_ok hroot before idle hnext
    exact ih (fun root hmem => known root (List.mem_cons_of_mem _ hmem)) hreach hidle

/-- States that agree on what the helpers look up in them give the helpers the same values, or the same failure, and
the same events. -/
theorem evaluate_congr (agree : AgreeOn helpers state state') :
    evaluate helpers state time = evaluate helpers state' time := by
  unfold evaluate
  rw [foldlM_walkFrom_congr agree (fun _ hroot => contains_of_mem_names hroot) .initial rfl]

/-- Where an evaluation has ended, every helper has a value. -/
theorem isSome_of_evaluate {values : HelperValues} (h : (evaluate helpers state time).result = .ok values)
    {name : String} (hname : helpers.contains name = true) : (values.get? name).isSome = true := by
  obtain ⟨walk, hreach, rfl, hdone⟩ := done_of_evaluate h
  exact hreach.isSome_of_done (hdone name hname)

theorem names_of_evaluate {values : HelperValues} (h : (evaluate helpers state time).result = .ok values) :
    values.names = helpers.names := by
  obtain ⟨walk, hreach, rfl, -⟩ := done_of_evaluate h
  refine Table.names_eq_of_mem fun name => ?_
  rw [Table.mem_names, Table.mem_names]
  exact ⟨hreach.contains_of_value, isSome_of_evaluate h⟩

theorem evaluate_ne_unknownVariable {name : String} :
    (evaluate helpers state time).result ≠ .error (.unknownVariable name) := by
  intro h
  obtain ⟨_, walk, frame, rest, -, -, hstep⟩ := evaluate_eq_error h
  rcases step_eq_error hstep with ⟨_, -, -, h⟩ | ⟨_, _, -, -, -, h⟩ | ⟨_, helper, -, -, heval⟩
  · cases h
  · cases h
  · exact Equation.eval_ne_unknownVariable heval

end

end OdeSystem.Helper
