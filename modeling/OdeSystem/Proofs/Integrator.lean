import OdeSystem.Proofs.Model.Evaluation
import OdeSystem.Simulation.Basic

/-!
Forward Euler and variables without a value. Such a variable starts from zero, but only where a step moves it: the
slopes are taken at the state as it is, where the variable has no value at all. So a step is that from the state in
which the value is zero as long as no equation looks the variable up; one that does finds nothing, or a constant of
the same name.
-/

namespace OdeSystem

/-- The state with every variable moved along its slope. -/
def moved (dt : Float) (state : State) (slopes : Table Float) : State :=
  state.insertAll (slopes.entries.map fun slope => (slope.1, (state.get? slope.1).getD 0.0 + dt * slope.2))

theorem result_advanceVariable (dt : Float) (state : State) (slope : String × Float) :
    (advanceVariable dt state slope).result =
      .ok (state.insert slope.1 ((state.get? slope.1).getD 0.0 + dt * slope.2)) := by
  unfold advanceVariable
  cases state.get? slope.1 <;> rfl

/-- Moving the variables one after the other moves each from where it was in the beginning. -/
theorem result_foldlM_advanceVariable (dt : Float) (state : State) {slopes : List (String × Float)}
    (once : (slopes.map Prod.fst).Nodup) :
    (slopes.foldlM (advanceVariable dt) state).result =
      .ok (state.insertAll (slopes.map fun slope => (slope.1, (state.get? slope.1).getD 0.0 + dt * slope.2))) := by
  induction slopes generalizing state with
  | nil => rfl
  | cons slope rest ih =>
    -- No other variable has the name of the first, so moving that one leaves their values alone.
    rw [List.map_cons, List.nodup_cons] at once
    have hrest : ∀ other ∈ rest, (state.insert slope.1 ((state.get? slope.1).getD 0.0 + dt * slope.2)).get? other.1 =
        state.get? other.1 := fun other hother =>
      Table.get?_insert_of_ne _ _ fun heq => once.1 (heq ▸ List.mem_map_of_mem hother)
    rw [List.foldlM_cons, Logged.result_bind, result_advanceVariable, Except.bind, ih _ once.2, List.map_cons,
      Table.insertAll_cons]
    rw [List.map_congr_left fun other hother => by rw [hrest other hother]]

theorem result_eulerStep (m : Model) (state : State) (time dt : Float) :
    (eulerStep m state time dt).result = (m.derivativeValues state time).result.map (moved dt state) := by
  unfold eulerStep
  rw [Logged.result_bind]
  cases (m.derivativeValues state time).result with
  | error e => rfl
  | ok slopes => exact result_foldlM_advanceVariable dt state slopes.nodup_names

namespace Model

/-- The state with zero for every variable that has no value. -/
def withZeros (m : Model) (state : State) : State :=
  (Table.ofList (m.variableNames.map (·, 0.0))).insertAll state.entries

variable {m : Model} {state : State} {time dt : Float}

theorem get?_withZeros (m : Model) (state : State) (name : String) :
    (m.withZeros state).get? name =
      (state.get? name).or (if name ∈ m.variableNames then some 0.0 else none) := by
  have hzeros : (Table.ofList (m.variableNames.map fun x => (x, (0.0 : Float)))).get? name =
      if name ∈ m.variableNames then some 0.0 else none := by
    have hnames : (m.variableNames.map fun x => (x, (0.0 : Float))).map Prod.fst = m.variableNames := by
      rw [List.map_map]
      exact List.map_id _
    split
    · rename_i hname
      refine Table.get?_insertAll_of_mem ?_ (List.mem_map_of_mem hname)
      rw [hnames]
      exact m.derivatives.nodup_names
    · rename_i hname
      rw [← Option.not_isSome_iff_eq_none, ← Table.mem_names, Table.mem_names_ofList, hnames]
      exact hname
  rw [withZeros, Table.get?_insertAll, Table.ofList_entries, hzeros]

/-- A variable without a value is moved from zero. -/
theorem moved_withZeros {slopes : Table Float} (h : slopes.names = m.variableNames) :
    moved dt (m.withZeros state) slopes = moved dt state slopes := by
  have hname {slope : String × Float} (hslope : slope ∈ slopes.entries) : slope.1 ∈ m.variableNames :=
    h ▸ List.mem_map_of_mem hslope
  have hvalue : ∀ slope ∈ slopes.entries,
      ((m.withZeros state).get? slope.1).getD 0.0 = (state.get? slope.1).getD 0.0 := by
    intro slope hslope
    rw [get?_withZeros, if_pos (hname hslope)]
    cases state.get? slope.1 with
    | none => rw [Option.none_or, Option.getD_some, Option.getD_none]
    | some value => rw [Option.some_or]
  unfold moved
  rw [List.map_congr_left fun slope hslope => by rw [hvalue slope hslope]]
  refine Table.ext_get? fun name => ?_
  rw [Table.get?_insertAll, Table.get?_insertAll, get?_withZeros]
  -- Only the variables differ, and all of them have been moved.
  by_cases hmem : name ∈ m.variableNames
  · have hmoved : name ∈ (Table.ofList (slopes.entries.map fun slope =>
        (slope.1, (state.get? slope.1).getD 0.0 + dt * slope.2))).names := by
      rw [Table.mem_names_ofList, List.map_map]
      exact (congrArg (name ∈ ·) h).mpr hmem
    obtain ⟨value, hvalue⟩ := Option.isSome_iff_exists.mp (Table.mem_names.mp hmoved)
    rw [hvalue, Option.some_or, Option.some_or]
  · rw [if_neg hmem, Option.or_none]

/-- A step from a state that lacks variables is that from the state with zeros for them, but for the slopes, which are
taken at the state as it is. -/
theorem eulerStep_withZeros (m : Model) (state : State) (time dt : Float) :
    (eulerStep m state time dt).result =
      (m.derivativeValues state time).result.map (moved dt (m.withZeros state)) := by
  rw [result_eulerStep]
  cases hslopes : (m.derivativeValues state time).result with
  | error e => rw [Except.map, Except.map]
  | ok slopes => rw [Except.map, Except.map, moved_withZeros (names_of_derivativeValues hslopes)]

end Model

namespace Simulation

/-- A step moves the variables from the state with zeros for those without a value, along the slopes at the state as it
is. Where no equation looks such a variable up, it is the step from the state with the zeros. -/
theorem step_withZeros {s : Simulation} (euler : s.integrator = .euler) (dt : Float) :
    (s.step dt).result = (s.derivativeValues.result.map fun slopes =>
      (moved dt (s.model.withZeros s.state) slopes,
        { s with state := moved dt (s.model.withZeros s.state) slopes, time := s.time + dt })) ∧
    ((∀ x ∈ s.model.variableNames, s.state.get? x = none → ¬ s.model.ReadsState x) →
      (s.step dt).result = ({ s with state := s.model.withZeros s.state }.step dt).result) := by
  constructor
  · simp only [step, euler, Integrator.next, derivativeValues, Logged.result_bind, Logged.result_report,
      Logged.result_mapError, Model.eulerStep_withZeros, Except.bind]
    cases (s.model.derivativeValues s.state s.time).result <;> rfl
  · intro unread
    have agree : ∀ name, s.model.ReadsState name →
        s.state.get? name = (s.model.withZeros s.state).get? name := by
      intro name hread
      rw [Model.get?_withZeros]
      cases hvalue : s.state.get? name with
      | some value => rw [Option.some_or]
      | none => rw [Option.none_or, if_neg fun hname => unread name hname hvalue hread]
    have hnext : (eulerStep s.model s.state s.time dt).result =
        (eulerStep s.model (s.model.withZeros s.state) s.time dt).result := by
      rw [Model.eulerStep_withZeros, result_eulerStep, Model.derivativeValues_congr agree]
    simp only [step, euler, Integrator.next, Logged.result_bind, Logged.result_report, Logged.result_mapError, hnext]

/-- A variable that is a helper at once needs no value. -/
theorem step_withZeros_helper :
    ∃ s, (ofEquations (["dx/dt = k x", "x = 2 t", "k = x + 3"].map .ofText)).result = .ok s ∧
      s.model.variableNames = ["x"] ∧ s.state.get? "x" = none ∧
      (s.step 0.5).result = ({ s with state := s.model.withZeros s.state }.step 0.5).result := by
  have hbuilt : (ofEquations (["dx/dt = k x", "x = 2 t", "k = x + 3"].map .ofText)).result.toOption.any (fun s =>
      s.integrator == .euler && s.model.variableNames == ["x"] && (s.state.get? "x").isNone &&
        !decide (s.model.ReadsState "x")) = true := by
    decide +kernel
  obtain ⟨s, hs, hfound⟩ := exists_ok_of_any hbuilt
  simp only [Bool.and_eq_true, beq_iff_eq, Option.isNone_iff_eq_none, Bool.not_eq_true', decide_eq_false_iff_not]
    at hfound
  obtain ⟨⟨⟨heuler, hnames⟩, hnone⟩, hunread⟩ := hfound
  refine ⟨s, hs, hnames, hnone, (step_withZeros heuler 0.5).2 fun x hx _ => ?_⟩
  rw [hnames, List.mem_singleton] at hx
  exact hx ▸ hunread

/-- A variable without a value that an equation looks up: the step fails, or takes a constant of that name instead. -/
theorem step_of_read_variable :
    (∃ s, (ofEquations (["dx/dt = x + 1"].map .ofText)).result = .ok s ∧
      (∃ e, (s.step 0.5).result = .error e) ∧
      ∃ next, ({ s with state := s.model.withZeros s.state }.step 0.5).result = .ok next ∧
        (next.1.get? "x" == some 0.5) = true) ∧
    ∃ s, (ofEquations (["de/dt = e"].map .ofText)).result = .ok s ∧
      (∃ next, (s.step 0.5).result = .ok next ∧ (next.1.get? "e" == some 1.3591409142295225) = true) ∧
      ∃ next, ({ s with state := s.model.withZeros s.state }.step 0.5).result = .ok next ∧
        (next.1.get? "e" == some 0) = true := by
  constructor
  · have hbuilt : (ofEquations (["dx/dt = x + 1"].map .ofText)).result.toOption.any (fun s =>
        (s.step 0.5).result.toOption.isNone &&
          ({ s with state := s.model.withZeros s.state }.step 0.5).result.toOption.any
            fun next : State × Simulation => next.1.get? "x" == some 0.5) = true := by
      decide +kernel
    obtain ⟨s, hs, hfound⟩ := exists_ok_of_any hbuilt
    rw [Bool.and_eq_true] at hfound
    obtain ⟨hfails, hzeros⟩ := hfound
    exact ⟨s, hs, exists_error_of_isNone hfails, exists_ok_of_any hzeros⟩
  · have hbuilt : (ofEquations (["de/dt = e"].map .ofText)).result.toOption.any (fun s =>
        ((s.step 0.5).result.toOption.any
          fun next : State × Simulation => next.1.get? "e" == some 1.3591409142295225) &&
          ({ s with state := s.model.withZeros s.state }.step 0.5).result.toOption.any
            fun next : State × Simulation => next.1.get? "e" == some 0) = true := by
      decide +kernel
    obtain ⟨s, hs, hfound⟩ := exists_ok_of_any hbuilt
    rw [Bool.and_eq_true] at hfound
    exact ⟨s, hs, exists_ok_of_any hfound.1, exists_ok_of_any hfound.2⟩

end Simulation

end OdeSystem
