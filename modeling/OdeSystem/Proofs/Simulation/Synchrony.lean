import OdeSystem.Proofs.Integrator
import OdeSystem.Proofs.Model.Query
import OdeSystem.Proofs.Simulation.Session

/-!
A step by forward Euler moves all variables at once. The slopes are read before anything is written, all of them with
the same helpers, so it does not matter in which order the variables are moved, nor that they are moved in one table.
-/

namespace OdeSystem

variable {dt : Float}

/-- A state that has been moved holds the variables where their slopes lead from where they were, and the rest as it
was. -/
theorem get?_moved (dt : Float) (state : State) (slopes : Table Float) (name : String) :
    (moved dt state slopes).get? name =
      ((slopes.get? name).map fun slope => (state.get? name).getD 0.0 + dt * slope).or (state.get? name) := by
  have hnames : (slopes.entries.map fun slope => (slope.1, (state.get? slope.1).getD 0.0 + dt * slope.2)).map Prod.fst =
      slopes.names := by
    rw [List.map_map]
    rfl
  cases hslope : slopes.get? name with
  | some slope =>
    refine Table.get?_insertAll_of_mem ?_ (List.mem_map.mpr ⟨(name, slope), Table.mem_entries_of_get? hslope, rfl⟩)
    rw [hnames]
    exact slopes.nodup_names
  | none =>
    have hunmoved : (Table.ofList (slopes.entries.map fun slope =>
        (slope.1, (state.get? slope.1).getD 0.0 + dt * slope.2))).get? name = none := by
      rw [← Option.not_isSome_iff_eq_none, ← Table.mem_names, Table.mem_names_ofList, hnames, Table.mem_names, hslope]
      simp
    rw [moved, Table.get?_insertAll, hunmoved, Option.map_none]

theorem mem_names_moved {state : State} {slopes : Table Float} {name : String} :
    name ∈ (moved dt state slopes).names ↔ name ∈ state.names ∨ name ∈ slopes.names := by
  rw [Table.mem_names, Table.mem_names, Table.mem_names, get?_moved, Option.isSome_or, Option.isSome_map,
    Bool.or_eq_true, or_comm]

namespace Session

variable {s : Simulation}

/-- A step by forward Euler gives the state moved along the derivatives, and fails as they do. -/
theorem step_euler (euler : s.integrator = .euler) (dt : Float) :
    (∃ e, s.derivativeValues.result = .error e ∧ (step .usual dt s).1.result = .error e ∧ (step .usual dt s).2 = s) ∨
    ∃ slopes, s.derivativeValues.result = .ok slopes ∧
      (step .usual dt s).1.result = .ok (moved dt s.state slopes) ∧
      (step .usual dt s).2 = { s with state := moved dt s.state slopes, time := s.time + dt } := by
  have hrule : (Rule.usual s.integrator s dt).result =
      (s.model.derivativeValues s.state s.time).result.map (moved dt s.state) := by
    rw [Rule.usual, euler]
    exact result_eulerStep s.model s.state s.time dt
  rw [Simulation.derivativeValues, Logged.result_mapError]
  rcases step_cases .usual dt s with ⟨cause, hcause, hfails, hsame⟩ | ⟨next, hnext, hgives, hbehind⟩
  · rw [map_eq_error (hrule.symm.trans hcause)]
    exact .inl ⟨.eval cause, rfl, hfails, hsame⟩
  · obtain ⟨slopes, hslopes, rfl⟩ := exists_of_map_eq_ok (hrule.symm.trans hnext)
    rw [hslopes]
    exact .inr ⟨slopes, rfl, hgives, hbehind⟩

/-- A step by forward Euler fails exactly as the derivatives at the state and time before it do, and changes nothing
then. Otherwise every variable is moved along its derivative, all of them read at that state and time with the same
helpers; what is no variable stays, and the time is one step later. -/
theorem step_synchronous (euler : s.integrator = .euler) (dt : Float) :
    (∀ e, (step .usual dt s).1.result = .error e ↔ s.derivativeValues.result = .error e) ∧
    (∀ e, s.derivativeValues.result = .error e → (step .usual dt s).2 = s) ∧
    ∀ slopes, s.derivativeValues.result = .ok slopes →
      ∃ helpers next, s.helperValues.result = .ok helpers ∧ (step .usual dt s).1.result = .ok next ∧
        (step .usual dt s).2 = { s with state := next, time := s.time + dt } ∧
        (∀ name, name ∈ next.names ↔ name ∈ s.state.names ∨ name ∈ s.model.variableNames) ∧
        (∀ x e, s.model.derivatives.get? x = some e → ∃ slope, e.eval s.state s.time helpers = .ok slope ∧
          slopes.get? x = some slope ∧ next.get? x = some ((s.state.get? x).getD 0.0 + dt * slope)) ∧
        ∀ name ∉ s.model.variableNames, next.get? name = s.state.get? name := by
  rcases step_euler euler dt with ⟨e, hderivatives, hfails, hsame⟩ | ⟨slopes, hderivatives, hgives, hbehind⟩
  · rw [hderivatives, hfails]
    exact ⟨fun _ => Iff.rfl, fun _ _ => hsame, nofun⟩
  · have hvalues := mapError_eq_ok.mp hderivatives
    rw [hderivatives, hgives]
    refine ⟨fun _ => iff_of_false nofun nofun, nofun, ?_⟩
    rintro _ ⟨⟩
    obtain ⟨helpers, hhelpers, hslopes⟩ := Logged.bind_eq_ok.mp hvalues
    have hnames : slopes.names = s.model.variableNames := Model.names_of_derivativesWith hslopes
    refine ⟨helpers, _, hhelpers, rfl, hbehind, fun name => ?_, fun x e he => ?_, fun name hname => ?_⟩
    · rw [mem_names_moved, hnames]
    · obtain ⟨slope, heval, hslope⟩ := Model.get?_of_derivativesWith hslopes he
      refine ⟨slope, heval, hslope, ?_⟩
      rw [get?_moved, hslope, Option.map_some, Option.some_or]
    · have hnone : slopes.get? name = none := by
        rw [← Option.not_isSome_iff_eq_none, ← Table.mem_names, hnames]
        exact hname
      rw [get?_moved, hnone, Option.map_none, Option.none_or]

/-- Two variables that follow each other by way of a helper, one of them without a value, and a name that is neither. -/
theorem step_synchronous_pair :
    ∃ s next, (Simulation.build { Settings.usual with initialState := .ofList [("y", 3), ("z", 5)] }
        (["dx/dt = k y", "dy/dt = k t - y", "k = 2"].map .ofText)).result = .ok s ∧
      s.integrator = .euler ∧ (step .usual 0.5 s).1.result = .ok next ∧
      (step .usual 0.5 s).2 = { s with state := next, time := s.time + 0.5 } ∧
      "x" ∈ next.names ∧ "x" ∉ s.state.names ∧ (next.get? "x" == some 3) = true ∧
      (next.get? "y" == some 1.5) = true ∧ next.get? "z" = s.state.get? "z" := by
  have hbuilt : (Simulation.build { Settings.usual with initialState := .ofList [("y", 3), ("z", 5)] }
      (["dx/dt = k y", "dy/dt = k t - y", "k = 2"].map .ofText)).result.toOption.any (fun s =>
        s.integrator == .euler && s.model.variableNames == ["x", "y"] && s.state.names == ["y", "z"] &&
          (Helper.evaluateWithin s.model.helpers s.state s.time 9).any (fun result =>
            result.toOption.any fun helpers =>
              (s.model.derivativesWith s.state s.time helpers).toOption.any fun slopes =>
                (moved 0.5 s.state slopes).get? "x" == some 3 &&
                  (moved 0.5 s.state slopes).get? "y" == some 1.5)) = true := by
    decide +kernel
  obtain ⟨s, hs, hfound⟩ := exists_ok_of_any hbuilt
  simp only [Bool.and_eq_true, beq_iff_eq] at hfound
  obtain ⟨⟨⟨heuler, hvariables⟩, hstate⟩, hwithin⟩ := hfound
  obtain ⟨result, hresult, hvalues⟩ := (Option.any_eq_true _ _).mp hwithin
  obtain ⟨helpers, rfl, hfound⟩ := exists_ok_of_any hvalues
  obtain ⟨slopes, hslopes, hfound⟩ := exists_ok_of_any hfound
  rw [Bool.and_eq_true] at hfound
  have hderivatives : s.derivativeValues.result = .ok slopes :=
    mapError_eq_ok.mpr (Logged.bind_eq_ok.mpr ⟨helpers, Helper.evaluate_eq_of_within hresult, hslopes⟩)
  obtain ⟨-, next, -, hnext, hbehind, hnames, -, hothers⟩ := (step_synchronous heuler 0.5).2.2 slopes hderivatives
  have hmoved : next = moved 0.5 s.state slopes := by
    rcases step_euler heuler 0.5 with ⟨e, he, -⟩ | ⟨slopes', hslopes', hgives, -⟩
    · cases he.symm.trans hderivatives
    · cases hslopes'.symm.trans hderivatives
      exact Except.ok.inj (hnext.symm.trans hgives)
  refine ⟨s, next, hs, heuler, hnext, hbehind, (hnames "x").mpr (.inr ?_), ?_, ?_, ?_, hothers "z" ?_⟩
  · simp [hvariables]
  · simp [hstate]
  · exact hmoved ▸ hfound.1
  · exact hmoved ▸ hfound.2
  · simp [hvariables]

end Session

end OdeSystem
