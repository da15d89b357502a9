import OdeSystem.Proofs.Simulation.Session
import OdeSystem.Proofs.Table

/-!
State vectors. A vector has the values of the state in the order of the variables, without their names. As a state lists
its names in the same order, a vector of the right length and a state that has exactly the variables are one thing seen in
two ways: going from one to the other and back changes nothing. What a state has besides its variables is not in its
vector, and what it lacks of them is zero there.
-/

namespace OdeSystem

variable {s : Simulation} {values : List Float}

namespace Simulation

/-- The simulation with its state replaced by a vector. -/
def withVector (s : Simulation) (values : List Float) : Simulation :=
  { s with state := Table.ofList (s.model.variableNames.zip values) }

/-- A simulation holds a vector if its state has exactly the variables, each with the entry at the place of the
variable. -/
structure Holds (s : Simulation) (values : List Float) : Prop where
  names : Table.names s.state = s.model.variableNames
  entry : ∀ (place : Nat) (name : String), s.model.variableNames[place]? = some name →
    s.state.get? name = values[place]?
  vector : s.stateVector = values

/-- The vector of a state that has exactly the variables is the list of its values. -/
theorem stateVector_eq_values (h : Table.names s.state = s.model.variableNames) : s.stateVector = s.state.values := by
  have hlookups : s.model.variableNames.map s.state.get? = s.state.values.map some := by rw [← h, Table.map_get?_names]
  calc s.stateVector
      = (s.model.variableNames.map s.state.get?).map (Option.getD · 0.0) := by rw [stateVector, List.map_map]; rfl
    _ = s.state.values := by rw [hlookups, List.map_map]; exact List.map_id _

theorem holds_withVector (h : values.length = s.model.variableNames.length) : (s.withVector values).Holds values := by
  have hentries : (s.withVector values).state.entries = s.model.variableNames.zip values := Table.entries_ofList_zip h
  have hnames : Table.names (s.withVector values).state = s.model.variableNames := by
    rw [Table.names, hentries, List.map_fst_zip h.ge]
  refine ⟨hnames, fun place name => Table.get?_ofList_zip h, ?_⟩
  rw [stateVector_eq_values hnames, Table.values, hentries, List.map_snd_zip h.le]

/-- The vector of a state has each variable, with zero where the state has no value, and nothing else. -/
theorem get?_withVector_stateVector (s : Simulation) (name : String) :
    (s.withVector s.stateVector).state.get? name =
      if name ∈ s.model.variableNames then some ((s.state.get? name).getD 0.0) else none := by
  have hlength : s.stateVector.length = s.model.variableNames.length := List.length_map _
  split
  · rename_i hname
    obtain ⟨place, hplace⟩ := List.mem_iff_getElem?.mp hname
    rw [(holds_withVector hlength).entry place name hplace, stateVector, List.getElem?_map, hplace, Option.map_some]
  · rename_i hname
    have hnames : Table.names (s.withVector s.stateVector).state = s.model.variableNames := (holds_withVector hlength).names
    rw [← hnames, Table.mem_names] at hname
    exact Option.not_isSome_iff_eq_none.mp hname

/-- A state that has exactly the variables is the one that its vector stands for. -/
theorem withVector_stateVector (h : Table.names s.state = s.model.variableNames) :
    s.withVector s.stateVector = s := by
  have hstate : (s.withVector s.stateVector).state = s.state := Table.ext_get? fun name => by
    rw [get?_withVector_stateVector, if_congr (h ▸ Table.mem_names) rfl rfl]
    cases s.state.get? name <;> rfl
  calc s.withVector s.stateVector
      = { s with state := (s.withVector s.stateVector).state } := rfl
    _ = s := by rw [hstate]

end Simulation

namespace Session

theorem setStateVector_of_length (h : values.length = s.model.variableNames.length) :
    setStateVector values s = (pure (), s.withVector values) := by
  rw [setStateVector, read_bind, if_pos h]
  rfl

theorem setStateVector_of_length_ne (h : values.length ≠ s.model.variableNames.length) :
    setStateVector values s = (Logged.fail (.stateLength s.model.variableNames.length values.length), s) := by
  rw [setStateVector, read_bind, if_neg h]
  rfl

/-- A vector replaces the state if and only if it has as many entries as there are variables. Then the simulation holds
it, and nothing but the state has changed; otherwise nothing has changed at all. The vector of the state itself gives
each variable the value it has, or zero if it has none; so it changes nothing in a state that has exactly the
variables. -/
theorem setStateVector_roundtrip (values : List Float) (s : Simulation) :
    ((setStateVector values s).1.result = .ok () ↔ values.length = s.model.variableNames.length) ∧
    ((setStateVector values s).1.result = .ok () → (setStateVector values s).2.Holds values ∧
      (setStateVector values s).2 = { s with state := (setStateVector values s).2.state }) ∧
    (∀ e, (setStateVector values s).1.result = .error e → (setStateVector values s).2 = s) ∧
    (∀ name, (setStateVector s.stateVector s).2.state.get? name =
      if name ∈ s.model.variableNames then some ((s.state.get? name).getD 0.0) else none) ∧
    (Table.names s.state = s.model.variableNames → setStateVector s.stateVector s = (pure (), s)) := by
  have own : setStateVector s.stateVector s = (pure (), s.withVector s.stateVector) :=
    setStateVector_of_length (List.length_map _)
  have kept (name : String) : (setStateVector s.stateVector s).2.state.get? name =
      if name ∈ s.model.variableNames then some ((s.state.get? name).getD 0.0) else none := by
    rw [own, Simulation.get?_withVector_stateVector]
  have same (h : Table.names s.state = s.model.variableNames) : setStateVector s.stateVector s = (pure (), s) := by
    rw [own, Simulation.withVector_stateVector h]
  by_cases h : values.length = s.model.variableNames.length
  · rw [setStateVector_of_length h]
    exact ⟨iff_of_true rfl h, fun _ => ⟨Simulation.holds_withVector h, rfl⟩, fun _ failed => (nomatch failed), kept, same⟩
  · rw [setStateVector_of_length_ne h]
    exact ⟨iff_of_false (fun done => nomatch done) h, fun done => (nomatch done), fun _ _ => rfl, kept, same⟩

/-- Two variables that are declared in the other order, and a state with one of them and a name besides: the vector `[3, 4]`
takes its place and comes back, a vector of one entry does not. -/
theorem setStateVector_roundtrip_pair :
    ∃ s next, (Simulation.build { Settings.usual with initialState := .ofList [("z", 5), ("y", 1)] }
        (["dy/dt = x", "dx/dt = -y"].map .ofText)).result = .ok s ∧
      setStateVector [3, 4] s = (pure (), next) ∧ Table.names next.state = ["x", "y"] ∧
      next.state.get? "x" = some 3 ∧ next.state.get? "y" = some 4 ∧ next.time = s.time ∧ next.stateVector = [3, 4] ∧
      setStateVector next.stateVector next = (pure (), next) ∧ (setStateVector [3] s).2 = s := by
  have hbuilt : (Simulation.build { Settings.usual with initialState := .ofList [("z", 5), ("y", 1)] }
      (["dy/dt = x", "dx/dt = -y"].map .ofText)).result.toOption.any (fun s =>
        decide (s.model.variableNames = ["x", "y"])) = true := by
    decide +kernel
  obtain ⟨s, hs, hnames⟩ := exists_ok_of_any hbuilt
  rw [decide_eq_true_eq] at hnames
  have hlength : ([3, 4] : List Float).length = s.model.variableNames.length := by rw [hnames]; rfl
  have hlength' : ([3] : List Float).length ≠ s.model.variableNames.length := by rw [hnames]; decide
  have hset : setStateVector [3, 4] s = (pure (), s.withVector [3, 4]) := setStateVector_of_length hlength
  obtain ⟨hdone, hheld, -, -, -⟩ := setStateVector_roundtrip [3, 4] s
  obtain ⟨-, -, hfailed, -, -⟩ := setStateVector_roundtrip [3] s
  have hrefused : (setStateVector [3] s).2 = s :=
    hfailed (.stateLength _ _) (congrArg (·.1.result) (setStateVector_of_length_ne hlength'))
  obtain ⟨held, hrest⟩ := hheld (hdone.mpr hlength)
  rw [hset] at held hrest
  have htime : (s.withVector [3, 4]).time = s.time := (congrArg Simulation.time hrest :)
  obtain ⟨-, -, -, -, hown⟩ := setStateVector_roundtrip [] (s.withVector [3, 4])
  refine ⟨s, s.withVector [3, 4], hs, hset, held.names.trans hnames, held.entry 0 "x" ?_, held.entry 1 "y" ?_,
    htime, held.vector, hown held.names, hrefused⟩
  · exact congrArg (·[0]?) hnames
  · exact congrArg (·[1]?) hnames

end Session

end OdeSystem
