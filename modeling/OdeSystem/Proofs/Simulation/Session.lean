import OdeSystem.Proofs.Logged
import OdeSystem.Simulation.Session

/-!
What a request leaves behind that fails. A step, new equations and a new state vector read first, and write when nothing
can fail any more; so they are done as a whole or not at all. An integration is steps one after the other, and when one
of them fails it leaves what the steps before have made.

The same operations on a simulation as a value give the same results and the same simulation.
-/

namespace OdeSystem.Session

variable {α β : Type} {x : Session α} {f : α → Session β} {s : Simulation} {rule : Rule} {goal dt : Float}

/-! ### One piece of work after another -/

theorem pure_apply (a : α) (s : Simulation) : (pure a : Session α) s = (pure a, s) := rfl

theorem bind_eq (x : Session α) (f : α → Session β) (s : Simulation) :
    (x >>= f) s = match (x s).1.result with
      | .error e => (⟨(x s).1.events, .error e⟩, (x s).2)
      | .ok a => (⟨(x s).1.events ++ (f a (x s).2).1.events, (f a (x s).2).1.result⟩, (f a (x s).2).2) := rfl

theorem bind_of_ok {a : α} (h : (x s).1.result = .ok a) :
    ((x >>= f) s).1.result = (f a (x s).2).1.result ∧ ((x >>= f) s).2 = (f a (x s).2).2 := by
  rw [bind_eq, h]
  exact ⟨rfl, rfl⟩

theorem bind_of_error {e : RequestError} (h : (x s).1.result = .error e) :
    ((x >>= f) s).1.result = .error e ∧ ((x >>= f) s).2 = (x s).2 := by
  rw [bind_eq, h]
  exact ⟨rfl, rfl⟩

theorem read_bind (g : Simulation → α) (f : α → Session β) (s : Simulation) : (read g >>= f) s = f (g s) s := rfl

/-- Work after other work succeeds, or fails in the first part, or in the second. -/
theorem bind_cases (x : Session α) (f : α → Session β) (s : Simulation) :
    (∃ e, (x s).1.result = .error e ∧ ((x >>= f) s).1.result = .error e ∧ ((x >>= f) s).2 = (x s).2) ∨
    ∃ a, (x s).1.result = .ok a ∧ ((x >>= f) s).1.result = (f a (x s).2).1.result ∧
      ((x >>= f) s).2 = (f a (x s).2).2 := by
  cases h : (x s).1.result with
  | error e => exact .inl ⟨e, rfl, bind_of_error h⟩
  | ok a => exact .inr ⟨a, rfl, bind_of_ok h⟩

/-- Work that leaves the simulation as it is. -/
def Reads (x : Session α) : Prop := ∀ s, (x s).2 = s

/-- Work that never fails. -/
def Sure (x : Session α) : Prop := ∀ s, ∃ a, (x s).1.result = .ok a

/-- Work that leaves the simulation as it is when it fails. -/
def Atomic (x : Session α) : Prop := ∀ s e, (x s).1.result = .error e → (x s).2 = s

theorem reads_ask (f : Simulation → Logged RequestError α) : Reads (ask f) := fun _ => rfl

theorem sure_pure (a : α) : Sure (pure a) := fun _ => ⟨a, rfl⟩

theorem sure_write (f : Simulation → Simulation) : Sure (write f) := fun _ => ⟨(), rfl⟩

theorem Sure.bind (hx : Sure x) (hf : ∀ a, Sure (f a)) : Sure (x >>= f) := by
  intro s
  obtain ⟨a, ha⟩ := hx s
  obtain ⟨b, hb⟩ := hf a (x s).2
  exact ⟨b, (bind_of_ok ha).1.trans hb⟩

theorem Reads.atomic (hx : Reads x) : Atomic x := fun s _ _ => hx s

theorem Sure.atomic (hx : Sure x) : Atomic x := by
  intro s e h
  obtain ⟨a, ha⟩ := hx s
  rw [ha] at h
  cases h

/-- Work that begins with reading is done as a whole or not at all if the rest is. -/
theorem Reads.bind (hx : Reads x) (hf : ∀ a, Atomic (f a)) : Atomic (x >>= f) := by
  intro s e h
  rcases bind_cases x f s with ⟨-, -, -, hs⟩ | ⟨a, -, hresult, hs⟩
  · rw [hs, hx s]
  · rw [hx s] at hresult hs
    rw [hs]
    exact hf a s e (hresult.symm.trans h)

/-! ### Requests that are done as a whole -/

theorem atomic_step (rule : Rule) (dt : Float) : Atomic (step rule dt) :=
  (reads_ask _).bind fun _ => (reads_ask _).bind fun next =>
    ((sure_write _).bind fun _ => (sure_write _).bind fun _ => sure_pure next).atomic

theorem atomic_recompile (inputs : List WrittenEquation) : Atomic (recompile inputs) :=
  (reads_ask _).bind fun _ => (sure_write _).atomic

theorem atomic_setStateVector (values : List Float) : Atomic (setStateVector values) := by
  refine (reads_ask _).bind fun names => ?_
  split
  · exact (sure_write _).atomic
  · exact (reads_ask _).atomic

/-! ### Steps one after the other -/

/-- A step gives the state of the integrator and goes on to it, or fails as the integrator does. -/
theorem step_cases (rule : Rule) (dt : Float) (s : Simulation) :
    (∃ cause, (rule s.integrator s dt).result = .error cause ∧ (step rule dt s).1.result = .error (.eval cause) ∧
      (step rule dt s).2 = s) ∨
    ∃ next, (rule s.integrator s dt).result = .ok next ∧ (step rule dt s).1.result = .ok next ∧
      (step rule dt s).2 = { s with state := next, time := s.time + dt } := by
  have hnext : (ask (fun s => (rule s.integrator s dt).mapError RequestError.eval) s).1.result =
      (rule s.integrator s dt).result.mapError .eval := rfl
  cases hrule : (rule s.integrator s dt).result with
  | error cause =>
    rw [hrule] at hnext
    exact .inl ⟨cause, rfl, bind_of_error (f := moveTo dt) hnext⟩
  | ok next =>
    rw [hrule] at hnext
    exact .inr ⟨next, rfl, bind_of_ok (f := moveTo dt) hnext⟩

theorem stepTimes_moved {state : State} (count : Nat) (h : (step rule dt s).1.result = .ok state) :
    (stepTimes rule dt (count + 1) s).1.result =
        (stepTimes rule dt count (step rule dt s).2).1.result.map (state :: ·) ∧
      (stepTimes rule dt (count + 1) s).2 = (stepTimes rule dt count (step rule dt s).2).2 := by
  obtain ⟨hresult, hbehind⟩ := bind_of_ok (f := fun state => do
    let states ← stepTimes rule dt count
    pure (state :: states)) h
  rcases bind_cases (stepTimes rule dt count) (fun states => (pure (state :: states) : Session _)) (step rule dt s).2 with
    ⟨e, he, hrest, hlast⟩ | ⟨states, hstates, hrest, hlast⟩
  · rw [he]
    exact ⟨hresult.trans hrest, hbehind.trans hlast⟩
  · rw [hstates]
    exact ⟨hresult.trans hrest, hbehind.trans hlast⟩

theorem stepUntil_of_not_lt (limit : Nat) (h : ¬ s.time < goal) :
    stepUntil rule goal dt limit s = (pure (some []), s) := by
  cases limit with
  | zero =>
    rw [stepUntil, read_bind, if_neg h]
    rfl
  | succ limit =>
    rw [stepUntil, read_bind, if_neg h]
    rfl

theorem stepUntil_zero (h : s.time < goal) : stepUntil rule goal dt 0 s = (pure none, s) := by
  rw [stepUntil, read_bind, if_pos h]
  rfl

/-- What is left to do behind a first step. -/
def afterFirst (rule : Rule) (goal dt : Float) (limit : Nat) (state : State) : Session (Option (List State)) := do
  let states ← stepUntil rule goal dt limit
  pure (states.map (state :: ·))

theorem stepUntil_succ (limit : Nat) (h : s.time < goal) :
    stepUntil rule goal dt (limit + 1) s = (step rule dt >>= afterFirst rule goal dt limit) s := by
  rw [stepUntil, read_bind, if_pos h]
  rfl

theorem afterFirst_eq_error {limit : Nat} {state : State} {e : RequestError}
    (h : (afterFirst rule goal dt limit state s).1.result = .error e) :
    (stepUntil rule goal dt limit s).1.result = .error e ∧
      (afterFirst rule goal dt limit state s).2 = (stepUntil rule goal dt limit s).2 := by
  rcases bind_cases (stepUntil rule goal dt limit) (fun states => pure (states.map (state :: ·))) s with
    ⟨e', he', hresult, hs⟩ | ⟨states, -, hresult, -⟩
  · cases hresult.symm.trans h
    exact ⟨he', hs⟩
  · cases hresult.symm.trans h

/-- Stepping fails when the first steps have been made, the goal is still ahead, and the next step fails; the simulation
is then as the steps that have been made leave it. -/
theorem stepUntil_eq_error {limit : Nat} {e : RequestError} (h : (stepUntil rule goal dt limit s).1.result = .error e) :
    ∃ count states cause, e = .eval cause ∧ (stepTimes rule dt count s).1.result = .ok states ∧
      (stepTimes rule dt count s).2.time < goal ∧
      (step rule dt (stepTimes rule dt count s).2).1.result = .error e ∧
      (stepUntil rule goal dt limit s).2 = (stepTimes rule dt count s).2 := by
  induction limit generalizing s with
  | zero =>
    by_cases ahead : s.time < goal
    · rw [stepUntil_zero ahead] at h
      cases h
    · rw [stepUntil_of_not_lt 0 ahead] at h
      cases h
  | succ limit ih =>
    by_cases ahead : s.time < goal
    · rw [stepUntil_succ limit ahead] at h ⊢
      rcases step_cases rule dt s with ⟨cause, -, hstep, hs⟩ | ⟨next, -, hstep, -⟩
      · obtain ⟨hresult, hbehind⟩ := bind_of_error (f := afterFirst rule goal dt limit) hstep
        cases hresult.symm.trans h
        exact ⟨0, [], cause, rfl, rfl, ahead, hstep, hbehind.trans hs⟩
      · obtain ⟨hresult, hbehind⟩ := bind_of_ok (f := afterFirst rule goal dt limit) hstep
        obtain ⟨hrest, hend⟩ := afterFirst_eq_error (hresult.symm.trans h)
        obtain ⟨count, states, cause, he, hstates, hahead, hfailed, hsame⟩ := ih hrest
        obtain ⟨hmade, hreached⟩ := stepTimes_moved count hstep
        rw [hstates] at hmade
        rw [← hreached] at hahead hfailed hsame
        exact ⟨count + 1, next :: states, cause, he, hmade, hahead, hfailed, hbehind.trans (hend.trans hsame)⟩
    · rw [stepUntil_of_not_lt _ ahead] at h
      cases h

/-- An integration is refused before it begins, or fails in one of its steps. -/
theorem integrate_eq_error {limit : Nat} {e : RequestError} (h : (integrate rule limit goal dt s).1.result = .error e) :
    (Simulation.admitsStep dt = false ∧ e = .timeStep dt ∧ (integrate rule limit goal dt s).2 = s) ∨
      Simulation.admitsStep dt = true ∧ ∃ count states cause, e = .eval cause ∧
        (stepTimes rule dt count s).1.result = .ok states ∧ (stepTimes rule dt count s).2.time < goal ∧
        (step rule dt (stepTimes rule dt count s).2).1.result = .error e ∧
        (integrate rule limit goal dt s).2 = (stepTimes rule dt count s).2 := by
  unfold integrate at h ⊢
  split at h
  · next admitted =>
    rw [if_pos admitted]
    exact .inr ⟨admitted, stepUntil_eq_error h⟩
  · next refused =>
    rw [if_neg refused]
    cases h
    exact .inl ⟨eq_false_of_ne_true refused, rfl, rfl⟩

/-- A step, new equations or a new state vector that cannot be had leave the simulation as it was, and so does a time
step that is refused. When an integration fails in one of its steps, the simulation is as the steps before it leave it. -/
theorem failure_leaves_simulation (rule : Rule) (s : Simulation) :
    (∀ dt e, (step rule dt s).1.result = .error e → (step rule dt s).2 = s) ∧
    (∀ inputs e, (recompile inputs s).1.result = .error e → (recompile inputs s).2 = s) ∧
    (∀ values e, (setStateVector values s).1.result = .error e → (setStateVector values s).2 = s) ∧
    ∀ limit goal dt e, (integrate rule limit goal dt s).1.result = .error e →
      (e = .timeStep dt ∧ (integrate rule limit goal dt s).2 = s) ∨
      ∃ count states cause, e = .eval cause ∧ (stepTimes rule dt count s).1.result = .ok states ∧
        (stepTimes rule dt count s).2.time < goal ∧
        (step rule dt (stepTimes rule dt count s).2).1.result = .error e ∧
        (integrate rule limit goal dt s).2 = (stepTimes rule dt count s).2 := by
  refine ⟨fun dt => atomic_step rule dt s, fun inputs => atomic_recompile inputs s,
    fun values => atomic_setStateVector values s, ?_⟩
  intro limit goal dt e h
  rcases integrate_eq_error h with ⟨-, he, hs⟩ | ⟨-, failed⟩
  · exact .inl ⟨he, hs⟩
  · exact .inr failed

/-- An equation without a number from time one on: the third step of one half fails, and the time is one. -/
theorem failure_leaves_simulation_third_step :
    ∃ s, (Simulation.ofEquations (["dx/dt = if/**/(t < 1, 1, true)"].map .ofText)).result = .ok s ∧
      (∃ count states cause, (stepTimes .usual 0.5 count s).1.result = .ok states ∧
        (step .usual 0.5 (stepTimes .usual 0.5 count s).2).1.result = .error (.eval cause) ∧
        ((stepTimes .usual 0.5 count s).2.time == 1) = true ∧
        (integrate .usual 9 3 0.5 s).2 = (stepTimes .usual 0.5 count s).2) ∧
      (recompile (["dx/dt = 1", "k"].map .ofText) s).2 = s ∧ (setStateVector [1, 2] s).2 = s := by
  have hbuilt : (Simulation.ofEquations (["dx/dt = if/**/(t < 1, 1, true)"].map .ofText)).result.toOption.any
      (fun s => (integrate .usual 9 3 0.5 s).1.result.toOption.isNone && (integrate .usual 9 3 0.5 s).2.time == 1 &&
        (recompile (["dx/dt = 1", "k"].map .ofText) s).1.result.toOption.isNone &&
        (setStateVector [1, 2] s).1.result.toOption.isNone && !(s.time == 1)) = true := by
    decide +kernel
  obtain ⟨s, hs, hfound⟩ := exists_ok_of_any hbuilt
  simp only [Bool.and_eq_true, Bool.not_eq_true'] at hfound
  obtain ⟨⟨⟨⟨hintegrate, hone⟩, hrecompile⟩, hvector⟩, hzero⟩ := hfound
  obtain ⟨e, hfailed⟩ := exists_error_of_isNone hintegrate
  obtain ⟨-, hequations, hvalues, hsteps⟩ := failure_leaves_simulation .usual s
  obtain ⟨e₁, hrecompile⟩ := exists_error_of_isNone hrecompile
  obtain ⟨e₂, hvector⟩ := exists_error_of_isNone hvector
  refine ⟨s, hs, ?_, hequations _ _ hrecompile, hvalues _ _ hvector⟩
  rcases hsteps 9 3 0.5 e hfailed with ⟨-, hsame⟩ | ⟨count, states, cause, rfl, hmade, -, hnext, hend⟩
  · rw [hsame, hzero] at hone
    cases hone
  · rw [hend] at hone
    exact ⟨count, states, cause, hmade, hnext, hone, hend⟩

/-! ### Operations on a simulation as a value -/

/-- An operation that gives the simulation behind it, on the simulation of the session. -/
def commit (operation : Simulation → Logged RequestError (α × Simulation)) : Session α := fun s =>
  match (operation s).result with
  | .error e => (⟨(operation s).events, .error e⟩, s)
  | .ok (a, next) => (⟨(operation s).events, .ok a⟩, next)

/-- What a session sees of a run. -/
def ofRun (run : Run) : Logged RequestError (Option (List State)) × Simulation :=
  (⟨run.events, match run.result with
    | none => .ok none
    | some result => result.map some⟩, run.simulation)

theorem step_eq_commit (dt : Float) : step .usual dt = commit (·.step dt) := by
  funext s
  rcases hnext : s.integrator.next s.model s.state s.time dt with ⟨events, e | state⟩
  · simp only [step, bind_eq, ask, Rule.usual, hnext, commit, Simulation.step]
    rfl
  · simp only [step, bind_eq, ask, Rule.usual, hnext, commit, Simulation.step]
    rfl

theorem recompile_eq_commit (inputs : List WrittenEquation) :
    recompile inputs = commit fun s => ((), ·) <$> s.recompile inputs := by
  funext s
  rcases hmodel : Model.compile s.isFunction s.options inputs with ⟨events, e | model⟩
  · simp only [recompile, bind_eq, ask, hmodel, commit, Simulation.recompile]
    rfl
  · simp only [recompile, bind_eq, ask, hmodel, commit, Simulation.recompile]
    exact congrArg (fun events => ((⟨events, .ok ()⟩ : Logged RequestError Unit), { s with model }))
      (List.append_nil _).symm

theorem setStateVector_eq_commit (values : List Float) :
    setStateVector values = commit fun s => .ofResult ((s.setStateVector values).map ((), ·)) := by
  funext s
  by_cases h : values.length = s.model.variableNames.length
  · simp only [setStateVector, read_bind, commit, Simulation.setStateVector, if_pos h]
    rfl
  · simp only [setStateVector, read_bind, commit, Simulation.setStateVector, if_neg h]
    rfl

theorem stepUntil_eq_ofRun (goal dt : Float) (limit : Nat) (s : Simulation) :
    stepUntil .usual goal dt limit s = ofRun (Simulation.advance goal dt limit s) := by
  induction limit generalizing s with
  | zero =>
    unfold Simulation.advance
    by_cases ahead : s.time < goal
    · rw [stepUntil_zero ahead, if_pos ahead]
      rfl
    · rw [stepUntil_of_not_lt 0 ahead, if_neg ahead]
      rfl
  | succ limit ih =>
    unfold Simulation.advance
    by_cases ahead : s.time < goal
    · rw [stepUntil_succ limit ahead, if_pos ahead, step_eq_commit]
      rcases hstep : s.step dt with ⟨events, e | ⟨state, next⟩⟩
      · simp only [bind_eq, commit, hstep]
        rfl
      · -- The steps that follow are a run from the simulation behind the first.
        simp only [bind_eq, commit, hstep, afterFirst, ih, ofRun, Run.afterStep]
        rcases Simulation.advance goal dt limit next with ⟨last, later, _ | e | states⟩
        · simp [pure_apply]
        · simp [Except.map]
        · simp [Except.map, pure_apply]
    · rw [stepUntil_of_not_lt _ ahead, if_neg ahead]
      rfl

theorem integrate_eq_ofRun (goal dt : Float) (limit : Nat) (s : Simulation) :
    integrate .usual limit goal dt s = ofRun (s.integrate limit goal dt) := by
  unfold integrate Simulation.integrate
  split
  · exact stepUntil_eq_ofRun goal dt limit s
  · rfl

end OdeSystem.Session
