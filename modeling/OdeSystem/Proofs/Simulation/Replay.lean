import OdeSystem.Proofs.Simulation.Session

/-!
A reset forgets the past. What it returns to is made of the model, the settings, the initial state and the start time,
and most work on a simulation leaves all of these as they are, also where it fails half-way: a reset behind it returns
to what a reset before it would have returned to. After such work and a reset, a simulation answers like a new one.
-/

namespace OdeSystem

namespace Session

variable {α β : Type} {x : Session α} {f : α → Session β} {rule : Rule}

/-! ### What a reset returns to -/

/-- Work, failed or not, behind which a reset returns to the same as before it. -/
def KeepsOrigin (x : Session α) : Prop := ∀ s, (x s).2.reset = s.reset

theorem Reads.keepsOrigin (hx : Reads x) : KeepsOrigin x := fun s => congrArg Simulation.reset (hx s)

theorem keepsOrigin_write {f : Simulation → Simulation} (h : ∀ s, (f s).reset = s.reset) : KeepsOrigin (write f) := h

theorem KeepsOrigin.bind (hx : KeepsOrigin x) (hf : ∀ a, KeepsOrigin (f a)) : KeepsOrigin (x >>= f) := by
  intro s
  rcases bind_cases x f s with ⟨-, -, -, hs⟩ | ⟨a, -, -, hs⟩
  · rw [hs]
    exact hx s
  · rw [hs]
    exact (hf a _).trans (hx s)

theorem KeepsOrigin.map {g : α → β} (hx : KeepsOrigin x) : KeepsOrigin (g <$> x) := hx.bind fun _ _ => rfl

theorem keepsOrigin_step (rule : Rule) (dt : Float) : KeepsOrigin (step rule dt) := by
  intro s
  rcases step_cases rule dt s with ⟨-, -, -, hs⟩ | ⟨next, -, -, hs⟩
  · rw [hs]
  · rw [hs]
    rfl

theorem keepsOrigin_stepUntil (rule : Rule) (goal dt : Float) (limit : Nat) :
    KeepsOrigin (stepUntil rule goal dt limit) := by
  induction limit with
  | zero =>
    intro s
    by_cases ahead : s.time < goal
    · rw [stepUntil_zero ahead]
    · rw [stepUntil_of_not_lt 0 ahead]
  | succ limit ih =>
    intro s
    by_cases ahead : s.time < goal
    · rw [stepUntil_succ limit ahead]
      exact (keepsOrigin_step rule dt).bind (fun state => ih.bind fun _ _ => rfl) s
    · rw [stepUntil_of_not_lt _ ahead]

theorem keepsOrigin_integrate (rule : Rule) (limit : Nat) (goal dt : Float) :
    KeepsOrigin (integrate rule limit goal dt) := by
  unfold integrate
  split
  · exact keepsOrigin_stepUntil rule goal dt limit
  · exact (reads_ask _).keepsOrigin

theorem keepsOrigin_setStateVector (values : List Float) : KeepsOrigin (setStateVector values) := by
  refine (reads_ask _).keepsOrigin.bind fun names => ?_
  split
  · exact keepsOrigin_write fun _ => rfl
  · exact (reads_ask _).keepsOrigin

end Session

/-! ### Requests one after the other -/

/-- Whether a request leaves alone what a reset returns to: all do but those that replace the equations, the integrator
or the start time. -/
def Request.keepsOrigin : Request → Bool
  | .setStartTime _ | .setIntegrator _ | .recompile _ => false
  | .ask _ | .step _ | .integrate .. | .setState .. | .setStateVector _ | .setTime _ | .reset => true

theorem Request.keepsOrigin_work {request : Request} (h : request.keepsOrigin = true) (rule : Rule) (limit : Nat) :
    Session.KeepsOrigin (request.work rule limit) := by
  cases request with
  | ask question => exact (Session.reads_ask _).keepsOrigin
  | step dt => exact .map (Session.keepsOrigin_step rule dt)
  | integrate goal dt => exact .map (Session.keepsOrigin_integrate rule limit goal dt)
  | setState state time => exact .map (Session.keepsOrigin_write fun _ => rfl)
  | setStateVector values => exact .map (Session.keepsOrigin_setStateVector values)
  | setTime time => exact .map (Session.keepsOrigin_write fun _ => rfl)
  | reset => exact .map (Session.keepsOrigin_write fun _ => rfl)
  | setStartTime time => cases h
  | setIntegrator integrator => cases h
  | recompile inputs => cases h

/-! ### What a simulation is built from -/

theorem Model.inputs_of_compile {isFunction : String → Bool} {options : Options} {inputs : List WrittenEquation}
    {m : Model} (h : (Model.compile isFunction options inputs).result = .ok m) : m.inputs = inputs := by
  obtain ⟨aliases, -, h⟩ := Logged.bind_eq_ok.mp h
  obtain ⟨⟨definitions, aliases'⟩, -, h⟩ := Logged.bind_eq_ok.mp h
  obtain ⟨-, -, h⟩ := Logged.bind_eq_ok.mp h
  cases h
  rfl

namespace Simulation

variable {rule : Rule} {limit : Nat} {settings : Settings} {inputs : List WrittenEquation} {s : Simulation}
  {earlier : List Request}

/-- The settings from which a simulation could be built as a reset leaves it. -/
def origin (s : Simulation) : Settings :=
  { isFunction := s.isFunction, options := s.options, integrator := s.integrator, initialState := s.initialState,
    startTime := s.startTime }

/-- A new simulation is one that has just been reset, and it tells what it has been built from. -/
theorem build_eq_ok (h : (build settings inputs).result = .ok s) :
    s.reset = s ∧ s.origin = settings ∧ s.model.inputs = inputs := by
  obtain ⟨model, hmodel, hs⟩ := Logged.bind_eq_ok.mp h
  cases hs
  refine ⟨rfl, rfl, ?_⟩
  cases hcompile : (Model.compile settings.isFunction settings.options inputs).result with
  | error e =>
    rw [Logged.result_mapError, hcompile] at hmodel
    cases hmodel
  | ok m =>
    rw [Logged.result_mapError, hcompile] at hmodel
    cases hmodel
    exact Model.inputs_of_compile hcompile

/-! ### Runs of requests -/

theorem reset_serve (kept : ∀ request ∈ earlier, request.keepsOrigin = true) (s : Simulation) :
    (serve rule limit earlier s).2.reset = s.reset := by
  induction earlier generalizing s with
  | nil => rfl
  | cons request rest ih =>
    calc (serve rule limit rest (request.work rule limit s).2).2.reset
        = (request.work rule limit s).2.reset := ih (fun r hr => kept r (List.mem_cons_of_mem _ hr)) _
      _ = s.reset := Request.keepsOrigin_work (kept request (List.mem_cons_self ..)) rule limit s

theorem serve_append (earlier later : List Request) (s : Simulation) :
    serve rule limit (earlier ++ later) s =
      ((serve rule limit earlier s).1 ++ (serve rule limit later (serve rule limit earlier s).2).1,
        (serve rule limit later (serve rule limit earlier s).2).2) := by
  induction earlier generalizing s with
  | nil => rfl
  | cons request rest ih => simp only [List.cons_append, serve, ih]

/-- After requests that leave its origin alone, and a reset, a simulation is built from what it was built from at first,
and to all further requests it gives what a new simulation of these equations and settings gives. -/
theorem reset_replays (built : (build settings inputs).result = .ok s)
    (kept : ∀ request ∈ earlier, request.keepsOrigin = true) (rule : Rule) (limit : Nat) :
    ∃ reached fresh, (serve rule limit (earlier ++ [.reset]) s).2 = reached ∧ reached.origin = settings ∧
      reached.model.inputs = inputs ∧ (build reached.origin reached.model.inputs).result = .ok fresh ∧
      ∀ later, serve rule limit later reached = serve rule limit later fresh := by
  obtain ⟨hnew, horigin, hinputs⟩ := build_eq_ok built
  have hreached : (serve rule limit (earlier ++ [.reset]) s).2 = s := by
    rw [serve_append]
    calc (serve rule limit earlier s).2.reset
        = s.reset := reset_serve kept s
      _ = s := hnew
  refine ⟨s, s, hreached, horigin, hinputs, ?_, fun later => rfl⟩
  rw [horigin, hinputs]
  exact built

/-- An integration that fails behind its first step, a question without an answer and a vector of the wrong length. -/
theorem reset_replays_after_failures :
    ∃ s reached fresh,
      (build { Settings.usual with initialState := .ofList [("x", 2)], startTime := 0.5 }
        (["dx/dt = if/**/(t < 1, 1, true)"].map .ofText)).result = .ok s ∧
      (∀ answer ∈ (serve .usual 9 [.integrate 3 0.5, .ask (.valueOf "y"), .setStateVector [1, 2]] s).1,
        ∃ e, answer.result = .error e) ∧
      ((serve .usual 9 [.integrate 3 0.5, .ask (.valueOf "y"), .setStateVector [1, 2]] s).2.time == 1) = true ∧
      (serve .usual 9 [.integrate 3 0.5, .ask (.valueOf "y"), .setStateVector [1, 2], .reset] s).2 = reached ∧
      (build reached.origin reached.model.inputs).result = .ok fresh ∧
      ∀ later, serve .usual 9 later reached = serve .usual 9 later fresh := by
  have hbuilt : (build { Settings.usual with initialState := .ofList [("x", 2)], startTime := 0.5 }
      (["dx/dt = if/**/(t < 1, 1, true)"].map .ofText)).result.toOption.any (fun s =>
        (serve .usual 9 [.integrate 3 0.5, .ask (.valueOf "y"), .setStateVector [1, 2]] s).1.all
            (fun answer : Logged RequestError Answer => answer.result.toOption.isNone) &&
          (serve .usual 9 [.integrate 3 0.5, .ask (.valueOf "y"), .setStateVector [1, 2]] s).2.time == 1) = true := by
    decide +kernel
  obtain ⟨s, hs, hfound⟩ := exists_ok_of_any hbuilt
  rw [Bool.and_eq_true, List.all_eq_true] at hfound
  obtain ⟨hfailed, hmoved⟩ := hfound
  have hkept : ∀ request ∈ [Request.integrate 3 0.5, .ask (.valueOf "y"), .setStateVector [1, 2]],
      request.keepsOrigin = true := by
    simp [Request.keepsOrigin]
  obtain ⟨reached, fresh, hreached, -, -, hfresh, hsame⟩ := reset_replays hs hkept .usual 9
  exact ⟨s, reached, fresh, hs, fun answer h => exists_error_of_isNone (hfailed answer h), hmoved, hreached, hfresh,
    hsame⟩

end Simulation

end OdeSystem
