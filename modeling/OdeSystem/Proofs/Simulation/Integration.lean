import OdeSystem.Proofs.Number.Rank
import OdeSystem.Proofs.Simulation.Session

/-!
Integrations without their limits. An integration that ends within some limit of steps ends alike within every larger
one, so there is a relation of the simulation before it, what it gives and the simulation behind it. It ends with a
trajectory exactly when so many steps succeed and the time is before the goal until the last of them has been made; and
an integration to a nearer goal and then on to the goal is the one to the goal.
-/

namespace OdeSystem.Session

variable {rule : Rule} {goal dt : Float} {s : Simulation}

/-- An integration ends with the result and leaves the simulation behind, when its limit is large enough. -/
def Ends (rule : Rule) (goal dt : Float) (s : Simulation) (result : Except RequestError (List State))
    (last : Simulation) : Prop :=
  ∃ least, ∀ limit, least ≤ limit →
    (integrate rule limit goal dt s).1.result = result.map some ∧ (integrate rule limit goal dt s).2 = last

/-! ### Steps to a goal -/

/-- Steps while the time is before the goal: what they give, and the simulation behind them. -/
inductive Leads (rule : Rule) (goal dt : Float) : Simulation → Except RequestError (List State) → Simulation → Prop
  | reached {s : Simulation} (h : ¬ s.time < goal) : Leads rule goal dt s (.ok []) s
  | failed {s : Simulation} {e : RequestError} (ahead : s.time < goal) (h : (step rule dt s).1.result = .error e) :
      Leads rule goal dt s (.error e) s
  | moved {s last : Simulation} {state : State} {result : Except RequestError (List State)} (ahead : s.time < goal)
      (h : (step rule dt s).1.result = .ok state) (rest : Leads rule goal dt (step rule dt s).2 result last) :
      Leads rule goal dt s (result.map (state :: ·)) last

theorem map_map_cons (state : State) (result : Except RequestError (List State)) :
    (result.map (state :: ·)).map some = (result.map some).map (Option.map (state :: ·)) := by
  cases result <;> rfl

theorem stepUntil_moved {state : State} (limit : Nat) (ahead : s.time < goal)
    (h : (step rule dt s).1.result = .ok state) :
    (stepUntil rule goal dt (limit + 1) s).1.result =
        (stepUntil rule goal dt limit (step rule dt s).2).1.result.map (Option.map (state :: ·)) ∧
      (stepUntil rule goal dt (limit + 1) s).2 = (stepUntil rule goal dt limit (step rule dt s).2).2 := by
  rw [stepUntil_succ limit ahead]
  obtain ⟨hresult, hbehind⟩ := bind_of_ok (f := afterFirst rule goal dt limit) h
  rcases bind_cases (stepUntil rule goal dt limit) (fun states => pure (states.map (state :: ·))) (step rule dt s).2 with
    ⟨e, he, hrest, hlast⟩ | ⟨states, hstates, hrest, hlast⟩
  · rw [he]
    exact ⟨hresult.trans hrest, hbehind.trans hlast⟩
  · rw [hstates]
    exact ⟨hresult.trans hrest, hbehind.trans hlast⟩

theorem stepUntil_failed {e : RequestError} (limit : Nat) (ahead : s.time < goal)
    (h : (step rule dt s).1.result = .error e) :
    (stepUntil rule goal dt (limit + 1) s).1.result = .error e ∧ (stepUntil rule goal dt (limit + 1) s).2 = s := by
  rw [stepUntil_succ limit ahead]
  obtain ⟨hresult, hbehind⟩ := bind_of_error (f := afterFirst rule goal dt limit) h
  exact ⟨hresult, hbehind.trans (atomic_step rule dt s e h)⟩

theorem Leads.stepUntil {result : Except RequestError (List State)} {last : Simulation}
    (h : Leads rule goal dt s result last) :
    ∃ least, ∀ limit, least ≤ limit →
      (stepUntil rule goal dt limit s).1.result = result.map some ∧ (stepUntil rule goal dt limit s).2 = last := by
  induction h with
  | reached h =>
    refine ⟨0, fun limit _ => ?_⟩
    rw [stepUntil_of_not_lt limit h]
    exact ⟨rfl, rfl⟩
  | failed ahead h =>
    refine ⟨1, fun limit hlimit => ?_⟩
    obtain ⟨fewer, rfl⟩ := Nat.exists_eq_add_of_le' hlimit
    exact stepUntil_failed fewer ahead h
  | moved ahead h _ ih =>
    obtain ⟨least, hleast⟩ := ih
    refine ⟨least + 1, fun limit hlimit => ?_⟩
    obtain ⟨fewer, rfl⟩ := Nat.exists_eq_add_of_le' (Nat.le_of_add_left_le hlimit)
    obtain ⟨hresult, hlast⟩ := hleast fewer (by omega)
    obtain ⟨hmoved, hbehind⟩ := stepUntil_moved fewer ahead h
    rw [hmoved, hbehind, hresult, map_map_cons]
    exact ⟨rfl, hlast⟩

theorem map_some_injective {result result' : Except RequestError (List State)}
    (h : result.map some = result'.map some) : result = result' := by
  cases result <;> cases result' <;> cases h <;> rfl

theorem exists_rest {state : State} {found : Except RequestError (Option (List State))}
    {result : Except RequestError (List State)} (h : found.map (Option.map (state :: ·)) = result.map some) :
    ∃ rest : Except RequestError (List State), found = rest.map some ∧ result = rest.map (state :: ·) := by
  rcases found with e | _ | states
  · exact ⟨.error e, rfl, map_some_injective h.symm⟩
  · cases result <;> cases h
  · exact ⟨.ok states, rfl, map_some_injective h.symm⟩

theorem leads_of_stepUntil {limit : Nat} {result : Except RequestError (List State)}
    (h : (stepUntil rule goal dt limit s).1.result = result.map some) :
    Leads rule goal dt s result (stepUntil rule goal dt limit s).2 := by
  induction limit generalizing s result with
  | zero =>
    by_cases ahead : s.time < goal
    · rw [stepUntil_zero ahead] at h
      cases result <;> cases h
    · rw [stepUntil_of_not_lt 0 ahead] at h ⊢
      obtain rfl : .ok [] = result := map_some_injective h
      exact .reached ahead
  | succ limit ih =>
    by_cases ahead : s.time < goal
    · rcases step_cases rule dt s with ⟨cause, -, hstep, -⟩ | ⟨next, -, hstep, -⟩
      · obtain ⟨hresult, hbehind⟩ := stepUntil_failed limit ahead hstep
        rw [hresult] at h
        rw [hbehind]
        obtain rfl : .error _ = result := map_some_injective h
        exact .failed ahead hstep
      · obtain ⟨hresult, hbehind⟩ := stepUntil_moved limit ahead hstep
        rw [hresult] at h
        rw [hbehind]
        obtain ⟨rest, hrest, rfl⟩ := exists_rest h
        exact .moved ahead hstep (ih hrest)
    · rw [stepUntil_of_not_lt _ ahead] at h ⊢
      obtain rfl : .ok [] = result := map_some_injective h
      exact .reached ahead

/-- With a time step that is admitted, an integration ends as the steps to its goal do. -/
theorem ends_iff_leads (admitted : Simulation.admitsStep dt = true) {result : Except RequestError (List State)}
    {last : Simulation} : Ends rule goal dt s result last ↔ Leads rule goal dt s result last := by
  have hintegrate (limit : Nat) : integrate rule limit goal dt = Session.stepUntil rule goal dt limit :=
    if_pos admitted
  simp only [Ends, hintegrate]
  constructor
  · rintro ⟨least, hleast⟩
    obtain ⟨hresult, hlast⟩ := hleast least le_rfl
    exact hlast ▸ leads_of_stepUntil hresult
  · exact Leads.stepUntil

/-- One limit that is large enough is enough to know how an integration ends. -/
theorem ends_of_integrate (admitted : Simulation.admitsStep dt = true) {limit : Nat}
    {result : Except RequestError (List State)}
    (h : (integrate rule limit goal dt s).1.result = result.map some) :
    Ends rule goal dt s result (integrate rule limit goal dt s).2 := by
  rw [ends_iff_leads admitted]
  unfold integrate at h ⊢
  rw [if_pos admitted] at h ⊢
  exact leads_of_stepUntil h

/-! ### The number of steps -/

/-- When several steps succeed, the first of them does. -/
theorem exists_first_step {count : Nat} {states : List State} (h : (stepTimes rule dt (count + 1) s).1.result = .ok states) :
    ∃ state rest, (step rule dt s).1.result = .ok state ∧
      (stepTimes rule dt count (step rule dt s).2).1.result = .ok rest ∧ states = state :: rest := by
  rcases step_cases rule dt s with ⟨cause, -, hstep, -⟩ | ⟨state, -, hstep, -⟩
  · cases (bind_of_error (f := fun state => do
      let states ← stepTimes rule dt count
      pure (state :: states)) hstep).1.symm.trans h
  · rw [(stepTimes_moved count hstep).1] at h
    obtain ⟨rest, hrest, rfl⟩ := exists_of_map_eq_ok h
    exact ⟨state, rest, hstep, hrest, rfl⟩

theorem leads_iff_stepTimes {states : List State} {last : Simulation} :
    Leads rule goal dt s (.ok states) last ↔
      ∃ count, (stepTimes rule dt count s).1.result = .ok states ∧ (stepTimes rule dt count s).2 = last ∧
        ¬ last.time < goal ∧ ∀ fewer < count, (stepTimes rule dt fewer s).2.time < goal := by
  constructor
  · intro h
    generalize hresult : Except.ok states = result at h
    induction h generalizing states with
    | reached h =>
      cases hresult
      exact ⟨0, rfl, rfl, h, nofun⟩
    | failed => cases hresult
    | moved ahead h _ ih =>
      obtain ⟨rest, hrest, rfl⟩ := exists_of_map_eq_ok hresult.symm
      obtain ⟨count, hstates, hlast, hreached, hbefore⟩ := ih hrest.symm
      obtain ⟨hmoved, hbehind⟩ := stepTimes_moved count h
      refine ⟨count + 1, hmoved.trans (congrArg _ hstates), hbehind.trans hlast, hreached, fun fewer hfewer => ?_⟩
      cases fewer with
      | zero => exact ahead
      | succ fewer =>
        rw [(stepTimes_moved fewer h).2]
        exact hbefore fewer (by omega)
  · rintro ⟨count, hstates, rfl, hreached, hbefore⟩
    induction count generalizing s states with
    | zero =>
      cases hstates
      exact .reached hreached
    | succ count ih =>
      obtain ⟨state, rest, hstep, hrest, rfl⟩ := exists_first_step hstates
      have hbehind (fewer : Nat) := (stepTimes_moved fewer hstep).2
      rw [hbehind] at hreached ⊢
      have ahead : s.time < goal := hbefore 0 (by omega)
      refine Leads.moved ahead hstep (ih hrest hreached fun fewer hfewer => ?_)
      rw [← hbehind]
      exact hbefore (fewer + 1) (by omega)

/-! ### Two goals -/

section
variable {nearer : Float} {first : List State} {middle last : Simulation} {result : Except RequestError (List State)}

theorem map_append_nil (result : Except RequestError (List State)) : result = result.map ([] ++ ·) := by
  cases result <;> rfl

theorem map_append_cons (state : State) (first : List State) (result : Except RequestError (List State)) :
    (result.map (first ++ ·)).map (state :: ·) = result.map (state :: first ++ ·) := by
  cases result <;> rfl

/-- A step that fails before the nearer goal fails on the way to the goal. -/
theorem Leads.error_to_goal (hle : nearer ≤ goal) {e : RequestError} (h : Leads rule nearer dt s (.error e) last) :
    Leads rule goal dt s (.error e) last := by
  generalize hresult : Except.error e = result at h
  induction h with
  | reached => cases hresult
  | failed ahead h =>
    cases hresult
    exact .failed (Number.lt_of_lt_of_le ahead hle) h
  | moved ahead h _ ih =>
    cases map_eq_error hresult.symm
    exact Leads.moved (Number.lt_of_lt_of_le ahead hle) h (ih rfl)

/-- The way from the nearer goal to the goal continues the one to the nearer goal. -/
theorem Leads.append (hle : nearer ≤ goal) (h : Leads rule nearer dt s (.ok first) middle)
    (rest : Leads rule goal dt middle result last) : Leads rule goal dt s (result.map (first ++ ·)) last := by
  generalize hfirst : Except.ok first = found at h
  induction h generalizing first with
  | reached =>
    cases hfirst
    rw [← map_append_nil]
    exact rest
  | failed => cases hfirst
  | @moved s last state found ahead h _ ih =>
    obtain ⟨others, hothers, rfl⟩ := exists_of_map_eq_ok hfirst.symm
    rw [← map_append_cons]
    exact .moved (Number.lt_of_lt_of_le ahead hle) h (ih rest hothers.symm)

/-- On the way to the goal, the nearer goal is reached first, or a step fails before. -/
theorem Leads.through (hle : nearer ≤ goal) (h : Leads rule goal dt s result last) :
    (∃ e, result = .error e ∧ Leads rule nearer dt s (.error e) last) ∨
      ∃ first middle rest, Leads rule nearer dt s (.ok first) middle ∧ Leads rule goal dt middle rest last ∧
        result = rest.map (first ++ ·) := by
  induction h with
  | @reached s h =>
    exact .inr ⟨[], s, .ok [], .reached fun ahead => h (Number.lt_of_lt_of_le ahead hle), .reached h, rfl⟩
  | @failed s e ahead h =>
    by_cases near : s.time < nearer
    · exact .inl ⟨e, rfl, .failed near h⟩
    · exact .inr ⟨[], s, .error e, .reached near, .failed ahead h, rfl⟩
  | @moved s last state result ahead h behind ih =>
    by_cases near : s.time < nearer
    · rcases ih with ⟨e, rfl, herror⟩ | ⟨first, middle, rest, hfirst, hrest, rfl⟩
      · exact .inl ⟨e, rfl, .moved near h herror⟩
      · exact .inr ⟨state :: first, middle, rest, .moved near h hfirst, hrest, map_append_cons state first rest⟩
    · exact .inr ⟨[], s, _, .reached near, .moved ahead h behind, map_append_nil _⟩

end

/-- An integration ends with a trajectory exactly when that is of the least number of steps after which the time is not
before the goal. To a nearer goal first and then to the goal, it ends as one to the goal alone: with both trajectories
one behind the other, or with the failure of a step before the nearer goal or behind it. -/
theorem integrate_iterates (admitted : Simulation.admitsStep dt = true) (rule : Rule) (s : Simulation) :
    (∀ goal states last, Ends rule goal dt s (.ok states) last ↔
      ∃ count, (stepTimes rule dt count s).1.result = .ok states ∧ (stepTimes rule dt count s).2 = last ∧
        ¬ last.time < goal ∧ ∀ fewer < count, (stepTimes rule dt fewer s).2.time < goal) ∧
    ∀ nearer goal : Float, nearer ≤ goal → ∀ result last, Ends rule goal dt s result last ↔
      (∃ e, result = .error e ∧ Ends rule nearer dt s (.error e) last) ∨
      ∃ first middle rest, Ends rule nearer dt s (.ok first) middle ∧ Ends rule goal dt middle rest last ∧
        result = rest.map (first ++ ·) := by
  simp only [ends_iff_leads admitted]
  refine ⟨fun goal states last => leads_iff_stepTimes, fun nearer goal hle result last => ⟨Leads.through hle, ?_⟩⟩
  rintro (⟨e, rfl, herror⟩ | ⟨first, middle, rest, hfirst, hrest, rfl⟩)
  · exact herror.error_to_goal hle
  · exact hfirst.append hle hrest

/-- Two steps to time one, and on to time three the failure of the third. -/
theorem integrate_iterates_third_step :
    ∃ s first middle last e,
      (Simulation.ofEquations (["dx/dt = if/**/(t < 1, 1, true)"].map .ofText)).result = .ok s ∧
      Ends .usual 1 0.5 s (.ok first) middle ∧ first.length = 2 ∧
      (∃ count, (stepTimes .usual 0.5 count s).1.result = .ok first ∧ ¬ middle.time < 1 ∧
        ∀ fewer < count, (stepTimes .usual 0.5 fewer s).2.time < 1) ∧
      Ends .usual 3 0.5 middle (.error e) last ∧ Ends .usual 3 0.5 s (.error e) last ∧ (last.time == 1) = true := by
  have hbuilt : (Simulation.ofEquations (["dx/dt = if/**/(t < 1, 1, true)"].map .ofText)).result.toOption.any (fun s =>
      (integrate .usual 9 1 0.5 s).1.result.toOption.any (fun states : Option (List State) =>
          states.any fun states => states.length == 2) &&
        (integrate .usual 9 3 0.5 (integrate .usual 9 1 0.5 s).2).1.result.toOption.isNone &&
        (integrate .usual 9 3 0.5 (integrate .usual 9 1 0.5 s).2).2.time == 1) = true := by
    decide +kernel
  obtain ⟨s, hs, hfound⟩ := exists_ok_of_any hbuilt
  simp only [Bool.and_eq_true] at hfound
  obtain ⟨⟨hfirst, hfails⟩, hone⟩ := hfound
  obtain ⟨states, hstates, hlength⟩ := exists_ok_of_any hfirst
  obtain ⟨first, rfl, hlength⟩ := (Option.any_eq_true _ _).mp hlength
  obtain ⟨e, he⟩ := exists_error_of_isNone hfails
  have admitted : Simulation.admitsStep 0.5 = true := by decide +kernel
  have hnear : Ends .usual 1 0.5 s (.ok first) _ := ends_of_integrate admitted hstates
  have hrest : Ends .usual 3 0.5 _ (.error e) _ := ends_of_integrate admitted he
  obtain ⟨htimes, hthrough⟩ := integrate_iterates admitted .usual s
  obtain ⟨count, hcount, -, hreached, hbefore⟩ := (htimes 1 _ _).mp hnear
  exact ⟨s, first, _, _, e, hs, hnear, beq_iff_eq.mp hlength, ⟨count, hcount, hreached, hbefore⟩, hrest,
    (hthrough 1 3 (by decide +kernel) _ _).mpr (.inr ⟨first, _, _, hnear, hrest, rfl⟩), hone⟩

end OdeSystem.Session
