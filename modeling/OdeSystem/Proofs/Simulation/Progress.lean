import OdeSystem.Proofs.Number.Sum
import OdeSystem.Proofs.Simulation.Integration
import OdeSystem.Proofs.Integrator

/-!
Whether an integration comes to an end. A time step that is admitted leads forward, but the time behind it is rounded, and
a time that is large enough is rounded to where it was: then it stays there for ever. So an integration whose steps
succeed ends exactly when no time that it reaches before its goal swallows the step; and none does as long as the times
are less than so many steps from zero as a number has digits for.
-/

namespace OdeSystem

open Number

/-- The time so many time steps later. -/
def timeAfter (time dt : Float) (count : Nat) : Float := (· + dt)^[count] time

theorem timeAfter_succ (time dt : Float) (count : Nat) :
    timeAfter time dt (count + 1) = timeAfter time dt count + dt :=
  Function.iterate_succ_apply' _ count time

theorem timeAfter_add (time dt : Float) (count more : Nat) :
    timeAfter (timeAfter time dt count) dt more = timeAfter time dt (more + count) :=
  (Function.iterate_add_apply _ more count time).symm

/-! ### Times -/

section
variable {time goal dt : Float} {a b : Int}

theorem rank_zero : rank 0.0 = some 0 := by decide +kernel

/-- A time step that is admitted leads forward. -/
theorem exists_rank_of_admitsStep (admitted : Simulation.admitsStep dt = true) :
    isFinite dt = true ∧ ∃ b, rank dt = some b ∧ 0 < b := by
  rw [Simulation.admitsStep, Bool.and_eq_true, decide_eq_true_iff] at admitted
  obtain ⟨zero, b, hzero, hb, hpos⟩ := lt_iff.mp admitted.1
  cases hzero.symm.trans rank_zero
  exact ⟨admitted.2, b, hb, hpos⟩

theorem rank_timeAfter (admitted : Simulation.admitsStep dt = true) (ha : rank time = some a) (count : Nat) :
    ∃ c, rank (timeAfter time dt count) = some c ∧ a ≤ c := by
  obtain ⟨hd, b, hb, hpos⟩ := exists_rank_of_admitsStep admitted
  induction count with
  | zero => exact ⟨a, ha, le_rfl⟩
  | succ count ih =>
    obtain ⟨c, hc, hac⟩ := ih
    obtain ⟨c', hc', hcc', -⟩ := le_rank_add hc hd hb hpos
    exact ⟨c', timeAfter_succ time dt count ▸ hc', hac.trans hcc'⟩

/-- The times before one that is before the goal are before the goal. -/
theorem timeAfter_lt_of_le (admitted : Simulation.admitsStep dt = true) (ha : rank time = some a) {count fewer : Nat}
    (hle : fewer ≤ count) (h : timeAfter time dt count < goal) : timeAfter time dt fewer < goal := by
  obtain ⟨c, hc, -⟩ := rank_timeAfter admitted ha fewer
  obtain ⟨more, rfl⟩ := Nat.exists_eq_add_of_le' hle
  obtain ⟨c', hc', hle⟩ := rank_timeAfter admitted hc more
  rw [timeAfter_add] at hc'
  obtain ⟨c'', g, hc'', hg, hlt⟩ := lt_iff.mp h
  cases hc'.symm.trans hc''
  exact lt_iff.mpr ⟨c, g, hc, hg, hle.trans_lt hlt⟩

/-- A time that swallows the step is the last one that is reached. -/
theorem rank_timeAfter_of_not_lt (admitted : Simulation.admitsStep dt = true) {count : Nat} {c : Int}
    (hc : rank (timeAfter time dt count) = some c)
    (stays : ¬ timeAfter time dt count < timeAfter time dt (count + 1)) (more : Nat) :
    rank (timeAfter time dt (count + more)) = some c := by
  obtain ⟨hd, b, hb, hpos⟩ := exists_rank_of_admitsStep admitted
  have hnext : rank (timeAfter time dt count + dt) = some c := by
    obtain ⟨c', hc', hle, -⟩ := le_rank_add hc hd hb hpos
    have hge : ¬ c < c' := fun hlt => stays (lt_iff.mpr ⟨c, c', hc, timeAfter_succ time dt count ▸ hc', hlt⟩)
    rw [hc', show c' = c by omega]
  induction more with
  | zero => exact hc
  | succ more ih =>
    rw [← Nat.add_assoc, timeAfter_succ, rank_add_congr ih hc hd]
    exact hnext

/-- Times that go on and on leave every goal behind. -/
theorem exists_not_lt_iff (admitted : Simulation.admitsStep dt = true) (ha : rank time = some a) :
    (∃ count, ¬ timeAfter time dt count < goal) ↔
      ∀ count, timeAfter time dt count < goal → timeAfter time dt count < timeAfter time dt (count + 1) := by
  constructor
  · rintro ⟨reached, hreached⟩ count hcount
    by_contra stays
    obtain ⟨c, g, hc, hg, hlt⟩ := lt_iff.mp hcount
    rcases Nat.le_total reached count with hle | hle
    · exact hreached (timeAfter_lt_of_le admitted ha hle hcount)
    · obtain ⟨more, rfl⟩ := Nat.exists_eq_add_of_le hle
      exact hreached (lt_iff.mpr ⟨c, g, rank_timeAfter_of_not_lt admitted hc stays more, hg, hlt⟩)
  · intro forward
    by_contra! ahead
    -- Each step leads to the next place at least, so the places are not bounded by that of the goal.
    have hclimb (count : Nat) : ∃ c, rank (timeAfter time dt count) = some c ∧ a + count ≤ c := by
      induction count with
      | zero => exact ⟨a, ha, by omega⟩
      | succ count ih =>
        obtain ⟨c, hc, hle⟩ := ih
        obtain ⟨c', c'', hc', hc'', hlt⟩ := lt_iff.mp (forward count (ahead count))
        cases hc.symm.trans hc'
        exact ⟨c'', hc'', by omega⟩
    obtain ⟨-, g, -, hg, -⟩ := lt_iff.mp (ahead 0)
    obtain ⟨c, hc, hle⟩ := hclimb (g - a).toNat
    obtain ⟨c', g', hc', hg', hlt⟩ := lt_iff.mp (ahead (g - a).toNat)
    cases hc.symm.trans hc'
    cases hg.symm.trans hg'
    omega

/-- A step is not swallowed between a time and a goal that are not too far from zero for it. -/
theorem exists_not_lt_of_small (admitted : Simulation.admitsStep dt = true) (finite : isFinite time = true) {g : Int}
    (ha : rank time = some a) (hb : rank dt = some b) (hg : rank goal = some g) (hlow : -(2 ^ 53 * b) < a)
    (hhigh : g ≤ 2 ^ 53 * b) : ∃ count, ¬ timeAfter time dt count < goal := by
  obtain ⟨hd, b', hb', hpos⟩ := exists_rank_of_admitsStep admitted
  cases hb.symm.trans hb'
  obtain ⟨a', ha', -, habs⟩ := exists_rank_of_isFinite finite
  cases ha.symm.trans ha'
  rw [abs_lt] at habs
  refine (exists_not_lt_iff admitted ha).mpr fun count hcount => ?_
  obtain ⟨c, g', hc, hg', hlt⟩ := lt_iff.mp hcount
  cases hg.symm.trans hg'
  obtain ⟨c', hc', hle⟩ := rank_timeAfter admitted ha count
  cases hc.symm.trans hc'
  obtain ⟨next, hnext, -, hforward⟩ := le_rank_add hc hd hb hpos
  have hfinite : isFinite (timeAfter time dt count) = true := by
    rcases isFinite_or_rank_add hc hd with ⟨h, -⟩ | ⟨hc, -⟩
    · exact h
    · rcases isFinite_or_rank_add hg hd with ⟨-, hg⟩ | ⟨hg, -⟩ <;> rw [Int.abs_eq_natAbs] at hc hg <;> omega
  exact lt_iff.mpr ⟨c, next, hc, timeAfter_succ time dt count ▸ hnext, hforward hfinite (abs_lt.mpr (by omega))⟩

end

namespace Session

variable {rule : Rule} {goal dt : Float} {s : Simulation}

/-! ### Integrations -/

theorem time_stepTimes {count : Nat} {states : List State} (h : (stepTimes rule dt count s).1.result = .ok states) :
    (stepTimes rule dt count s).2.time = timeAfter s.time dt count := by
  induction count generalizing s states with
  | zero => rfl
  | succ count ih =>
    obtain ⟨state, rest, hstep, hrest, -⟩ := exists_first_step h
    rw [(stepTimes_moved count hstep).2, ih hrest]
    rcases step_cases rule dt s with ⟨cause, -, hfailed, -⟩ | ⟨next, -, -, hs⟩
    · cases hfailed.symm.trans hstep
    · rw [hs]
      rfl

/-- Steps that never fail, under an invariant of the simulation that they keep. -/
theorem exists_stepTimes (invariant : Simulation → Prop)
    (keeps : ∀ s, invariant s → ∃ next, (rule s.integrator s dt).result = .ok next ∧
      invariant { s with state := next, time := s.time + dt }) (first : invariant s) (count : Nat) :
    ∃ states, (stepTimes rule dt count s).1.result = .ok states := by
  induction count generalizing s with
  | zero => exact ⟨[], rfl⟩
  | succ count ih =>
    obtain ⟨next, hnext, hkept⟩ := keeps s first
    rcases step_cases rule dt s with ⟨cause, hcause, -, -⟩ | ⟨state, hstate, hstep, hs⟩
    · cases hnext.symm.trans hcause
    · cases hnext.symm.trans hstate
      obtain ⟨states, hstates⟩ := ih (hs ▸ hkept)
      have hmade := (stepTimes_moved count hstep).1
      rw [hstates] at hmade
      exact ⟨next :: states, hmade⟩

theorem exists_ends_iff (admitted : Simulation.admitsStep dt = true)
    (sure : ∀ count, ∃ states, (stepTimes rule dt count s).1.result = .ok states) :
    (∃ states last, Ends rule goal dt s (.ok states) last) ↔ ∃ count, ¬ timeAfter s.time dt count < goal := by
  have htime (count : Nat) : (stepTimes rule dt count s).2.time = timeAfter s.time dt count :=
    (sure count).elim fun _ h => time_stepTimes h
  simp only [ends_iff_leads admitted, leads_iff_stepTimes]
  constructor
  · rintro ⟨states, last, count, hstates, rfl, hreached, -⟩
    exact ⟨count, htime count ▸ hreached⟩
  · intro hreached
    obtain ⟨states, hstates⟩ := sure (Nat.find hreached)
    refine ⟨states, _, Nat.find hreached, hstates, rfl, ?_, fun fewer hfewer => ?_⟩
    · rw [htime]
      exact Nat.find_spec hreached
    · rw [htime]
      exact not_not.mp (Nat.find_min hreached hfewer)

/-- An integration whose steps never fail ends exactly when the step leads on from every time before the goal. It does
when the time and the goal are no more than 2 ^ 53 steps from zero. -/
theorem integrate_ends (admitted : Simulation.admitsStep dt = true) (finite : isFinite s.time = true)
    (sure : ∀ count, ∃ states, (stepTimes rule dt count s).1.result = .ok states) :
    ((∃ states last, Ends rule goal dt s (.ok states) last) ↔
      ∀ count, timeAfter s.time dt count < goal → timeAfter s.time dt count < timeAfter s.time dt (count + 1)) ∧
    ∀ t g d, rank s.time = some t → rank goal = some g → rank dt = some d → -(2 ^ 53 * d) < t → g ≤ 2 ^ 53 * d →
      ∃ states last, Ends rule goal dt s (.ok states) last := by
  rw [exists_ends_iff admitted sure]
  constructor
  · obtain ⟨a, ha, -, -⟩ := exists_rank_of_isFinite finite
    exact exists_not_lt_iff admitted ha
  · intro t g d ht hg hd hlow hhigh
    exact exists_not_lt_of_small admitted finite ht hd hg hlow hhigh

/-- Four quarters to time one. -/
theorem integrate_ends_quarters :
    ∃ s, (Simulation.build { Settings.usual with integrator := .hold } (["dx/dt = 1"].map .ofText)).result = .ok s ∧
      isFinite s.time = true ∧ (∀ count, ∃ states, (stepTimes .usual 0.25 count s).1.result = .ok states) ∧
      (timeAfter s.time 0.25 3 < 1 ∧ ¬ timeAfter s.time 0.25 4 < 1) ∧
      ∃ states last, Ends .usual 1 0.25 s (.ok states) last := by
  have hbuilt : (Simulation.build { Settings.usual with integrator := .hold } (["dx/dt = 1"].map .ofText)).result.toOption.any
      (fun s => s.integrator == .hold && decide (s.time = 0)) = true := by
    decide +kernel
  obtain ⟨s, hs, hfound⟩ := exists_ok_of_any hbuilt
  rw [Bool.and_eq_true, beq_iff_eq, decide_eq_true_iff] at hfound
  obtain ⟨hhold, hzero⟩ := hfound
  have hsure : ∀ count, ∃ states, (stepTimes .usual 0.25 count s).1.result = .ok states :=
    exists_stepTimes (·.integrator = .hold) (fun s hs => ⟨s.state, by rw [Rule.usual, hs]; rfl, hs⟩) hhold
  have hfinite : isFinite s.time = true := by
    rw [hzero]
    decide +kernel
  refine ⟨s, hs, hfinite, hsure, ?_, ?_⟩
  · rw [hzero]
    decide +kernel
  · refine (integrate_ends (by decide +kernel) hfinite hsure).2 0 (2 ^ 1074) (2 ^ 1072) ?_ ?_ ?_ ?_ ?_
    · rw [hzero]
      decide +kernel
    · decide +kernel
    · decide +kernel
    · decide +kernel
    · decide +kernel

/-- Steps that never fail lead to a trajectory, if anywhere. -/
theorem Leads.exists_of_sure {result : Except RequestError (List State)} {last : Simulation}
    (h : Leads rule goal dt s result last)
    (sure : ∀ count, ∃ states, (stepTimes rule dt count s).1.result = .ok states) : ∃ states, result = .ok states := by
  induction h with
  | reached => exact ⟨[], rfl⟩
  | failed ahead hfails =>
    obtain ⟨states, hstates⟩ := sure 1
    obtain ⟨state, -, hstep, -⟩ := exists_first_step hstates
    cases hfails.symm.trans hstep
  | @moved _ _ state _ _ _ _ ih =>
    obtain ⟨states, rfl⟩ := ih fun count => by
      obtain ⟨states, hstates⟩ := sure (count + 1)
      obtain ⟨-, rest, -, hrest, -⟩ := exists_first_step hstates
      exact ⟨rest, hrest⟩
    exact ⟨state :: states, rfl⟩

/-- An integration whose steps never fail and that does not end reaches every limit. -/
theorem integrate_eq_none (admitted : Simulation.admitsStep dt = true)
    (sure : ∀ count, ∃ states, (stepTimes rule dt count s).1.result = .ok states)
    (endless : ¬ ∃ states last, Ends rule goal dt s (.ok states) last) (limit : Nat) :
    (integrate rule limit goal dt s).1.result = .ok none := by
  rcases h : (integrate rule limit goal dt s).1.result with e | _ | states
  · have hends : Ends rule goal dt s (.error e) _ := ends_of_integrate admitted h
    obtain ⟨states, hstates⟩ := ((ends_iff_leads admitted).mp hends).exists_of_sure sure
    cases hstates
  · rfl
  · exact absurd ⟨states, _, ends_of_integrate admitted h⟩ endless

/-- Where the time stands still, steps go on for good if the equations have values that do not depend on the state. -/
theorem exists_stepTimes_still (heuler : s.integrator = .euler) (hstill : s.time + dt = s.time)
    (hunread : ∀ name, ¬ s.model.ReadsState name) (hvalues : s.derivativeValues.result.toOption.isSome = true)
    (count : Nat) : ∃ states, (stepTimes .usual dt count s).1.result = .ok states := by
  obtain ⟨slopes, hslopes⟩ : ∃ slopes, s.derivativeValues.result = .ok slopes := by
    cases h : s.derivativeValues.result with
    | ok slopes => exact ⟨slopes, rfl⟩
    | error e =>
      rw [h] at hvalues
      cases hvalues
  refine exists_stepTimes (fun reached => reached.integrator = .euler ∧ reached.model = s.model ∧ reached.time = s.time)
    ?_ ⟨heuler, rfl, rfl⟩ count
  rintro reached ⟨heuler', hmodel, htime⟩
  have hsame : reached.model.derivativeValues reached.state reached.time = s.model.derivativeValues s.state s.time := by
    rw [hmodel, htime]
    exact Model.derivativeValues_congr fun name hread => absurd hread (hunread name)
  refine ⟨moved dt reached.state slopes, ?_, heuler', hmodel, ?_⟩
  · rw [Rule.usual, heuler']
    refine (result_eulerStep _ _ _ _).trans ?_
    rw [hsame, mapError_eq_ok.mp hslopes]
    rfl
  · show reached.time + dt = s.time
    rw [htime, hstill]

/-- From time 1e16 on, a step of one half leads nowhere. -/
theorem integrate_endless :
    ∃ s, (Simulation.build { Settings.usual with initialState := .ofList [("x", 0)], startTime := 1e16 }
        (["dx/dt = 1"].map .ofText)).result = .ok s ∧
      isFinite s.time = true ∧ isFinite 1.0000000000000002e16 = true ∧ Simulation.admitsStep 0.5 = true ∧
      (∀ count, ∃ states, (stepTimes .usual 0.5 count s).1.result = .ok states) ∧
      ∀ limit, (integrate .usual limit 1.0000000000000002e16 0.5 s).1.result = .ok none := by
  have hbuilt : (Simulation.build { Settings.usual with initialState := .ofList [("x", 0)], startTime := 1e16 }
      (["dx/dt = 1"].map .ofText)).result.toOption.any (fun s =>
        s.integrator == .euler && decide (s.time = 1e16) && s.derivativeValues.result.toOption.isSome &&
          s.model.helpers.entries.isEmpty && s.model.derivatives.entries.all fun entry : String × Equation =>
            entry.2.expression.names.isEmpty) = true := by
    decide +kernel
  obtain ⟨s, hs, hfound⟩ := exists_ok_of_any hbuilt
  simp only [Bool.and_eq_true, beq_iff_eq, decide_eq_true_iff, List.isEmpty_iff, List.all_eq_true] at hfound
  obtain ⟨⟨⟨⟨heuler, htime⟩, hvalues⟩, hhelpers⟩, hderivatives⟩ := hfound
  have admitted : Simulation.admitsStep 0.5 = true := by decide +kernel
  have hfinite : isFinite s.time = true := by
    rw [htime]
    decide +kernel
  have hunread (name : String) : ¬ s.model.ReadsState name := by
    rintro (⟨entry, hentry, -⟩ | ⟨entry, hentry, hname, -⟩)
    · rw [hhelpers] at hentry
      cases hentry
    · rw [hderivatives entry hentry] at hname
      cases hname
  have hstill : s.time + 0.5 = s.time := by
    rw [htime]
    decide +kernel
  have hsure := exists_stepTimes_still heuler hstill hunread hvalues
  refine ⟨s, hs, hfinite, by decide +kernel, admitted, hsure, fun limit => integrate_eq_none admitted hsure ?_ limit⟩
  obtain ⟨a, ha, -, -⟩ := exists_rank_of_isFinite hfinite
  rw [exists_ends_iff admitted hsure, exists_not_lt_iff admitted ha]
  intro forward
  have hstays := forward 0
  rw [timeAfter_succ, show timeAfter s.time 0.5 0 = s.time from rfl, htime] at hstays
  exact absurd (hstays (by decide +kernel)) (by decide +kernel)

end Session

end OdeSystem
