import OdeSystem.Simulation.Basic

/-!
Trajectories: the states of a simulation as it steps until its time reaches a goal. A step so small that the time
does not move would be repeated for ever, so the number of steps is limited; within the limit it does not matter
what the limit is.
-/

namespace OdeSystem

/-- A run of a simulation: where that is at its end, what was reported, and the states after each step, or why
there are none. There is no result when the limit has been reached before the goal. -/
structure Run where
  simulation : Simulation
  events : List Event
  result : Option (Except RequestError (List State))

namespace Run

/-- A run of no steps. -/
def finished (s : Simulation) : Run := ⟨s, [], some (.ok [])⟩

/-- A run with one more step in front. -/
def afterStep (events : List Event) (state : State) (run : Run) : Run :=
  ⟨run.simulation, events ++ run.events, run.result.map fun states => states.map (state :: ·)⟩

end Run

namespace Simulation

/-- Whether a step leads forward by a definite amount. -/
def admitsStep (dt : Float) : Bool := 0.0 < dt && Number.isFinite dt

/-- Steps while the time is before the goal, at most `limit` times. -/
def advance (goal dt : Float) : Nat → Simulation → Run
  | 0, s => if s.time < goal then ⟨s, [], none⟩ else .finished s
  | limit + 1, s =>
    if s.time < goal then
      let stepped := s.step dt
      match stepped.result with
      | .error e => ⟨s, stepped.events, some (.error e)⟩
      | .ok (state, next) => (advance goal dt limit next).afterStep stepped.events state
    else .finished s

/-- Steps while the time is before the goal. A simulation keeps the progress that it has made when a step fails. -/
def integrate (s : Simulation) (limit : Nat) (goal dt : Float) : Run :=
  if admitsStep dt then advance goal dt limit s else ⟨s, [], some (.error (.timeStep dt))⟩

end Simulation

end OdeSystem
