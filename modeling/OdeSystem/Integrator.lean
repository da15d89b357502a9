import OdeSystem.Model.Evaluation

/-!
Steps in time. An integrator gives the state after a step from the state before it; no variable sees the new
value of another.
-/

namespace OdeSystem

/-- A way to step. -/
inductive Integrator
  | euler
  | hold
  deriving DecidableEq, Repr

/-- Moves one variable along its derivative. A variable without a value starts from zero. -/
def advanceVariable (dt : Float) (state : State) (moved : String × Float) : Logged EvalError State :=
  match state.get? moved.1 with
  | some value => pure (state.insert moved.1 (value + dt * moved.2))
  | none => do
    Logged.report (.valueMissing moved.1)
    pure (state.insert moved.1 (0.0 + dt * moved.2))

/-- Forward Euler moves every variable along its derivative at the state before the step. -/
def eulerStep (m : Model) (state : State) (time dt : Float) : Logged EvalError State := do
  let derivatives ← m.derivativeValues state time
  derivatives.entries.foldlM (advanceVariable dt) state

/-- The state after a step. Holding keeps the state as it is. -/
def Integrator.next (i : Integrator) (m : Model) (state : State) (time dt : Float) : Logged EvalError State :=
  match i with
  | .euler => eulerStep m state time dt
  | .hold => pure state

end OdeSystem
