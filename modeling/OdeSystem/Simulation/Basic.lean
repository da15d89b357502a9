import OdeSystem.Integrator

/-!
Simulations: a model together with a state and a time that evolve. Requests read the current state and time; a
step replaces the state by what the integrator gives and moves the time. A request that fails changes nothing.
-/

namespace OdeSystem

/-- A model with the state and the time it has reached, and those it began with. -/
structure Simulation where
  model : Model
  isFunction : String → Bool
  options : Options
  integrator : Integrator
  state : State
  time : Float
  initialState : State
  startTime : Float

/-- What a simulation is built from, besides its equations. -/
structure Settings where
  isFunction : String → Bool
  options : Options
  integrator : Integrator
  initialState : State
  startTime : Float

/-- The usual settings: forward Euler from an empty state at time zero. -/
def Settings.usual : Settings := ⟨knownFunctions.contains, Options.usual, .euler, Table.empty, 0.0⟩

namespace Simulation

/-- Builds a simulation at its initial state and start time. -/
def build (settings : Settings) (inputs : List WrittenEquation) : Logged RequestError Simulation := do
  let model ← (Model.compile settings.isFunction settings.options inputs).mapError RequestError.parse
  pure
    { model, isFunction := settings.isFunction, options := settings.options, integrator := settings.integrator,
      state := settings.initialState, time := settings.startTime, initialState := settings.initialState,
      startTime := settings.startTime }

/-- Builds a simulation with the usual settings. -/
def ofEquations (inputs : List WrittenEquation) : Logged RequestError Simulation := build .usual inputs

/-! ### State and time -/

/-- Replaces the state, and the time if one is given. -/
def setState (s : Simulation) (state : State) (time : Option Float) : Simulation :=
  { s with state, time := time.getD s.time }

def setTime (s : Simulation) (time : Float) : Simulation := { s with time }

/-- Sets the time that a reset returns to. -/
def setStartTime (s : Simulation) (startTime : Float) : Simulation := { s with startTime }

/-- Returns to the initial state and the start time. -/
def reset (s : Simulation) : Simulation := { s with state := s.initialState, time := s.startTime }

def setIntegrator (s : Simulation) (integrator : Integrator) : Simulation := { s with integrator }

/-- The values of the state in the order of the variables; one that is missing reads as zero. -/
def stateVector (s : Simulation) : List Float := s.model.variableNames.map fun name => (s.state.get? name).getD 0.0

/-- Replaces the state by values in the order of the variables. -/
def setStateVector (s : Simulation) (values : List Float) : Except RequestError Simulation :=
  if values.length = s.model.variableNames.length then
    .ok { s with state := Table.ofList (s.model.variableNames.zip values) }
  else .error (.stateLength s.model.variableNames.length values.length)

/-! ### Values -/

/-- The values of all helpers at the current state and time. -/
def helperValues (s : Simulation) : Logged EvalError HelperValues := s.model.helperValues s.state s.time

/-- The value of a helper, or else of the derivative of a variable, at the current state and time. -/
def valueOf (s : Simulation) (name : String) : Logged RequestError Float :=
  (s.model.valueOf name s.state s.time).mapError .eval

/-- The values of all helpers and derivatives at the current state and time. -/
def allValues (s : Simulation) : Logged RequestError (Table Float) :=
  (s.model.allValues s.state s.time).mapError .eval

/-- The values of all derivatives at the current state and time. -/
def derivativeValues (s : Simulation) : Logged RequestError (Table Float) :=
  (s.model.derivativeValues s.state s.time).mapError .eval

/-- The values of all derivatives for each of several states at the current time. -/
def batch (s : Simulation) (states : List State) : Except RequestError (List (Table Float)) :=
  (s.model.batch states s.time).mapError .eval

/-! ### Change -/

/-- Steps once: gives the new state, and the simulation with it. -/
def step (s : Simulation) (dt : Float) : Logged RequestError (State × Simulation) := do
  Logged.report (.stepBegun s.time dt)
  let next ← (s.integrator.next s.model s.state s.time dt).mapError RequestError.eval
  pure (next, { s with state := next, time := s.time + dt })

/-- Replaces the equations. State and time stay. -/
def recompile (s : Simulation) (inputs : List WrittenEquation) : Logged RequestError Simulation := do
  let model ← (Model.compile s.isFunction s.options inputs).mapError RequestError.parse
  pure { s with model }

/-- A simulation as listings show it: its model, and below that its time and state. -/
def listing (colored : Bool) (s : Simulation) : String :=
  let line (name : String) (value : Float) :=
    "    " ++ Text.Ink.green.paint colored name ++ " = " ++ Number.Layout.plain.text value ++ "\n"
  s.model.listing colored ++ Text.Ink.boldCyan.paint colored "State" ++ "\n" ++ line "t" s.time ++
    String.join (s.state.entries.map fun (name, value) => line name value)

end Simulation

end OdeSystem
