import OdeSystem.Simulation.Trajectory

/-!
Sessions: a simulation in the hands of one caller, who makes requests of it one after the other. Work on a simulation
reads and writes it part by part, and what has been written before a failure stays written. So it is a matter of the
order of the parts what a request that fails leaves behind.
-/

namespace OdeSystem

/-- Work on a simulation: what it gives, or why it fails, and the simulation as it is then. -/
def Session (α : Type) : Type := Simulation → Logged RequestError α × Simulation

/-- The state that an integrator gives for a simulation and a time step. -/
abbrev Rule : Type := Integrator → Simulation → Float → Logged EvalError State

/-- The rule by which the integrators of the library step. -/
def Rule.usual : Rule := fun integrator s dt => integrator.next s.model s.state s.time dt

namespace Session

variable {α β : Type}

/-- Goes on from what work gives, with the simulation as that has left it. -/
def andThen (x : Session α) (f : α → Session β) : Session β := fun s =>
  match (x s).1.result with
  | .error e => (⟨(x s).1.events, .error e⟩, (x s).2)
  | .ok a =>
    let behind := f a (x s).2
    (⟨(x s).1.events ++ behind.1.events, behind.1.result⟩, behind.2)

instance : Monad Session where
  pure a := fun s => (pure a, s)
  bind := andThen

/-- Reads the simulation, which may fail. -/
def ask (f : Simulation → Logged RequestError α) : Session α := fun s => (f s, s)

/-- Reads the simulation. -/
def read (f : Simulation → α) : Session α := ask fun s => pure (f s)

def fail (e : RequestError) : Session α := ask fun _ => Logged.fail e

/-- Writes the simulation. -/
def write (f : Simulation → Simulation) : Session Unit := fun s => (pure (), f s)

/-! ### Steps -/

/-- Goes on to a state, and to the time that is one step later. -/
def moveTo (dt : Float) (next : State) : Session State := do
  write fun s => s.setState next none
  write fun s => s.setTime (s.time + dt)
  pure next

/-- Steps once: the integrator reads the simulation, and only then that is written. -/
def step (rule : Rule) (dt : Float) : Session State := do
  ask fun s => Logged.report (.stepBegun s.time dt)
  let next ← ask fun s => (rule s.integrator s dt).mapError .eval
  moveTo dt next

/-- Steps several times. -/
def stepTimes (rule : Rule) (dt : Float) : Nat → Session (List State)
  | 0 => pure []
  | count + 1 => do
    let state ← step rule dt
    let states ← stepTimes rule dt count
    pure (state :: states)

/-- Steps while the time is before the goal. There is no trajectory when the goal has not been reached within the limit
of steps. -/
def stepUntil (rule : Rule) (goal dt : Float) : Nat → Session (Option (List State))
  | 0 => do
    let time ← read (·.time)
    if time < goal then pure none else pure (some [])
  | limit + 1 => do
    let time ← read (·.time)
    if time < goal then
      let state ← step rule dt
      let states ← stepUntil rule goal dt limit
      pure (states.map (state :: ·))
    else pure (some [])

def integrate (rule : Rule) (limit : Nat) (goal dt : Float) : Session (Option (List State)) :=
  if Simulation.admitsStep dt then stepUntil rule goal dt limit else fail (.timeStep dt)

/-! ### Equations and state -/

/-- Replaces the equations by others, once all of these have been read. -/
def recompile (inputs : List WrittenEquation) : Session Unit := do
  let model ← ask fun s => (Model.compile s.isFunction s.options inputs).mapError .parse
  write fun s => { s with model }

/-- Replaces the state by values in the order of the variables, if there are as many. -/
def setStateVector (values : List Float) : Session Unit := do
  let names ← read (·.model.variableNames)
  if values.length = names.length then
    write fun s => s.setState (Table.ofList (names.zip values)) none
  else fail (.stateLength names.length values.length)

end Session

/-! ### Requests -/

/-- What may be asked of a simulation that does not change it. -/
inductive Question
  | valueOf (name : String)
  | allValues
  | derivativeValues
  | helperValues
  | batch (states : List State)
  | state
  | stateVector
  | time
  | startTime
  | variableNames
  | derivatives
  | helpers
  | aliases
  | inputs
  | options
  | listing (colored : Bool)
  | modelListing (colored : Bool)

/-- What a caller may request. -/
inductive Request
  | ask (question : Question)
  | step (dt : Float)
  | integrate (goal dt : Float)
  | setState (state : State) (time : Option Float)
  | setStateVector (values : List Float)
  | setTime (time : Float)
  | setStartTime (time : Float)
  | reset
  | setIntegrator (integrator : Integrator)
  | recompile (inputs : List WrittenEquation)

/-- What a request gives. -/
inductive Answer
  | done
  | number (x : Float)
  | numbers (xs : List Float)
  | values (values : Table Float)
  | tables (tables : List (Table Float))
  | trajectory (states : Option (List State))
  | names (names : List String)
  | equations (equations : Table Equation)
  | aliases (aliases : Vector.Aliases)
  | inputs (inputs : List WrittenEquation)
  | options (options : Options)
  | text (text : String)

def Question.answer (question : Question) (s : Simulation) : Logged RequestError Answer :=
  match question with
  | .valueOf name => .number <$> s.valueOf name
  | .allValues => .values <$> s.allValues
  | .derivativeValues => .values <$> s.derivativeValues
  | .helperValues => .values <$> s.helperValues.mapError .eval
  | .batch states => .tables <$> Logged.ofResult (s.batch states)
  | .state => pure (.values s.state)
  | .stateVector => pure (.numbers s.stateVector)
  | .time => pure (.number s.time)
  | .startTime => pure (.number s.startTime)
  | .variableNames => pure (.names s.model.variableNames)
  | .derivatives => pure (.equations s.model.derivatives)
  | .helpers => pure (.equations s.model.helpers)
  | .aliases => pure (.aliases s.model.aliases)
  | .inputs => pure (.inputs s.model.inputs)
  | .options => pure (.options s.options)
  | .listing colored => pure (.text (s.listing colored))
  | .modelListing colored => pure (.text (s.model.listing colored))

/-- The work that a request asks for. An integration steps at most so many times. -/
def Request.work (rule : Rule) (limit : Nat) (request : Request) : Session Answer :=
  match request with
  | .ask question => Session.ask question.answer
  | .step dt => .values <$> Session.step rule dt
  | .integrate goal dt => .trajectory <$> Session.integrate rule limit goal dt
  | .setState state time => (fun _ => .done) <$> Session.write (·.setState state time)
  | .setStateVector values => (fun _ => .done) <$> Session.setStateVector values
  | .setTime time => (fun _ => .done) <$> Session.write (·.setTime time)
  | .setStartTime time => (fun _ => .done) <$> Session.write (·.setStartTime time)
  | .reset => (fun _ => .done) <$> Session.write (·.reset)
  | .setIntegrator integrator => (fun _ => .done) <$> Session.write (·.setIntegrator integrator)
  | .recompile inputs => (fun _ => .done) <$> Session.recompile inputs

/-- What the requests of a caller give, who goes on after those that fail, and the simulation behind them. -/
def Simulation.serve (rule : Rule) (limit : Nat) :
    List Request → Simulation → List (Logged RequestError Answer) × Simulation
  | [], s => ([], s)
  | request :: rest, s =>
    let first := request.work rule limit s
    let others := serve rule limit rest first.2
    (first.1 :: others.1, others.2)

end OdeSystem
