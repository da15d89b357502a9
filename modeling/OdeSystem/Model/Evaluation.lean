import OdeSystem.Helper.Traversal
import OdeSystem.Model.Basic

/-!
Values of a model for a state and a time. All of them rest on one evaluation of the helpers, which the
derivatives share.
-/

namespace OdeSystem.Model

/-- The values of all helpers. -/
def helperValues (m : Model) (state : State) (time : Float) : Logged EvalError HelperValues :=
  Helper.evaluate m.helpers state time

/-- The values of all derivatives for given helpers; the first that fails, in the order of the names, fails
them all. -/
def derivativesWith (m : Model) (state : State) (time : Float) (helpers : HelperValues) :
    Except EvalError (Table Float) :=
  (m.derivatives.entries.mapM fun (entry : String × Equation) =>
    (entry.2.eval state time helpers).map (entry.1, ·)).map Table.ofList

/-- The values of all derivatives. -/
def derivativeValues (m : Model) (state : State) (time : Float) : Logged EvalError (Table Float) := do
  let helpers ← m.helperValues state time
  .ofResult (m.derivativesWith state time helpers)

/-- The values of all helpers and derivatives; of a name that is both, the derivative. -/
def allValues (m : Model) (state : State) (time : Float) : Logged EvalError (Table Float) := do
  let helpers ← m.helperValues state time
  let derivatives ← .ofResult (m.derivativesWith state time helpers)
  pure (helpers.insertAll derivatives.entries)

/-- The value of a helper, or else of the derivative of a variable. -/
def valueOf (m : Model) (name : String) (state : State) (time : Float) : Logged EvalError Float :=
  if m.helpers.contains name then do
    let helpers ← m.helperValues state time
    match helpers.get? name with
    | some value => pure value
    | none => Logged.fail (.unknownVariable name)
  else
    match m.derivatives.get? name with
    | some e => do
      let helpers ← m.helperValues state time
      .ofResult (e.eval state time helpers)
    | none => Logged.fail (.unknownVariable name)

/-- The values of all derivatives for each of several states at one time. -/
def batch (m : Model) (states : List State) (time : Float) : Except EvalError (List (Table Float)) :=
  states.mapM fun state => (m.derivativeValues state time).result

end OdeSystem.Model
