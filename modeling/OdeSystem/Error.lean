import OdeSystem.Formula.Fault

/-!
The errors of the library, by their causes: what may be wrong with the text of a model, with its evaluation,
and with a request to a simulation. An error may have another as its cause, and each has one wording.
-/

namespace OdeSystem

/-- What may be wrong with the text of an equation, or with a list of equations. -/
inductive ParseError
  | malformed (equation : String)
  | dimensionMismatch (equation : String)
  | redeclared (name : String)
  | formula (expression : String) (cause : Formula.Fault)

def ParseError.message : ParseError → String
  | malformed equation => "malformed equation: " ++ equation
  | dimensionMismatch equation => "mismatched vector dimensions in equation: " ++ equation
  | redeclared name => "`" ++ name ++ "` is defined more than once"
  | formula expression _ => "failed to compile expression `" ++ expression ++ "`"

/-- What may go wrong when helpers and derivatives are evaluated. -/
inductive EvalError
  | unknownVariable (name : String)
  | cyclicDependency (name : String)
  | nonScalar (name value : String)
  | formula (expression : String) (cause : Formula.Fault)

def EvalError.message : EvalError → String
  | unknownVariable name => "unknown variable: " ++ name
  | cyclicDependency name => "cyclic dependency detected at helper `" ++ name ++ "`"
  | nonScalar name value => "`" ++ name ++ "` evaluated to non-scalar value: " ++ value
  | formula expression _ => "failed to evaluate expression `" ++ expression ++ "`"

/-- What may be wrong with a request to a simulation. -/
inductive RequestError
  | parse (cause : ParseError)
  | eval (cause : EvalError)
  | stateLength (expected got : Nat)
  | timeStep (dt : Float)

def RequestError.message : RequestError → String
  | parse _ => "failed to compile equation system"
  | eval _ => "failed to evaluate equation system"
  | stateLength expected got =>
    "Invalid state length: expected " ++ toString expected ++ ", got " ++ toString got
  | timeStep dt => "Invalid time step: " ++ Number.Layout.plain.text dt

end OdeSystem
