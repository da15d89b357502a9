import OdeSystem.Error
import OdeSystem.Formula.Eval
import OdeSystem.Notation.Dialect
import OdeSystem.Scope

/-!
Expressions: right-hand sides that have been read once and can be evaluated against any scope. An expression
knows the names that it reads, and its evaluation sees the values of these names only.
-/

namespace OdeSystem

/-- The functions that written mathematics knows by name, so that a parenthesis behind one is no factor. -/
def knownFunctions : List String :=
  ["sin", "cos", "tan", "asin", "acos", "atan", "sinh", "cosh", "tanh", "exp", "sqrt", "abs", "ln", "log",
   "pow", "min", "max", "floor", "ceil", "round"]

/-- The result of an evaluation: a number, or the text of a value that is none. -/
inductive Outcome
  | number (x : Float)
  | other (text : String)

/-- The result that a value is. -/
def Outcome.ofValue (v : Formula.Value) : Outcome :=
  match v.number? with
  | some x => .number x
  | none => .other v.text

/-- An expression that has been read: its text, the text of its formula, the tree of that, and the names it
reads, sorted and each once. -/
structure Expression where
  source : String
  formula : String
  tree : Formula.Tree
  names : List String

/-- Reads an expression. -/
def Expression.ofText (source : String) : Except ParseError Expression :=
  let formula := Notation.formula source
  match Formula.Tree.ofText formula.toList with
  | .error fault => .error (.formula source fault)
  | .ok tree => .ok ⟨source, formula, tree, Table.sortNames tree.names⟩

/-- Evaluates an expression. -/
def Expression.eval (e : Expression) (scope : Scope) : Except EvalError Outcome :=
  match e.tree.eval (scope.restrict e.names).get? with
  | .error fault => .error (.formula e.source fault)
  | .ok v => .ok (.ofValue v)

end OdeSystem
