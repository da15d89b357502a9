import OdeSystem.Event
import OdeSystem.Expression
import OdeSystem.Notation.Product
import OdeSystem.Notation.Sides
import OdeSystem.Text.Ink

/-!
Scalar equations. One side is the derivative of a state variable or, failing that, the left side is the name of
a helper; the other side is an expression. An equation is read once, in its normal form, and then evaluated
against any state, time and helpers.
-/

namespace OdeSystem

open Notation Text

/-- A scalar equation that has been read: what it defines, under which name, and the expression that it is
defined by. The dependencies of a helper are the names its expression reads, but for functions; a derivative
has none, since no other equation waits for it. -/
structure Equation where
  kind : EquationKind
  name : String
  source : String
  dependencies : List String
  expression : Expression

namespace Equation

/-- Chooses the side that is defined: the right one only if it is a derivative and the left one is not. -/
def orient (left right : List Char) : List Char × List Char :=
  if (derivativeOf? left).isNone ∧ (derivativeOf? right).isSome then (right, left) else (left, right)

/-- What the defined side defines. -/
def classify? (defined : List Char) : Option (EquationKind × String) :=
  match derivativeOf? defined with
  | some name => some (.derivative, String.ofList name)
  | none => if isName defined then some (.helper, String.ofList defined) else none

/-- The kind, the name and the right-hand side of an equation in normal form. -/
def parts? (normal : List Char) : Option (EquationKind × String × List Char) :=
  match sides? normal with
  | some (left, right) =>
    let (defined, rest) := orient left right
    (classify? defined).map fun (kind, name) => (kind, name, rest)
  | none => none

/-- Reads a scalar equation. -/
def ofText (isFunction : String → Bool) (equation : String) : Except ParseError Equation :=
  let malformed := ParseError.malformed (String.ofList (trim equation.toList))
  let canonical := canonicalText equation.toList
  if (findSpacedFunction isFunction (tokens canonical)).isSome then .error malformed
  else
    match parts? (normalText isFunction equation.toList) with
    | none => .error malformed
    | some (kind, name, right) =>
      match Expression.ofText (String.ofList right) with
      | .error e => .error e
      | .ok expression =>
        let dependencies :=
          match kind with
          | .helper => expression.names.filter fun n => !isFunction n
          | .derivative => []
        .ok ⟨kind, name, String.ofList right, dependencies, expression⟩

/-- The value of the right-hand side, which must be a number. -/
def eval (e : Equation) (state : State) (time : Float) (helpers : HelperValues) : Except EvalError Float :=
  match e.expression.eval ⟨state, time, helpers⟩ with
  | .error err => .error err
  | .ok (.number x) => .ok x
  | .ok (.other text) => .error (.nonScalar e.name text)

def isDerivative (e : Equation) : Bool := e.kind == .derivative

def isHelper (e : Equation) : Bool := e.kind == .helper

/-- An equation as listings show it. -/
def listing (colored : Bool) (e : Equation) : String :=
  match e.kind with
  | .derivative => Ink.cyan.paint colored ("d" ++ e.name ++ "/dt") ++ " = " ++ e.source
  | .helper =>
    Ink.green.paint colored e.name ++ " = " ++ e.source ++ "  " ++
      Ink.dimmed.paint colored ("[" ++ ", ".intercalate e.dependencies ++ "]")

/-- An equation with its parts by name. -/
def detail (e : Equation) : String :=
  "CompiledEquation \x7b kind: " ++ e.kind.text ++ ", name: " ++ quote e.name ++ ", source: " ++ quote e.source ++
    ", dependencies: " ++ quoteSet e.dependencies ++ ", .. \x7d"

end Equation

end OdeSystem
