import OdeSystem.Notation.Token
import OdeSystem.Number.Layout
import OdeSystem.Number.Numeral

/-!
From written mathematics to formulas. Numbers are written out as floats, so that quotients of whole numbers are
not cut off, and names of functions get the name space they have in formulas. A logarithm of one argument is the
natural one, one of two has its base behind it.
-/

namespace OdeSystem.Notation

open Number

/-- The tokens without the blanks at their beginning. -/
def skipSpaces (tokens : List Token) : List Token := tokens.dropWhile Token.isSpace

/-- Whether an argument list follows, so that the name before it is called. -/
def isCall (rest : List Token) : Bool := (skipSpaces rest).head? = some (.symbol '(')

/-- Whether the argument list that follows has a single argument: no comma stands directly in it before it is
closed. `depth` counts the parentheses open so far. -/
def hasSingleArgument : Nat → List Token → Bool
  | _, [] => true
  | depth, .symbol '(' :: rest => hasSingleArgument (depth + 1) rest
  | depth, .symbol ')' :: rest => depth ≤ 1 || hasSingleArgument (depth - 1) rest
  | depth, .symbol ',' :: rest => depth ≠ 1 && hasSingleArgument depth rest
  | depth, _ :: rest => hasSingleArgument depth rest

/-- The functions that formulas have in their name space for mathematics. -/
def spacedNames : List String :=
  ["sin", "cos", "tan", "asin", "acos", "atan", "sinh", "cosh", "tanh", "exp", "sqrt", "abs", "ln", "pow"]

/-- The name that a function has in formulas. -/
def qualified (name : List Char) : List Char :=
  if spacedNames.contains (String.ofList name) then "math::".toList ++ name else name

/-- A number as formulas write it; one too large for a double stays as it is. -/
def literalText (text : List Char) : List Char :=
  match Numeral.ofText? text with
  | some n => if isFinite n.toFloat then (Layout.literal.text n.toFloat).toList else text
  | none => text

/-- A token of written mathematics in a formula, given the tokens behind it. -/
def formulaText (token : Token) (rest : List Token) : List Char :=
  match token with
  | .number text => literalText text
  | .name text =>
    if isCall rest then
      if text = "log".toList then
        if hasSingleArgument 0 rest then "math::ln".toList else "math::log".toList
      else qualified text
    else text
  | .space text => text
  | .symbol c => [c]

/-- The formula of a list of tokens. -/
def formulaOf : List Token → List Char
  | [] => []
  | token :: rest => formulaText token rest ++ formulaOf rest

/-- The formula of an expression in written mathematics. -/
def formula (expression : String) : String := String.ofList (formulaOf (tokens expression.toList))

end OdeSystem.Notation
