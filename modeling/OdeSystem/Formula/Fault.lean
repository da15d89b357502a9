import OdeSystem.Formula.Lexeme
import OdeSystem.Formula.Value

/-!
What may be wrong with a formula: with its lexemes, with its structure, or with the values it meets when it is
evaluated. Each cause has one wording.
-/

namespace OdeSystem.Formula

/-- The operations on two numbers that are exact on integers. -/
inductive Arithmetic
  | add | sub | mul | div | mod
  deriving DecidableEq, Repr

/-- The word for an operation under way, and its sign. -/
def Arithmetic.wording : Arithmetic → String × String
  | add => ("adding", "+")
  | sub => ("subtracting", "-")
  | mul => ("multiplying", "*")
  | div => ("dividing", "/")
  | mod => ("modulating", "%")

inductive Fault
  | unmatchedQuote
  | illegalEscape (text : String)
  | unmatchedComment
  | strayLexeme (first : Lexeme) (second : Option Lexeme)
  | unmatchedOpening
  | unmatchedClosing
  | missingOperator
  | appendedToLeaf
  | precedenceViolation
  | wrongArgumentAmount (expected actual : Nat)
  | expectedNumber (actual : Value)
  | expectedNumberOrString (actual : Value)
  | expectedInt (actual : Value)
  | expectedString (actual : Value)
  | expectedBoolean (actual : Value)
  | expectedTuple (actual : Value)
  | expectedTupleOf (length : Nat) (actual : Value)
  | expectedTupleWithin (least greatest : Nat) (actual : Value)
  | expectedStringOrTuple (actual : Value)
  | expectedScalar (actual : Value)
  | wrongCombination (left right : Value)
  | variableNotFound (name : String)
  | functionNotFound (name : String)
  | arithmetic (operation : Arithmetic) (left right : Int)
  | negation (n : Int)
  | outOfBounds
  | assignment

def LexicalFault.toFault : LexicalFault → Fault
  | unmatchedQuote => .unmatchedQuote
  | illegalEscape text => .illegalEscape (String.ofList text)
  | unmatchedComment => .unmatchedComment

/-- The wording of a fault. -/
def Fault.message : Fault → String
  | unmatchedQuote => "Found an unmatched double quote '\"'"
  | illegalEscape text => "Illegal escape sequence: " ++ text
  | unmatchedComment => "Error: unmatched inline comment"
  | strayLexeme first none =>
    "Found a partial token '" ++ String.ofList first.text ++ "' that should be followed by another partial token."
  | strayLexeme first (some second) =>
    "Found a partial token '" ++ String.ofList first.text ++ "' that should not be followed by '" ++
      String.ofList second.text ++ "'."
  | unmatchedOpening => "Found an unmatched opening parenthesis '('."
  | unmatchedClosing => "Found an unmatched closing parenthesis ')'."
  | missingOperator =>
    "Found an opening parenthesis that is preceded by something that does not take any arguments on the right, " ++
      "or found a closing parenthesis that is succeeded by something that does not take any arguments on the left."
  | appendedToLeaf => "Tried to append a node to a leaf node."
  | precedenceViolation => "Tried to append a node to another node with higher precedence."
  | wrongArgumentAmount expected actual =>
    "An operator expected " ++ toString expected ++ " arguments, but got " ++ toString actual ++ "."
  | expectedNumber actual => "Expected a Value::Float or Value::Int, but got " ++ actual.detail ++ "."
  | expectedNumberOrString actual =>
    "Expected a Value::Number or a Value::String, but got " ++ actual.detail ++ "."
  | expectedInt actual => "Expected a Value::Int, but got " ++ actual.detail ++ "."
  | expectedString actual => "Expected a Value::String, but got " ++ actual.detail ++ "."
  | expectedBoolean actual => "Expected a Value::Boolean, but got " ++ actual.detail ++ "."
  | expectedTuple actual => "Expected a Value::Tuple, but got " ++ actual.detail ++ "."
  | expectedTupleOf length actual =>
    "Expected a Value::Tuple of length " ++ toString length ++ ", but got " ++ actual.detail ++ "."
  | expectedTupleWithin least greatest actual =>
    "Expected a Value::Tuple of length " ++ toString least ++ " to " ++ toString greatest ++ ", but got " ++
      actual.detail ++ "."
  | expectedStringOrTuple actual => "Expected one of [String, Tuple], but got " ++ actual.detail ++ "."
  | expectedScalar actual => "Expected one of [String, Int, Float, Boolean], but got " ++ actual.detail ++ "."
  | wrongCombination left right =>
    "The operator Add was called with a wrong combination of types: [" ++ left.kind ++ ", " ++ right.kind ++ "]"
  | variableNotFound name =>
    "Variable identifier is not bound to anything by context: " ++ Text.quote name ++ "."
  | functionNotFound name =>
    "Function identifier is not bound to anything by context: " ++ Text.quote name ++ "."
  | arithmetic operation left right =>
    "Error " ++ operation.wording.1 ++ " " ++ Number.integerText left ++ " " ++ operation.wording.2 ++ " " ++
      Number.integerText right
  | negation n => "Error negating -" ++ Number.integerText n
  | outOfBounds => "Tried to access a tuple or string at an invalid index"
  | assignment => "Cannot manipulate context"

end OdeSystem.Formula
