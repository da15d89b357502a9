import OdeSystem.Number.Layout
import OdeSystem.Text.Quoted

/-!
Values of formulas: numbers of two kinds, texts, truth values, tuples and the empty value. A value has a text,
which stands where a result is shown, and a detailed text for messages, which names its kind.
-/

namespace OdeSystem.Formula

inductive Value
  | string (text : String)
  | float (x : Float)
  | int (n : Int)
  | boolean (b : Bool)
  | tuple (elements : List Value)
  | empty

namespace Value

/-- The kind of a value, by its name in messages. -/
def kind : Value → String
  | string _ => "String"
  | float _ => "Float"
  | int _ => "Int"
  | boolean _ => "Boolean"
  | tuple _ => "Tuple"
  | empty => "Empty"

mutual
/-- A value as it is shown. -/
def text : Value → String
  | string s => "\"" ++ s ++ "\""
  | float x => Number.Layout.plain.text x
  | int n => Number.integerText n
  | boolean b => if b then "true" else "false"
  | tuple elements => "(" ++ ", ".intercalate (texts elements) ++ ")"
  | empty => "()"

/-- The texts of a list of values. -/
def texts : List Value → List String
  | [] => []
  | v :: rest => v.text :: texts rest
end

mutual
/-- A value with its kind. -/
def detail : Value → String
  | string s => "String(" ++ Text.quote s ++ ")"
  | float x => "Float(" ++ Number.Layout.value.text x ++ ")"
  | int n => "Int(" ++ Number.integerText n ++ ")"
  | boolean b => if b then "Boolean(true)" else "Boolean(false)"
  | tuple elements => "Tuple([" ++ ", ".intercalate (details elements) ++ "])"
  | empty => "Empty"

/-- The detailed texts of a list of values. -/
def details : List Value → List String
  | [] => []
  | v :: rest => v.detail :: details rest
end

mutual
/-- Equality of values. Integers and floats are never equal, and an undefined number is not equal to itself. -/
def same : Value → Value → Bool
  | string s, string t => s == t
  | float x, float y => x == y
  | int m, int n => m == n
  | boolean a, boolean b => a == b
  | tuple xs, tuple ys => sameAll xs ys
  | empty, empty => true
  | _, _ => false

/-- Equality of lists of values, element by element. -/
def sameAll : List Value → List Value → Bool
  | [], [] => true
  | x :: xs, y :: ys => same x y && sameAll xs ys
  | _, _ => false
end

/-- The number that a value is, if it is one. -/
def number? : Value → Option Float
  | float x => some x
  | int n => some (Number.ofInteger n)
  | _ => none

theorem texts_eq_map (vs : List Value) : texts vs = vs.map text := by
  induction vs with
  | nil => rfl
  | cons v rest ih => simp [texts, ih]

theorem details_eq_map (vs : List Value) : details vs = vs.map detail := by
  induction vs with
  | nil => rfl
  | cons v rest ih => simp [details, ih]

end Value

end OdeSystem.Formula
