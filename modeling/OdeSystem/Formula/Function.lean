import OdeSystem.Formula.Argument
import OdeSystem.Number.Hyperbolic
import OdeSystem.Number.Hypotenuse
import OdeSystem.Number.Numeral
import OdeSystem.Text.Blank
import OdeSystem.Text.Case
import OdeSystem.Text.Pieces

/-!
The functions that formulas can call: of numbers, of texts, of tuples, and of the bits of integers. A function
has one argument; one of several values takes a tuple.
-/

namespace OdeSystem.Formula

namespace Function

/-- The functions of one number. -/
def ofNumber? : String → Option (Float → Float)
  | "math::ln" => some Float.log
  | "math::log2" => some Float.log2
  | "math::log10" => some Float.log10
  | "math::exp" => some Float.exp
  | "math::exp2" => some Float.exp2
  | "math::cos" => some Float.cos
  | "math::acos" => some Float.acos
  | "math::cosh" => some Float.cosh
  | "math::acosh" => some Number.areaCosine
  | "math::sin" => some Float.sin
  | "math::asin" => some Float.asin
  | "math::sinh" => some Float.sinh
  | "math::asinh" => some Number.areaSine
  | "math::tan" => some Float.tan
  | "math::atan" => some Float.atan
  | "math::tanh" => some Float.tanh
  | "math::atanh" => some Number.areaTangent
  | "math::sqrt" => some Float.sqrt
  | "math::cbrt" => some Float.cbrt
  | "floor" => some Float.floor
  | "ceil" => some Float.ceil
  | "round" => some Float.round
  | _ => none

/-- The functions of a pair of numbers. -/
def ofPair? : String → Option (Float → Float → Float)
  | "math::log" => some fun x base => x.log / base.log
  | "math::pow" => some Float.pow
  | "math::atan2" => some Float.atan2
  | "math::hypot" => some Number.hypotenuse
  | _ => none

/-- The tests of one number. -/
def test? : String → Option (Float → Bool)
  | "math::is_nan" => some Float.isNaN
  | "math::is_finite" => some Number.isFinite
  | "math::is_infinite" => some Number.isInfinite
  | "math::is_normal" => some Number.isNormal
  | _ => none

/-- The absolute value of a number, of the kind of the number. -/
def abs : Value → Except Fault Value
  | .float x => .ok (.float x.abs)
  | .int n => if Number.fits n.natAbs then .ok (.int n.natAbs) else .error (.negation n)
  | v => .error (.expectedNumber v)

/-- The name of a value's kind. -/
def kindName : Value → String
  | .string _ => "string"
  | .float _ => "float"
  | .int _ => "int"
  | .boolean _ => "boolean"
  | .tuple _ => "tuple"
  | .empty => "empty"

/-- An extreme in search: of the integers and of the floats met so far. -/
structure Extreme where
  int : Int
  float : Float

/-- Takes a number into account; `before` says which of two floats comes first, `beforeInt` which of two
integers. An undefined number changes nothing. -/
def Extreme.take (before : Float → Float → Bool) (beforeInt : Int → Int → Bool) (found : Extreme) :
    Value → Except Fault Extreme
  | .float x => .ok (if before x found.float then { found with float := x } else found)
  | .int n => .ok (if beforeInt n found.int then { found with int := n } else found)
  | v => .error (.expectedNumber v)

/-- The first of the numbers in a tuple. The search begins at the last number of either kind, and an integer
beats the floats only if it comes before all of them. -/
def extreme (before : Float → Float → Bool) (beforeInt : Int → Int → Bool) (begin : Extreme) (v : Value) :
    Except Fault Value := do
  let found ← (← v.expectTuple).foldlM (Extreme.take before beforeInt) begin
  pure (if before (Number.ofInteger found.int) found.float then .int found.int else .float found.float)

/-- The least of the numbers in a tuple. -/
def min : Value → Except Fault Value :=
  extreme (fun x y => x < y) (fun m n => m < n) ⟨Number.greatestInteger, Number.infinity false⟩

/-- The greatest of the numbers in a tuple. -/
def max : Value → Except Fault Value :=
  extreme (fun x y => y < x) (fun m n => n < m) ⟨Number.leastInteger, Number.infinity true⟩

/-- The functions of one text. -/
def ofText? : String → Option (List Char → List Char)
  | "str::to_lowercase" => some Text.lowerCase
  | "str::to_uppercase" => some Text.upperCase
  | "str::trim" => some Text.trim
  | _ => none

/-- The operations on the bits of two integers of 64 bits. A shift takes the amount modulo 64, and one to the
right keeps the sign. -/
def ofBits? : String → Option (Int64 → Int64 → Int64)
  | "bitand" => some Int64.land
  | "bitor" => some Int64.lor
  | "bitxor" => some Int64.xor
  | "shl" => some Int64.shiftLeft
  | "shr" => some Int64.shiftRight
  | _ => none

/-- A value as a text: a text as it is, any other as it is shown. -/
def asText : Value → String
  | .string s => s
  | v => v.text

/-- Whether a tuple has an element equal to a value. -/
def isElement (v : Value) (elements : List Value) : Bool := elements.any (Value.same · v)

/-- Whether the tuple that comes first has the value that comes second. -/
def contains (v : Value) : Except Fault Value := do
  let (elements, sought) ← v.expectPair
  let elements ← elements.expectTuple
  sought.expectScalar
  pure (.boolean (isElement sought elements))

/-- Whether the tuple that comes first has an element of the tuple that comes second. -/
def containsAny (v : Value) : Except Fault Value := do
  let (elements, sought) ← v.expectPair
  let elements ← elements.expectTuple
  let sought ← sought.expectTuple
  sought.forM Value.expectScalar
  pure (.boolean (sought.any (isElement · elements)))

/-- A place in a text, which is no negative one. -/
def expectPlace (v : Value) : Except Fault Nat := do
  let n ← v.expectInt
  if n < 0 then throw .outOfBounds else pure n.toNat

/-- The part of a text from one place to another, or to its end. Places count bytes. -/
def substring (v : Value) : Except Fault Value := do
  let (subject, first, last) ← v.expectPairOrTriple
  let text := (← subject.expectString).toList
  let first ← expectPlace first
  let last ← (last.map expectPlace).getD (pure (Text.byteLength text))
  match Text.slice? first last text with
  | some part => pure (.string (String.ofList part))
  | none => throw .outOfBounds

/-- The number of bytes of a text, or of elements of a tuple. -/
def length : Value → Except Fault Value
  | .string s => .ok (.int s.utf8ByteSize)
  | .tuple elements => .ok (.int elements.length)
  | v => .error (.expectedStringOrTuple v)

/-- One of two values, as the truth value before them says. -/
def choose (v : Value) : Except Fault Value := do
  let (condition, yes, no) ← v.expectTriple
  pure (if ← condition.expectBoolean then yes else no)

/-- Calls a function of numbers, texts or integers that is known by its name alone. -/
def callSimple (name : String) (argument : Value) : Except Fault Value := do
  if let some f := ofNumber? name then
    pure (.float (f (← argument.expectNumber)))
  else if let some f := ofPair? name then
    let (a, b) ← argument.expectPair
    pure (.float (f (← a.expectNumber) (← b.expectNumber)))
  else if let some p := test? name then
    pure (.boolean (p (← argument.expectNumber)))
  else if let some f := ofText? name then
    pure (.string (String.ofList (f (← argument.expectString).toList)))
  else if let some f := ofBits? name then
    let (a, b) ← argument.expectPair
    pure (.int (f (.ofInt (← a.expectInt)) (.ofInt (← b.expectInt))).toInt)
  else throw (.functionNotFound name)

/-- Calls a function by its name. -/
def call (name : String) (argument : Value) : Except Fault Value :=
  match name with
  | "math::abs" => abs argument
  | "typeof" => .ok (.string (kindName argument))
  | "min" => min argument
  | "max" => max argument
  | "if" => choose argument
  | "contains" => contains argument
  | "contains_any" => containsAny argument
  | "len" => length argument
  | "str::from" => .ok (.string (asText argument))
  | "str::substring" => substring argument
  | "bitnot" => argument.expectInt.map fun n => .int (-n - 1)
  | name => callSimple name argument

end Function

end OdeSystem.Formula
