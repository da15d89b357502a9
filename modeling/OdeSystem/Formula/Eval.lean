import OdeSystem.Formula.Function
import OdeSystem.Formula.Tree

/-!
Evaluation of formulas. Operands are evaluated before their operator, from left to right, and the first fault
ends the evaluation. Integers meet integers exactly, within 64 bits; any other two numbers meet as floats.
-/

namespace OdeSystem.Formula

open Number

/-- An operation on integers, refused where it leaves the 64-bit range or divides by zero. Quotients round
toward zero. -/
def Arithmetic.onIntegers? (operation : Arithmetic) (m n : Int) : Option Int :=
  let checked (r : Int) : Option Int := if fits r then some r else none
  match operation with
  | add => checked (m + n)
  | sub => checked (m - n)
  | mul => checked (m * n)
  | div => if n = 0 then none else checked (m.tdiv n)
  | mod => if n = 0 then none else (checked (m.tdiv n)).map fun _ => m.tmod n

/-- An operation on floats. -/
def Arithmetic.onFloats : Arithmetic → Float → Float → Float
  | add => (· + ·)
  | sub => (· - ·)
  | mul => (· * ·)
  | div => (· / ·)
  | mod => remainder

/-- An operation on two integers, with its fault. -/
def Arithmetic.onIntegers (operation : Arithmetic) (m n : Int) : Except Fault Value :=
  match operation.onIntegers? m n with
  | some r => .ok (.int r)
  | none => .error (.arithmetic operation m n)

/-- The sum of two numbers, or two texts joined. -/
def addValues (a b : Value) : Except Fault Value := do
  a.expectNumberOrString
  b.expectNumberOrString
  match a, b with
  | .string s, .string t => pure (.string (s ++ t))
  | .int m, .int n => Arithmetic.add.onIntegers m n
  | a, b =>
    match a.number?, b.number? with
    | some x, some y => pure (.float (x + y))
    | _, _ => throw (.wrongCombination a b)

/-- An operation on two values. -/
def Arithmetic.onValues (operation : Arithmetic) (a b : Value) : Except Fault Value :=
  match operation with
  | .add => addValues a b
  | operation => do
    let x ← a.expectNumber
    let y ← b.expectNumber
    match a, b with
    | .int m, .int n => operation.onIntegers m n
    | _, _ => pure (.float (operation.onFloats x y))

def powerOfValues (a b : Value) : Except Fault Value := do
  let x ← a.expectNumber
  let y ← b.expectNumber
  pure (.float (x.pow y))

def negateValue (v : Value) : Except Fault Value := do
  let x ← v.expectNumber
  match v with
  | .int n => if fits (-n) then pure (.int (-n)) else throw (.negation n)
  | _ => pure (.float (-x))

/-- An order of values, given in each of their kinds. -/
def orderValues (strings : String → String → Bool) (ints : Int → Int → Bool) (floats : Float → Float → Bool)
    (a b : Value) : Except Fault Value := do
  a.expectNumberOrString
  b.expectNumberOrString
  match a, b with
  | .string s, .string t => pure (.boolean (strings s t))
  | .int m, .int n => pure (.boolean (ints m n))
  | a, b =>
    let x ← a.expectNumber
    let y ← b.expectNumber
    pure (.boolean (floats x y))

/-- A comparison of two values. Texts are compared by code points. -/
def Comparison.onValues : Comparison → Value → Value → Except Fault Value
  | equal, a, b => .ok (.boolean (a.same b))
  | unequal, a, b => .ok (.boolean (!a.same b))
  | less, a, b => orderValues (fun s t => s < t) (fun m n => m < n) (fun x y => x < y) a b
  | lessEqual, a, b => orderValues (fun s t => s ≤ t) (fun m n => m ≤ n) (fun x y => x ≤ y) a b
  | greater, a, b => orderValues (fun s t => t < s) (fun m n => n < m) (fun x y => y < x) a b
  | greaterEqual, a, b => orderValues (fun s t => t ≤ s) (fun m n => n ≤ m) (fun x y => y ≤ x) a b

/-- Applies an operator to the values of its operands. A group has the value of what is in it, a chain that of
its last part, and the target of an assignment is its own name; assignments themselves are refused. -/
def Operator.apply (lookup : String → Option Float) (op : Operator) (operands : List Value) :
    Except Fault Value :=
  match op, operands with
  | .group, operands => .ok (operands.head?.getD .empty)
  | .tuple, operands => .ok (.tuple operands)
  | .chain, operands => .ok (operands.getLast?.getD .empty)
  | .assign, _ => .error .assignment
  | .update, _ => .error .assignment
  | .constant v, [] => .ok v
  | .target name, [] => .ok (.string name)
  | .read name, [] =>
    match lookup name with
    | some x => .ok (.float x)
    | none => .error (.variableNotFound name)
  | .call name, [v] => Function.call name v
  | .negate, [v] => negateValue v
  | .not, [v] => v.expectBoolean.map fun b => .boolean !b
  | .arithmetic operation, [a, b] => operation.onValues a b
  | .power, [a, b] => powerOfValues a b
  | .compare comparison, [a, b] => comparison.onValues a b
  | .and, [a, b] => do
    let x ← a.expectBoolean
    let y ← b.expectBoolean
    pure (.boolean (x && y))
  | .or, [a, b] => do
    let x ← a.expectBoolean
    let y ← b.expectBoolean
    pure (.boolean (x || y))
  | op, operands => .error (.wrongArgumentAmount (op.capacity.getD 0) operands.length)

mutual
/-- The value of a tree, its names looked up among the given numbers. -/
def Tree.eval (lookup : String → Option Float) : Tree → Except Fault Value
  | .node op children =>
    match Tree.evalAll lookup children with
    | .error fault => .error fault
    | .ok operands => op.apply lookup operands

/-- The values of a list of trees. -/
def Tree.evalAll (lookup : String → Option Float) : List Tree → Except Fault (List Value)
  | [] => .ok []
  | t :: rest =>
    match t.eval lookup with
    | .error fault => .error fault
    | .ok v => (Tree.evalAll lookup rest).map (v :: ·)
end

end OdeSystem.Formula
