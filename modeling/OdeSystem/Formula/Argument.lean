import OdeSystem.Formula.Fault

/-!
What functions and operators ask of their arguments. A value of another kind is refused with a fault that
shows it.
-/

namespace OdeSystem.Formula

/-- Refuses a value that is no number. -/
def Value.expectNumber (v : Value) : Except Fault Float :=
  match v.number? with
  | some x => .ok x
  | none => .error (.expectedNumber v)

/-- Refuses a value that is neither a number nor a text. -/
def Value.expectNumberOrString (v : Value) : Except Fault Unit :=
  match v with
  | string _ | float _ | int _ => .ok ()
  | v => .error (.expectedNumberOrString v)

/-- Refuses a value that is no integer. -/
def Value.expectInt (v : Value) : Except Fault Int :=
  match v with
  | int n => .ok n
  | v => .error (.expectedInt v)

/-- Refuses a value that is no text. -/
def Value.expectString (v : Value) : Except Fault String :=
  match v with
  | string s => .ok s
  | v => .error (.expectedString v)

/-- Refuses a value that is no truth value. -/
def Value.expectBoolean (v : Value) : Except Fault Bool :=
  match v with
  | boolean b => .ok b
  | v => .error (.expectedBoolean v)

/-- Refuses a value that is no tuple. -/
def Value.expectTuple (v : Value) : Except Fault (List Value) :=
  match v with
  | tuple elements => .ok elements
  | v => .error (.expectedTuple v)

/-- Refuses a value that is no pair. -/
def Value.expectPair (v : Value) : Except Fault (Value × Value) := do
  match ← v.expectTuple with
  | [a, b] => pure (a, b)
  | _ => throw (.expectedTupleOf 2 v)

/-- Refuses a value that is no triple. -/
def Value.expectTriple (v : Value) : Except Fault (Value × Value × Value) := do
  match ← v.expectTuple with
  | [a, b, c] => pure (a, b, c)
  | _ => throw (.expectedTupleOf 3 v)

/-- Refuses a value that is no pair or triple; a pair has no third element. -/
def Value.expectPairOrTriple (v : Value) : Except Fault (Value × Value × Option Value) := do
  match ← v.expectTuple with
  | [a, b] => pure (a, b, none)
  | [a, b, c] => pure (a, b, some c)
  | _ => throw (.expectedTupleWithin 2 3 v)

/-- Refuses a value that has no order or equality of its own: a tuple, or the empty value. -/
def Value.expectScalar (v : Value) : Except Fault Unit :=
  match v with
  | tuple _ | empty => .error (.expectedScalar v)
  | _ => .ok ()

end OdeSystem.Formula
