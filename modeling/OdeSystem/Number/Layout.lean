import OdeSystem.Number.Shortest

/-!
How a double is written. The digits are always those of its shortest decimal; a layout says whether a whole
number keeps a point and a zero, and from which powers of ten on it is written with an exponent.
-/

namespace OdeSystem.Number

/-- A way to write numbers. A number from `10 ^ low` up to below `10 ^ high` is positional, any other has an
exponent; without such limits all are positional. -/
structure Layout where
  wholePoint : Bool
  limits : Option (Int × Int)

/-- Numbers in messages and listings: positional, and whole ones without a point. -/
def Layout.plain : Layout := ⟨false, none⟩

/-- Numbers in formulas: positional and always with a point, so that none reads as an integer. -/
def Layout.literal : Layout := ⟨true, none⟩

/-- Numbers in values and events: with a point, and with an exponent when very large or very small. -/
def Layout.value : Layout := ⟨true, some (-4, 16)⟩

/-- The decimal digits of a number. -/
def digits (n : Nat) : List Char := Nat.toDigits 10 n

def zeros (n : Nat) : List Char := List.replicate n '0'

/-- A whole number, with its sign. -/
def integerText (n : Int) : String :=
  (if n < 0 then "-" else "") ++ String.ofList (digits n.natAbs)

/-- A decimal with its digits in their places. -/
def positional (wholePoint : Bool) (d : Decimal) : List Char :=
  let ds := digits d.significand
  let point := ds.length + d.exponent
  if point ≤ 0 then ['0', '.'] ++ zeros (-point).toNat ++ ds
  else if d.exponent < 0 then ds.take point.toNat ++ '.' :: ds.drop point.toNat
  else ds ++ zeros d.exponent.toNat ++ if wholePoint then ['.', '0'] else []

/-- A decimal with one digit before the point and an exponent. -/
def withExponent (d : Decimal) : List Char :=
  match digits d.significand with
  | [] => []
  | first :: rest =>
    let fraction := if rest.isEmpty then [] else '.' :: rest
    first :: fraction ++ 'e' :: (integerText (rest.length + d.exponent)).toList

/-- A finite number without its sign. -/
def Layout.magnitude (layout : Layout) (coefficient : Nat) (exponent : Int) : List Char :=
  if coefficient = 0 then if layout.wholePoint then ['0', '.', '0'] else ['0']
  else
    let d := shortest coefficient exponent
    let top := (digits d.significand).length + d.exponent - 1
    match layout.limits with
    | none => positional layout.wholePoint d
    | some (low, high) =>
      if low ≤ top ∧ top < high then positional layout.wholePoint d else withExponent d

/-- The text of a number. -/
def Layout.text (layout : Layout) (x : Float) : String :=
  match quantity x with
  | .nan => "NaN"
  | .infinite negative => if negative then "-inf" else "inf"
  | .finite negative coefficient exponent =>
    String.ofList ((if negative then ['-'] else []) ++ layout.magnitude coefficient exponent)

end OdeSystem.Number
