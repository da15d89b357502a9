import OdeSystem.Number.Power

/-!
Double-precision numbers as exact quantities. A finite one is a whole coefficient times a power of two, read
off its bits; the other way round, any ratio of whole numbers has a nearest double, a tie going to the even
coefficient. Remainders are computed on the exact quantities and rounded once.
-/

namespace OdeSystem.Number

/-- What a double-precision number stands for; a finite one for `±coefficient · 2 ^ exponent`. -/
inductive Quantity
  | nan
  | infinite (negative : Bool)
  | finite (negative : Bool) (coefficient : Nat) (exponent : Int)
  deriving DecidableEq, Repr

/-- The least exponent of a double. -/
def leastExponent : Int := -1074

/-- What a number stands for. The coefficient has 53 bits unless the exponent is the least. -/
def quantity (x : Float) : Quantity :=
  let bits := x.toBits.toNat
  let negative := bits / pow2 63 % 2 == 1
  let biased : Nat := bits / pow2 52 % 2048
  let fraction : Nat := bits % pow2 52
  if biased = 2047 then
    if fraction = 0 then .infinite negative else .nan
  else if biased = 0 then
    .finite negative fraction leastExponent
  else
    .finite negative (pow2 52 + fraction) (biased - 1075)

/-- Whether a number is neither infinite nor undefined. -/
def isFinite (x : Float) : Bool :=
  match quantity x with
  | .finite .. => true
  | _ => false

/-- Whether a number is a power of two times a coefficient of full width. -/
def isNormal (x : Float) : Bool :=
  match quantity x with
  | .finite _ coefficient _ => pow2 52 ≤ coefficient
  | _ => false

def isInfinite (x : Float) : Bool :=
  match quantity x with
  | .infinite _ => true
  | _ => false

/-- The number with the given sign, fraction bits and biased exponent. -/
def assemble (negative : Bool) (biased fraction : Nat) : Float :=
  Float.ofBits (.ofNat ((if negative then pow2 63 else 0) + biased * pow2 52 + fraction))

def infinity (negative : Bool) : Float := assemble negative 2047 0

/-- A whole quotient rounded to the nearest, a tie to the even neighbour. -/
def roundDiv (num den : Nat) : Nat :=
  let q := num / den
  let r := num % den
  if 2 * r < den then q else if den < 2 * r then q + 1 else q + q % 2

/-- `num / den` as a fraction in units of `2 ^ exponent`. -/
def inUnits (num den : Nat) (exponent : Int) : Nat × Nat :=
  (num * pow2 (-exponent).toNat, den * pow2 exponent.toNat)

/-- The exponent at which the coefficient of `num / den` has 53 bits, or the least one. -/
def fittingExponent (num den : Nat) : Int :=
  let guess : Int := (num.log2 : Int) - den.log2 - 53
  let (n, d) := inUnits num den guess
  max leastExponent (if pow2 53 * d ≤ n then guess + 1 else guess)

/-- The double nearest to `±num / den`; beyond the largest double it is infinite. -/
def ofRatio (negative : Bool) (num den : Nat) : Float :=
  if num = 0 then assemble negative 0 0
  else
    let exponent := fittingExponent num den
    let (n, d) := inUnits num den exponent
    let rounded := roundDiv n d
    let (coefficient, exponent) := if rounded = pow2 53 then (pow2 52, exponent + 1) else (rounded, exponent)
    if coefficient < pow2 52 then assemble negative 0 coefficient
    else if 971 < exponent then infinity negative
    else assemble negative (exponent + 1075).toNat (coefficient - pow2 52)

/-- The double for `±coefficient · 2 ^ exponent`. -/
def ofScaled (negative : Bool) (coefficient : Nat) (exponent : Int) : Float :=
  ofRatio negative (coefficient * pow2 exponent.toNat) (pow2 (-exponent).toNat)

/-- The double nearest to an integer. -/
def ofInteger (n : Int) : Float := ofRatio (n < 0) n.natAbs 1

def undefined : Float := 0.0 / 0.0

/-- The remainder of the division that rounds its quotient toward zero; it has the sign of the dividend. -/
def remainder (x y : Float) : Float :=
  match quantity x, quantity y with
  | .finite negative m p, .finite _ n q =>
    if n = 0 then undefined
    else
      let least := min p q
      ofScaled negative (m * pow2 (p - least).toNat % (n * pow2 (q - least).toNat)) least
  | .finite .., .infinite _ => x
  | _, _ => undefined

end OdeSystem.Number
