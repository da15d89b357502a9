import OdeSystem.Number.Binary64

/-!
The shortest decimal of a double: the fewest digits that read back to the same double, and of those the
nearest to it, a tie going up. A decimal reads back when it lies in the interval of reals that round to the
double, the ends of which belong to it when the coefficient is even.
-/

namespace OdeSystem.Number

/-- The decimal `significand · 10 ^ exponent`. -/
structure Decimal where
  significand : Nat
  exponent : Int
  deriving DecidableEq, Repr

/-- The decimal with no trailing zeros in its significand; at most `bound` of them are dropped. -/
def Decimal.trimmed : Nat → Decimal → Decimal
  | 0, d => d
  | bound + 1, d =>
    if d.significand % 10 = 0 then trimmed bound ⟨d.significand / 10, d.exponent + 1⟩ else d

/-- The exponent of the power of ten just below `num / den`. -/
def decade (num den : Nat) : Int :=
  let guess : Int := ((num.log2 : Int) - den.log2 - 1) * 30103 / 100000
  let reaches (e : Int) : Bool := den * pow10 e.toNat ≤ num * pow10 (-e).toNat
  if reaches (guess + 2) then guess + 2 else if reaches (guess + 1) then guess + 1 else guess

/-- The reals that round to the double `coefficient · 2 ^ exponent`, in quarters of its unit. Below a power
of two the doubles lie twice as close. -/
structure Interval where
  low : Nat
  value : Nat
  high : Nat
  closed : Bool

def Interval.around (coefficient : Nat) (exponent : Int) : Interval where
  low := 4 * coefficient - if coefficient = pow2 52 ∧ leastExponent < exponent then 1 else 2
  value := 4 * coefficient
  high := 4 * coefficient + 2
  closed := coefficient % 2 = 0

/-- The decimal on the grid of multiples of `10 ^ place` that reads back as the double, if there is one: the
neighbour of the value below or above it that lies in the interval, of two the nearer. -/
def onGrid? (interval : Interval) (exponent : Int) (place : Int) : Option Decimal :=
  let up := pow2 (exponent - 2).toNat * pow10 (-place).toNat
  let unit := pow2 (2 - exponent).toNat * pow10 place.toNat
  let value := interval.value * up
  let below := value / unit
  let inside (d : Nat) : Bool :=
    if interval.closed then interval.low * up ≤ d * unit && d * unit ≤ interval.high * up
    else interval.low * up < d * unit && d * unit < interval.high * up
  let nearer := if 2 * (value - below * unit) < unit then below else below + 1
  let farther := if 2 * (value - below * unit) < unit then below + 1 else below
  if inside nearer then some ⟨nearer, place⟩
  else if inside farther then some ⟨farther, place⟩
  else none

/-- The shortest decimal of `coefficient · 2 ^ exponent`, where the coefficient is not zero. Seventeen digits
always suffice. -/
def shortest (coefficient : Nat) (exponent : Int) : Decimal :=
  let interval := Interval.around coefficient exponent
  let top := decade (coefficient * pow2 exponent.toNat) (pow2 (-exponent).toNat)
  let grids := (List.range 17).map fun digits : Nat => top - digits
  let found := grids.findSome? (onGrid? interval exponent)
  (found.getD ⟨0, 0⟩).trimmed 20

end OdeSystem.Number
