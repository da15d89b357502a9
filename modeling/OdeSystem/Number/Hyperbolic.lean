import OdeSystem.Number.Hypotenuse

/-!
The inverse hyperbolic functions. They rest on the logarithm of `1 + x`, which is computed without forming the
sum where that would lose the digits of a small `x`: the sum is split into a power of two and a factor near one,
and the logarithm of the factor is a polynomial in `f / (2 + f)`, where `f` is the distance of the factor from one.
-/

namespace OdeSystem.Number

/-- The upper part of the logarithm of two, short enough that its product with an exponent is exact. -/
def lnTwoHigh : Float := 6.93147180369123816490e-01

/-- What the upper part lacks of the logarithm of two. -/
def lnTwoLow : Float := 1.90821492927058770002e-10

/-- A sum `1 + x` taken apart: it is `2 ^ exponent · (1 + distance)`, up to a rounding error whose share of the
sum is `correction`. It is `close` to a power of two when its distance is below `2 ^ -20` or so. -/
structure NearOne where
  exponent : Float
  distance : Float
  correction : Float
  close : Bool

/-- Takes a sum apart, so that the factor lies between the roots of one half and of two. -/
def NearOne.ofSum (x : Float) : NearOne :=
  let huge := 9007199254740992.0 ≤ x
  let sum := if huge then x else 1.0 + x
  let (coefficient, exponent) :=
    match quantity sum with
    | .finite _ m e => (m, m.log2 + e)
    | _ => (0, 0)
  let factor := ofScaled false coefficient (-coefficient.log2)
  let correction :=
    if huge then 0.0 else (if 0 < exponent then 1.0 - (sum - x) else x - (sum - 1.0)) / sum
  if factor < 1.4142131805419922 then
    let distance := factor - 1.0
    ⟨ofInteger exponent, distance, correction, distance < 9.5367431640625e-07⟩
  else
    let distance := factor / 2.0 - 1.0
    ⟨ofInteger (exponent + 1), distance, correction, -1.430511474609375e-06 ≤ distance⟩

/-- The tail of the series in `z = s²` for the logarithm of a factor `(1 + s) / (1 - s)`. -/
def seriesTail (z : Float) : Float :=
  let z2 := z * z
  let z4 := z2 * z2
  let z6 := z4 * z2
  z * 6.666666666666735130e-01 + z2 * (3.999999999940941908e-01 + z * 2.857142874366239149e-01) +
    z4 * (2.222219843214978396e-01 + z * 1.818357216161805012e-01) +
    z6 * (1.531383769920937332e-01 + z * 1.479819860511658591e-01)

/-- The logarithm of `1 + f` for a small `f`. -/
def logNear (f : Float) : Float :=
  let square := 0.5 * f * f
  let s := f / (2.0 + f)
  f - (square - s * (square + seriesTail (s * s)))

/-- The logarithm of a sum that has been taken apart. Close to a power of two, two terms of the series do. -/
def NearOne.log (t : NearOne) : Float :=
  let f := t.distance
  let square := 0.5 * f * f
  let low := t.exponent * lnTwoLow + t.correction
  let rest :=
    if t.close then square * (1.0 - 0.66666666666666666 * f) - low
    else
      let s := f / (2.0 + f)
      square - (s * (square + seriesTail (s * s)) + low)
  t.exponent * lnTwoHigh - (rest - f)

/-- The logarithm of `1 + x`. -/
def logOnePlus (x : Float) : Float :=
  if x.isNaN || x < -1.0 then undefined
  else if x == -1.0 then infinity true
  else if isInfinite x then x
  else if x.abs < 1.862645149230957e-09 then
    if x.abs < 5.551115123125783e-17 then x else x - x * x * 0.5
  else if -0.2928934097290039 ≤ x && x < 0.4142136573791504 then logNear x
  else (NearOne.ofSum x).log

/-- The inverse of the hyperbolic sine. It has the sign of its argument. -/
def areaSine (x : Float) : Float :=
  let size := x.abs
  let inverse := 1.0 / size
  let value := logOnePlus (size + size / (hypotenuse 1.0 inverse + inverse))
  if x < 0.0 then -value else if x == 0.0 then x else value

/-- The inverse of the hyperbolic cosine, undefined below one. -/
def areaCosine (x : Float) : Float :=
  if x < 1.0 then undefined else (x + (x - 1.0).sqrt * (x + 1.0).sqrt).log

/-- The inverse of the hyperbolic tangent. -/
def areaTangent (x : Float) : Float := 0.5 * logOnePlus (2.0 * x / (1.0 - x))

end OdeSystem.Number
