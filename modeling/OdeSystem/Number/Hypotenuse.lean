import OdeSystem.Number.Binary64

/-!
The length of a hypotenuse. The root of the sum of the squares is corrected once by what its square exceeds the
sum, a residue formed from differences that lose no digits. Legs that are very long or very short are scaled
first, and a leg that is negligible beside the other is only added to it.
-/

namespace OdeSystem.Number

/-- The root of the sum of two squares, corrected once; the first leg is the longer one. -/
def correctedRoot (long short : Float) : Float :=
  let root := (long * long + short * short).sqrt
  let residue :=
    if root ≤ 2.0 * short then
      let excess := root - short
      long * (2.0 * excess - long) + (excess - 2.0 * (long - short)) * excess
    else
      let excess := root - long
      2.0 * excess * (long - 2.0 * short) + ((4.0 * excess - short) * short + excess * excess)
  root - residue / (2.0 * root)

/-- A power of two as a double. -/
def scale (exponent : Int) : Float := ofScaled false 1 exponent

/-- The length over two legs, neither negative, the first the longer one. -/
def lengthOver (long short : Float) : Float :=
  if short ≤ long * scale (-54) then long + short
  else if scale 511 < long then correctedRoot (long * scale (-600)) (short * scale (-600)) * scale 600
  else if short < scale (-459) then correctedRoot (long * scale 600) (short * scale 600) * scale (-600)
  else correctedRoot long short

/-- The length of the hypotenuse over the legs `x` and `y`; it is infinite as soon as one of them is. -/
def hypotenuse (x y : Float) : Float :=
  if isInfinite x || isInfinite y then infinity false
  else if x.abs < y.abs then lengthOver y.abs x.abs
  else lengthOver x.abs y.abs

end OdeSystem.Number
