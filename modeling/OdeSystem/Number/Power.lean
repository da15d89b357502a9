/-!
Powers of two and of ten. Doubles are exact quantities over powers of two, decimals over powers of ten.
-/

namespace OdeSystem.Number

/-- Two to the power `n`. -/
def pow2 (n : Nat) : Nat := Nat.pow 2 n

/-- Ten to the power `n`. -/
def pow10 (n : Nat) : Nat := Nat.pow 10 n

end OdeSystem.Number
