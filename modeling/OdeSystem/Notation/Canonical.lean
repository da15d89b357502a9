import OdeSystem.Notation.Logarithm

/-!
Canonical notation: one sign for minus, one form of each derivative, and no subscripted logarithms. Blanks stay
as they are, for they may still stand between factors.
-/

namespace OdeSystem.Notation

/-- Whether a character is a dash that stands for a minus. -/
def isDash (c : Char) : Bool := c == '\u2013' || c == '\u2014' || c == '\u2212'

/-- The text with every minus written as a hyphen. -/
def plainMinus (text : List Char) : List Char := text.map fun c => if isDash c then '-' else c

/-- The text in canonical notation. -/
def canonicalText (text : List Char) : List Char := plainLogarithms (plainDerivatives (plainMinus text))

/-- An equation in canonical notation. -/
def canonicalize (equation : String) : String := String.ofList (canonicalText equation.toList)

end OdeSystem.Notation
