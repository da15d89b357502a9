import OdeSystem.Notation.Canonical

/-!
Products written by juxtaposition. Whether two neighbouring tokens are factors depends on what they are, on
whether a blank stands between them, and on which names are functions. The normal form of an equation writes
every product with a star and has no blanks.
-/

namespace OdeSystem.Notation

open Text

/-- Whether two tokens are factors of a product when only blanks, if any, stand between them. -/
def areFactors (isFunction : String → Bool) (spaced : Bool) (left right : Token) : Bool :=
  match left, right with
  | .name f, .name _ => spaced && !isFunction (String.ofList f)
  | .name f, .number _ => spaced && !isFunction (String.ofList f)
  | .name f, .symbol '(' => !isFunction (String.ofList f)
  | .number _, .number _ => spaced
  | .number _, .name _ => true
  | .number _, .symbol '(' => true
  | .symbol ')', .name _ => true
  | .symbol ')', .number _ => true
  | .symbol ')', .symbol '(' => true
  | _, _ => false

/-- Writes tokens with a star between factors, given the last token before them and the blanks since then. -/
def writeProducts (isFunction : String → Bool) : Option Token → Option (List Char) → List Token → List Char
  | _, blanks, [] => blanks.getD []
  | previous, blanks, token :: rest =>
    if token.isSpace then writeProducts isFunction previous (some token.text) rest
    else
      let factors := previous.any fun p => areFactors isFunction blanks.isSome p token
      let between := if factors then ['*'] else blanks.getD []
      between ++ token.text ++ writeProducts isFunction (some token) none rest

/-- The text with a star between factors. -/
def insertStars (isFunction : String → Bool) (text : List Char) : List Char :=
  writeProducts isFunction none none (tokens text)

/-- An expression with every product written with a star. -/
def insertMultiplication (isFunction : String → Bool) (expression : String) : String :=
  String.ofList (insertStars isFunction expression.toList)

/-- The text of an equation in its normal form. -/
def normalText (isFunction : String → Bool) (text : List Char) : List Char :=
  strip (insertStars isFunction (canonicalText text))

/-- The normal form of an equation. -/
def normalize (isFunction : String → Bool) (equation : String) : String :=
  String.ofList (normalText isFunction equation.toList)

/-- Finds a function before an operand without parentheses, with a blank between them. -/
def findSpacedFunction (isFunction : String → Bool) : List Token → Option String
  | .name f :: .space blanks :: operand :: rest =>
    let isOperand := match operand with
      | .name _ | .number _ => true
      | _ => false
    if isOperand && isFunction (String.ofList f) then some (String.ofList f)
    else findSpacedFunction isFunction (.space blanks :: operand :: rest)
  | _ :: rest => findSpacedFunction isFunction rest
  | [] => none

/-- The first function in an expression that is applied to an operand without parentheses. -/
def spacedFunction? (isFunction : String → Bool) (expression : String) : Option String :=
  findSpacedFunction isFunction (tokens expression.toList)

end OdeSystem.Notation
