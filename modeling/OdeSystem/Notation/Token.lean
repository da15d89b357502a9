import OdeSystem.Text.Blank
import OdeSystem.Text.Letter
import OdeSystem.Text.Pieces

/-!
Tokens of written mathematics: names, numbers, runs of blanks, and single symbols for all else. They are as
shallow as the rules of notation allow, and lose nothing: the texts of the tokens in order are the text.
-/

namespace OdeSystem.Notation

open Text

inductive Token
  | name (text : List Char)
  | number (text : List Char)
  | space (text : List Char)
  | symbol (c : Char)
  deriving DecidableEq, Repr

/-- The characters of a token. -/
def Token.text : Token → List Char
  | name text | number text | space text => text
  | symbol c => [c]

/-- Whether a token is a run of blanks. -/
def Token.isSpace : Token → Bool
  | space _ => true
  | _ => false

/-- Whether a character can stand in a name: a letter or number of any script, or an underscore. -/
def isNameChar (c : Char) : Bool := isAlphanumeric c || c == '_'

/-- Whether a text begins with a digit. -/
def startsWithDigit (text : List Char) : Bool := text.head?.any isAsciiDigit

/-- The length of the exponent of a number: `e` or `E`, perhaps a sign, and digits. Without a digit there is
no exponent. -/
def exponentLength : List Char → Nat
  | [] => 0
  | c :: rest =>
    if c = 'e' ∨ c = 'E' then
      let sign := match rest with
        | '+' :: _ | '-' :: _ => 1
        | _ => 0
      let digits := ((rest.drop sign).takeWhile isAsciiDigit).length
      if digits = 0 then 0 else 1 + sign + digits
    else 0

/-- The length of the fraction of a number: a point and any digits. -/
def fractionLength : List Char → Nat
  | '.' :: rest => 1 + (rest.takeWhile isAsciiDigit).length
  | _ => 0

/-- The length of the number that a text begins with: digits, perhaps a fraction, perhaps an exponent. -/
def numberLength (text : List Char) : Nat :=
  let whole := (text.takeWhile isAsciiDigit).length
  let fraction := fractionLength (text.drop whole)
  whole + fraction + exponentLength (text.drop (whole + fraction))

/-- The token that a text begins with. -/
def firstToken (c : Char) (rest : List Char) : Token :=
  if isBlank c then .space (c :: rest.takeWhile isBlank)
  else if isAlphabetic c || c == '_' then .name (c :: rest.takeWhile isNameChar)
  else if isAsciiDigit c || (c == '.' && startsWithDigit rest) then
    .number ((c :: rest).take (numberLength (c :: rest)))
  else .symbol c

/-- The tokens of a text. -/
def tokens (text : List Char) : List Token :=
  pieces (fun _ c rest => let token := firstToken c rest; ⟨token, token.text.length - 1, ()⟩) () text

/-- The text of a list of tokens. -/
def textOf (tokens : List Token) : List Char := tokens.flatMap Token.text

end OdeSystem.Notation
