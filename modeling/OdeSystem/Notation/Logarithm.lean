import OdeSystem.Notation.Derivative
import OdeSystem.Notation.Token

/-!
Logarithms with a subscripted base: `log_b(x)` and `log_b x` become `log(x, b)`. The argument is a group in
parentheses or else a single word; without one the text stays as it is. What has been replaced is not searched
again, and the search begins afresh behind it.
-/

namespace OdeSystem.Notation

open Text

/-- Whether a character can stand in the base of a logarithm. -/
def isBaseChar (c : Char) : Bool := isLatin c || isAsciiDigit c || c == '.'

/-- Whether a character can stand in an argument without parentheses. -/
def isArgumentChar (c : Char) : Bool := isNameChar c || c == '.'

/-- Reads `log_b` and the blanks behind it: the base and what follows. -/
def takeSubscript (text : List Char) : Option (List Char × List Char) := do
  let rest ← expect 'l' text
  let rest ← expect 'o' rest
  let rest ← expect 'g' rest
  let rest ← expectSpaced '_' rest
  let rest := trimLeft rest
  let base := rest.takeWhile isBaseChar
  if base.isEmpty then none else some (base, trimLeft (rest.dropWhile isBaseChar))

/-- Reads up to the parenthesis that closes the open one, `depth` more being open inside it: what stands before
it and what follows it. -/
def takeGroup : Nat → List Char → Option (List Char × List Char)
  | _, [] => none
  | depth, c :: rest =>
    if c = '(' then (takeGroup (depth + 1) rest).map fun (inside, behind) => (c :: inside, behind)
    else if c = ')' then
      match depth with
      | 0 => some ([], rest)
      | depth + 1 => (takeGroup depth rest).map fun (inside, behind) => (c :: inside, behind)
    else (takeGroup depth rest).map fun (inside, behind) => (c :: inside, behind)

/-- Reads the argument of a logarithm: the inside of a group, or a word. -/
def takeArgument (text : List Char) : Option (List Char × List Char) :=
  match text with
  | '(' :: rest => takeGroup 0 rest
  | text =>
    let word := text.takeWhile isArgumentChar
    if word.isEmpty then none else some (word, text.dropWhile isArgumentChar)

/-- The logarithm of an argument to a base. -/
def logarithm (argument base : List Char) : List Char :=
  "log(".toList ++ argument ++ ", ".toList ++ base ++ ")".toList

/-- One piece of a search for subscripted logarithms: a replaced logarithm, one without an argument as it
stands, or a single character. -/
def logarithmPiece (before : Option Char) (c : Char) (rest : List Char) : Cut (Option Char) (List Char) :=
  let text := c :: rest
  match if atBoundary before text then takeSubscript text else none with
  | none => ⟨[c], 0, some c⟩
  | some (base, after) =>
    match takeArgument after with
    | some (argument, behind) => ⟨logarithm argument base, rest.length - behind.length, none⟩
    | none => ⟨text.take (text.length - after.length), rest.length - after.length, none⟩

/-- Replaces every subscripted logarithm. -/
def plainLogarithms (text : List Char) : List Char := (pieces logarithmPiece none text).flatten

end OdeSystem.Notation
