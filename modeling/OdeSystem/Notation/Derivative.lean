import OdeSystem.Text.Blank
import OdeSystem.Text.Pieces
import OdeSystem.Text.Word

/-!
Spellings of derivatives. A derivative by time is a numerator over a denominator, with blanks allowed almost
everywhere and parentheses around either. Three spellings are brought to the one form `dx/dt`; the equation
compiler knows that form, and the vector expander the spaced form of the derivative of an alias.

Each recogniser reads a text from its front and gives what follows what it has read.
-/

namespace OdeSystem.Notation

open Text

/-- Reads one character. -/
def expect (c : Char) : List Char → Option (List Char)
  | d :: rest => if d = c then some rest else none
  | [] => none

/-- Reads one character behind any blanks. -/
def expectSpaced (c : Char) (text : List Char) : Option (List Char) := expect c (trimLeft text)

/-- Reads one character if it is there. -/
def accept (c : Char) (text : List Char) : List Char := (expect c text).getD text

/-- Reads one character behind any blanks if it is there, and the blanks if not. -/
def acceptSpaced (c : Char) (text : List Char) : List Char := accept c (trimLeft text)

/-- Reads a name: a letter of ASCII or an underscore, and all the word characters behind it. -/
def takeName : List Char → Option (List Char × List Char)
  | [] => none
  | c :: rest => if isNameStart c then some (c :: rest.takeWhile isWord, rest.dropWhile isWord) else none

/-- Reads a name behind any blanks. -/
def takeNameSpaced (text : List Char) : Option (List Char × List Char) := takeName (trimLeft text)

/-- Reads the variable of time, in either case. -/
def takeTime : List Char → Option (List Char)
  | 't' :: rest | 'T' :: rest => some rest
  | _ => none

/-- Reads the denominator of a derivative: `dt`, `d t` or `(d t)`. Without parentheses no word character may
follow it. -/
def takeDenominator (text : List Char) : Option (List Char) :=
  match text with
  | '(' :: rest => do
    let rest ← expectSpaced 'd' rest
    let rest ← takeTime (trimLeft rest)
    expectSpaced ')' rest
  | 'd' :: rest => do
    let rest ← takeTime (trimLeft rest)
    if rest.head?.any isWord then none else some rest
  | _ => none

/-- Reads the line of the fraction and the denominator below it. -/
def takeOverTime (text : List Char) : Option (List Char) := do
  let rest ← expectSpaced '/' text
  takeDenominator (trimLeft rest)

/-- Reads a derivative whose numerator stands in parentheses: `(d y)/dt`, `(d(y))/(d t)`. Also `(d(y)/dt` and
`(d y))/dt` are read, for each inner parenthesis may be missing. -/
def takeWrapped (text : List Char) : Option (List Char × List Char) := do
  let rest ← expect '(' text
  let rest ← expectSpaced 'd' rest
  let (name, rest) ← takeNameSpaced (acceptSpaced '(' rest)
  let rest ← expectSpaced ')' rest
  let rest ← takeOverTime (acceptSpaced ')' rest)
  some (name, rest)

/-- Reads a derivative with parentheses around its variable: `d(y)/dt`. -/
def takeApplied (text : List Char) : Option (List Char × List Char) := do
  let rest ← expect 'd' text
  let rest ← expectSpaced '(' rest
  let (name, rest) ← takeNameSpaced rest
  let rest ← expectSpaced ')' rest
  let rest ← takeOverTime rest
  some (name, rest)

/-- Reads a derivative without parentheses in its numerator: `dy/dt`, `d y / d t`. -/
def takePlain (text : List Char) : Option (List Char × List Char) := do
  let rest ← expect 'd' text
  let (name, rest) ← takeNameSpaced rest
  let rest ← takeOverTime rest
  some (name, rest)

/-- The one form of the derivative of a variable. -/
def derivative (name : List Char) : List Char := 'd' :: name ++ ['/', 'd', 't']

/-- The search for a spelling, which may be bound to begin at a word boundary. -/
def derivativeFinder (atWord : Bool) (take : List Char → Option (List Char × List Char)) : Finder :=
  fun before c rest =>
    if atWord && !atBoundary before (c :: rest) then none
    else (take (c :: rest)).map fun (name, behind) => (derivative name, rest.length - behind.length)

/-- Brings every spelling of a derivative to its one form, one kind of spelling after the other. -/
def plainDerivatives (text : List Char) : List Char :=
  replaceAll (derivativeFinder true takePlain)
    (replaceAll (derivativeFinder true takeApplied)
      (replaceAll (derivativeFinder false takeWrapped) text))

/-! ### Whole texts -/

/-- Whether a text is a name. -/
def isName (text : List Char) : Bool :=
  match takeName text with
  | some (_, []) => true
  | _ => false

/-- The variable of a derivative in its one form, where each part of the fraction may be in parentheses; those
need not match. -/
def derivativeOf? (text : List Char) : Option (List Char) := do
  let rest ← expect 'd' (accept '(' text)
  let (name, rest) ← takeName rest
  let rest ← expect '/' (accept ')' rest)
  let rest ← expect 'd' (accept '(' rest)
  let rest ← takeTime rest
  if (accept ')' rest).isEmpty then some name else none

/-- The variable of a derivative written without parentheses, blanks allowed. -/
def spacedDerivativeOf? (text : List Char) : Option (List Char) := do
  let rest ← expect 'd' text
  let (name, rest) ← takeNameSpaced rest
  let rest ← expectSpaced '/' rest
  let rest ← expectSpaced 'd' rest
  let rest ← takeTime (trimLeft rest)
  if rest.isEmpty then some name else none

end OdeSystem.Notation
