import OdeSystem.Text.Blank
import OdeSystem.Text.Pieces

/-!
Vector literals: two or more parts between doubled parentheses or doubled brackets, separated by commas. Inside
a part, parentheses and brackets of either kind open and close groups, whose commas do not separate parts. A
text is cut into its literals, from left to right and each as soon as one can begin, and the characters between
them; put together again, the pieces are the text.
-/

namespace OdeSystem.Vector

open Text

/-- The two kinds of brackets that vectors are written with. -/
inductive Bracket
  | round
  | square
  deriving DecidableEq, Repr

def Bracket.opening : Bracket → Char
  | round => '('
  | square => '['

def Bracket.closing : Bracket → Char
  | round => ')'
  | square => ']'

/-- A vector literal, its parts as they stand between the commas. -/
structure Literal where
  bracket : Bracket
  parts : List (List Char)
  two_le_parts : 2 ≤ parts.length
  deriving DecidableEq

namespace Literal

/-- The number of parts. -/
def dimension (l : Literal) : Nat := l.parts.length

/-- The parts without blanks around them. -/
def components (l : Literal) : List (List Char) := l.parts.map trim

/-- The literal as it is written. -/
def text (l : Literal) : List Char :=
  [l.bracket.opening, l.bracket.opening] ++ List.intercalate [','] l.parts ++
    [l.bracket.closing, l.bracket.closing]

end Literal

/-- Puts a character in front of the first of several parts. -/
def pushChar (c : Char) : List (List Char) → List (List Char)
  | part :: parts => (c :: part) :: parts
  | [] => [[c]]

/-- Reads the parts of a literal up to and with the brackets that close it, and gives what follows. `depth`
groups are open. A closing bracket outside of all groups must be of the literal's kind, and doubled. -/
def takeParts (closing : Char) : Nat → List Char → Option (List (List Char) × List Char)
  | _, [] => none
  | depth, c :: rest =>
    if c = '(' ∨ c = '[' then
      (takeParts closing (depth + 1) rest).map fun (parts, behind) => (pushChar c parts, behind)
    else if c = ')' ∨ c = ']' then
      match depth with
      | depth + 1 => (takeParts closing depth rest).map fun (parts, behind) => (pushChar c parts, behind)
      | 0 => if c = closing ∧ rest.head? = some closing then some ([[]], rest.tail) else none
    else if c = ',' ∧ depth = 0 then
      (takeParts closing depth rest).map fun (parts, behind) => ([] :: parts, behind)
    else (takeParts closing depth rest).map fun (parts, behind) => (pushChar c parts, behind)

/-- Reads a literal with the given brackets, from behind the two that open it. -/
def takeBody (bracket : Bracket) (text : List Char) : Option (Literal × List Char) :=
  match takeParts bracket.closing 0 text with
  | some (parts, behind) => if h : 2 ≤ parts.length then some (⟨bracket, parts, h⟩, behind) else none
  | none => none

/-- Reads a literal. -/
def takeLiteral : List Char → Option (Literal × List Char)
  | '(' :: '(' :: rest => takeBody .round rest
  | '[' :: '[' :: rest => takeBody .square rest
  | _ => none

/-- A piece of a text with vector literals. -/
inductive Piece
  | char (c : Char)
  | literal (l : Literal)
  deriving DecidableEq

/-- The text of a piece. -/
def Piece.text : Piece → List Char
  | char c => [c]
  | literal l => l.text

def Piece.literal? : Piece → Option Literal
  | char _ => none
  | literal l => some l

def Piece.char? : Piece → Option Char
  | char c => some c
  | literal _ => none

/-- The piece that begins with a character. -/
def cutPiece (_ : Unit) (c : Char) (rest : List Char) : Cut Unit Piece :=
  match takeLiteral (c :: rest) with
  | some (l, behind) => ⟨.literal l, rest.length - behind.length, ()⟩
  | none => ⟨.char c, 0, ()⟩

/-- The pieces of a text. -/
def pieces (text : List Char) : List Piece := Text.pieces cutPiece () text

/-- The vector literals among pieces, in order. -/
def literals (pieces : List Piece) : List Literal := pieces.filterMap Piece.literal?

/-- Whether a text holds a vector literal. -/
def hasLiteral (text : List Char) : Bool := !(literals (pieces text)).isEmpty

/-- A vector literal with its place in a text, in bytes. -/
structure Located where
  start : Nat
  stop : Nat
  literal : Literal

/-- The literals among pieces, the first of which begins at the given place. -/
def locate : Nat → List Piece → List Located
  | _, [] => []
  | start, .char c :: rest => locate (start + c.utf8Size) rest
  | start, .literal l :: rest =>
    let stop := start + byteLength l.text
    ⟨start, stop, l⟩ :: locate stop rest

/-- The vector literals of a text with their places. -/
def find (text : String) : List Located := locate 0 (pieces text.toList)

end OdeSystem.Vector
