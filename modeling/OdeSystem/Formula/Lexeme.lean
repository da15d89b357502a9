import OdeSystem.Text.Blank
import OdeSystem.Text.Pieces
import OdeSystem.Text.Quoted

/-!
Lexemes of formulas. Each sign is a lexeme of its own, all blanks are alike, a text in double quotes is one
lexeme, and a run of other characters is a word. Comments leave nothing behind, so the characters on both
sides of one may form a single word.
-/

namespace OdeSystem.Formula

open Text

/-- The signs of formulas. -/
inductive Sign
  | plus | minus | star | slash | percent | hat | equals | exclamation | greater | less | ampersand | bar
  | openParen | closeParen | comma | semicolon
  deriving DecidableEq, Repr

/-- The sign that a character is. -/
def Sign.ofChar? : Char → Option Sign
  | '+' => some .plus
  | '-' => some .minus
  | '*' => some .star
  | '/' => some .slash
  | '%' => some .percent
  | '^' => some .hat
  | '=' => some .equals
  | '!' => some .exclamation
  | '>' => some .greater
  | '<' => some .less
  | '&' => some .ampersand
  | '|' => some .bar
  | '(' => some .openParen
  | ')' => some .closeParen
  | ',' => some .comma
  | ';' => some .semicolon
  | _ => none

/-- The character that a sign is. -/
def Sign.char : Sign → Char
  | plus => '+'
  | minus => '-'
  | star => '*'
  | slash => '/'
  | percent => '%'
  | hat => '^'
  | equals => '='
  | exclamation => '!'
  | greater => '>'
  | less => '<'
  | ampersand => '&'
  | bar => '|'
  | openParen => '('
  | closeParen => ')'
  | comma => ','
  | semicolon => ';'

theorem Sign.ofChar?_char (s : Sign) : Sign.ofChar? s.char = some s := by
  cases s <;> rfl

inductive Lexeme
  | sign (s : Sign)
  | blank
  | quoted (text : List Char)
  | word (text : List Char)
  deriving DecidableEq, Repr

/-- A lexeme as messages show it. -/
def Lexeme.text : Lexeme → List Char
  | sign s => [s.char]
  | blank => [' ']
  | quoted text => (quote (String.ofList text)).toList
  | word text => text

/-- What may be wrong with the lexemes of a text. -/
inductive LexicalFault
  | unmatchedQuote
  | illegalEscape (text : List Char)
  | unmatchedComment
  deriving DecidableEq, Repr

/-- Reads a quoted text from behind its opening quote, with the number of characters up to and with the
closing one. A backslash may stand before a quote or a backslash only. -/
def quotedText : List Char → Except LexicalFault (List Char × Nat)
  | [] => .error .unmatchedQuote
  | '"' :: _ => .ok ([], 1)
  | '\\' :: c :: rest =>
    if c = '"' ∨ c = '\\' then (quotedText rest).map fun (text, n) => (c :: text, n + 2)
    else .error (.illegalEscape ['\\', c])
  | ['\\'] => .error (.illegalEscape ['\\'])
  | c :: rest => (quotedText rest).map fun (text, n) => (c :: text, n + 1)

/-- The length of a comment that runs to the end of its line, or of the text. -/
def lineCommentLength : List Char → Nat
  | [] => 0
  | '\n' :: _ => 1
  | _ :: rest => lineCommentLength rest + 1

/-- The length of a comment up to and with its end, from behind its beginning. -/
def blockCommentLength? : List Char → Option Nat
  | '*' :: '/' :: _ => some 2
  | _ :: rest => (blockCommentLength? rest).map (· + 1)
  | [] => none

/-- A piece of a text: a lexeme, a comment, or something wrong. -/
abbrev LexicalPiece := Except LexicalFault (Option Lexeme)

/-- The lexeme of a single character. -/
def Lexeme.ofChar (c : Char) : Lexeme :=
  match Sign.ofChar? c with
  | some s => .sign s
  | none => if isBlank c then .blank else .word [c]

/-- The piece that begins with a character. -/
def lexicalPiece (_ : Unit) (c : Char) (rest : List Char) : Cut Unit LexicalPiece :=
  match c, rest with
  | '"', rest =>
    match quotedText rest with
    | .ok (text, n) => ⟨.ok (some (.quoted text)), n, ()⟩
    | .error fault => ⟨.error fault, rest.length, ()⟩
  | '/', '/' :: rest => ⟨.ok none, 1 + lineCommentLength rest, ()⟩
  | '/', '*' :: rest =>
    match blockCommentLength? rest with
    | some n => ⟨.ok none, 1 + n, ()⟩
    | none => ⟨.error .unmatchedComment, 1 + rest.length, ()⟩
  | c, _ => ⟨.ok (some (.ofChar c)), 0, ()⟩

/-- Joins words that stand next to each other. -/
def joinWords : List Lexeme → List Lexeme
  | [] => []
  | .word text :: rest =>
    match joinWords rest with
    | .word more :: others => .word (text ++ more) :: others
    | others => .word text :: others
  | lexeme :: rest => lexeme :: joinWords rest

/-- The lexemes of a text; of several faults the first is reported. -/
def lexemes (text : List Char) : Except LexicalFault (List Lexeme) :=
  ((pieces lexicalPiece () text).mapM id).map fun found => joinWords (found.filterMap id)

end OdeSystem.Formula
