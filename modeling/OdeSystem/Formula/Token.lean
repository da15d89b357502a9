import OdeSystem.Formula.Fault
import OdeSystem.Number.Numeral

/-!
Tokens of formulas. Signs that stand directly next to each other form one token where they can. A word is an
integer, a float, a truth value or else a name; before it becomes a name it may still form a float together with
the two lexemes behind it, as in `2e-3`.
-/

namespace OdeSystem.Formula

open Number

inductive Comparison
  | equal | unequal | less | lessEqual | greater | greaterEqual
  deriving DecidableEq, Repr

inductive Token
  | arithmetic (operation : Arithmetic)
  | power
  | not
  | and
  | or
  | compare (comparison : Comparison)
  | assign
  | update
  | openParen
  | closeParen
  | comma
  | semicolon
  | name (text : String)
  | value (v : Value)

/-- Whether a token assigns to the name before it. -/
def Token.isAssignment : Token → Bool
  | assign | update => true
  | _ => false

/-- Whether a token begins an operand. -/
def Token.beginsOperand : Token → Bool
  | openParen | name _ | value _ => true
  | _ => false

/-- Whether a token ends an operand. -/
def Token.endsOperand : Token → Bool
  | closeParen | name _ | value _ => true
  | _ => false

/-- The value that a word writes. -/
def literal? (text : List Char) : Option Value :=
  match integer? text with
  | some n => some (.int n)
  | none =>
    match float? text with
    | some x => some (.float x)
    | none =>
      if text = "true".toList then some (.boolean true)
      else if text = "false".toList then some (.boolean false)
      else none

/-- The float that a word writes together with a sign and another lexeme behind it. -/
def signedFloat? (text : List Char) : List Lexeme → Option Float
  | .sign .plus :: third :: _ => float? (text ++ '+' :: third.text)
  | .sign .minus :: third :: _ => float? (text ++ '-' :: third.text)
  | _ => none

/-- The token of a word, and the number of lexemes behind the word that belong to it. -/
def wordToken (text : List Char) (rest : List Lexeme) : Token × Nat :=
  match literal? text with
  | some v => (.value v, 0)
  | none =>
    match signedFloat? text rest with
    | some x => (.value (.float x), 2)
    | none => (.name (String.ofList text), 0)

/-- The token of an operation, which a sign of equality behind it makes an assignment. -/
def updatable (token : Token) (rest : List Lexeme) : Token × Nat :=
  match rest with
  | .sign .equals :: _ => (.update, 1)
  | _ => (token, 0)

/-- The token of a sign that has another meaning before a sign of equality. -/
def beforeEquals (token changed : Token) (rest : List Lexeme) : Token × Nat :=
  match rest with
  | .sign .equals :: _ => (changed, 1)
  | _ => (token, 0)

/-- The token of a sign that must stand twice. -/
def doubled (s : Sign) (token : Token) (rest : List Lexeme) : Except Fault (Token × Nat) :=
  match rest with
  | .sign second :: more =>
    if second = s then
      match more with
      | .sign .equals :: _ => .ok (.update, 2)
      | _ => .ok (token, 1)
    else .error (.strayLexeme (.sign s) (some (.sign second)))
  | rest => .error (.strayLexeme (.sign s) rest.head?)

/-- The token of a sign, and the number of lexemes behind it that belong to the token. -/
def signToken (s : Sign) (rest : List Lexeme) : Except Fault (Token × Nat) :=
  match s with
  | .plus => .ok (updatable (.arithmetic .add) rest)
  | .minus => .ok (updatable (.arithmetic .sub) rest)
  | .star => .ok (updatable (.arithmetic .mul) rest)
  | .slash => .ok (updatable (.arithmetic .div) rest)
  | .percent => .ok (updatable (.arithmetic .mod) rest)
  | .hat => .ok (updatable .power rest)
  | .equals => .ok (beforeEquals .assign (.compare .equal) rest)
  | .exclamation => .ok (beforeEquals .not (.compare .unequal) rest)
  | .greater => .ok (beforeEquals (.compare .greater) (.compare .greaterEqual) rest)
  | .less => .ok (beforeEquals (.compare .less) (.compare .lessEqual) rest)
  | .ampersand => doubled .ampersand .and rest
  | .bar => doubled .bar .or rest
  | .openParen => .ok (.openParen, 0)
  | .closeParen => .ok (.closeParen, 0)
  | .comma => .ok (.comma, 0)
  | .semicolon => .ok (.semicolon, 0)

/-- The tokens of a list of lexemes, of which the first `skip` belong to an earlier token. -/
def tokensFrom : Nat → List Lexeme → Except Fault (List Token)
  | _, [] => .ok []
  | skip + 1, _ :: rest => tokensFrom skip rest
  | 0, .blank :: rest => tokensFrom 0 rest
  | 0, .quoted text :: rest => (tokensFrom 0 rest).map (.value (.string (String.ofList text)) :: ·)
  | 0, .word text :: rest =>
    let (token, used) := wordToken text rest
    (tokensFrom used rest).map (token :: ·)
  | 0, .sign s :: rest =>
    match signToken s rest with
    | .error fault => .error fault
    | .ok (token, used) => (tokensFrom used rest).map (token :: ·)

/-- The tokens of a formula. -/
def tokens (text : List Char) : Except Fault (List Token) :=
  match lexemes text with
  | .error fault => .error fault.toFault
  | .ok found => tokensFrom 0 found

end OdeSystem.Formula
