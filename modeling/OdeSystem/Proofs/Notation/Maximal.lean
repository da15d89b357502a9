import Mathlib.Data.List.Chain
import OdeSystem.Proofs.Notation.Starred

/-!
Tokens are as long as they can be. The tokens of a text lose nothing of it and are not empty; each is of its kind, and
what follows it does not go on with it. So no blanks, name or number is cut into two neighbouring tokens.
-/

namespace OdeSystem.Notation

open Text

/-- Whether two neighbouring tokens should be one: blanks behind blanks, a name with a name or a digit behind it, or a
number with a digit behind it. -/
def Token.splits : Token → Token → Bool
  | space _, space _ => true
  | name _, name _ => true
  | name _, number text => startsWithDigit text
  | number _, number text => startsWithDigit text
  | _, _ => false

section
variable {left right : Token} {c d : Char} {inner inner' more more' : List Char}

/-- What follows a token does not begin with another part of it. -/
theorem IsToken.splits_eq_false (h : IsToken left c inner (d :: (inner' ++ more')))
    (h' : IsToken right d inner' more') : left.splits right = false := by
  cases h with
  | symbol => rfl
  | space hc hinner hmore =>
    replace hmore : isBlank d = false := hmore
    cases h' with
    | space hd => simp [hd] at hmore
    | name | number | symbol => rfl
  | name hc hbegins hinner hmore =>
    replace hmore : Notation.isNameChar d = false := hmore
    cases h' with
    | space | symbol => rfl
    | name hd hbegins' =>
      rw [beginsNoName hmore] at hbegins'
      cases hbegins'
    | number hd hnone hbegins' =>
      refine Bool.eq_false_iff.mpr fun hdigit => ?_
      rw [isNameChar_of_isAsciiDigit hdigit] at hmore
      cases hmore
  | number hc hnone hbegins htext parts hdigit =>
    cases h' with
    | space | name | symbol => rfl
    | number => exact hdigit

end

/-- The tokens of a text in order are the text. None is empty, no two neighbours should be one, and each is what its kind
says, with nothing behind it that goes on with it. -/
theorem tokens_lossless_maximal (text : List Char) :
    textOf (tokens text) = text ∧ (∀ token ∈ tokens text, token.text ≠ []) ∧
    (tokens text).IsChain (fun left right => left.splits right = false) ∧
    ∀ before token after, tokens text = before ++ token :: after →
      ∃ c inner, IsToken token c inner (textOf after) := by
  refine ⟨textOf_tokens text, ?_⟩
  refine token_induction (motive := fun _ list => (∀ token ∈ list, token.text ≠ []) ∧
    list.IsChain (fun left right => left.splits right = false) ∧
    ∀ before token after, list = before ++ token :: after → ∃ c inner, IsToken token c inner (textOf after))
    ⟨by simp, .nil, by simp⟩ ?_ text
  rintro c inner behind token htoken ⟨hnonempty, hchain, hkind⟩
  refine ⟨fun other hother => ?_, hchain.cons fun next hnext => ?_, fun before other after hsplit => ?_⟩
  · rcases List.mem_cons.mp hother with rfl | hother
    · rw [htoken.text]
      exact List.cons_ne_nil _ _
    · exact hnonempty other hother
  · rcases tokens_cases behind with rfl | ⟨first, d, inner', behind', rfl, hfirst, htokens⟩
    · cases hnext
    · rw [htokens] at hnext
      cases hnext
      exact htoken.splits_eq_false hfirst
  · cases before with
    | nil =>
      obtain ⟨rfl, rfl⟩ := List.cons.inj hsplit
      rw [textOf_tokens]
      exact ⟨c, inner, htoken⟩
    | cons _ before => exact hkind before other after (List.cons.inj hsplit).2

/-- A number ends before a second point and before an exponent without digits. -/
theorem tokens_lossless_maximal_points :
    tokens "x_1  1.2.3e+y".toList = [.name ['x', '_', '1'], .space [' ', ' '], .number ['1', '.', '2'],
      .number ['.', '3'], .name ['e'], .symbol '+', .name ['y']] ∧
    Token.text (.number ['.', '3']) ≠ [] ∧
    ∃ c inner, IsToken (.number ['1', '.', '2']) c inner ".3e+y".toList := by
  have htokens : tokens "x_1  1.2.3e+y".toList = [.name ['x', '_', '1'], .space [' ', ' '], .number ['1', '.', '2'],
      .number ['.', '3'], .name ['e'], .symbol '+', .name ['y']] := by decide +kernel
  obtain ⟨-, hnonempty, -, hkind⟩ := tokens_lossless_maximal "x_1  1.2.3e+y".toList
  rw [htokens] at hnonempty hkind
  exact ⟨htokens, hnonempty _ (by simp), hkind [.name ['x', '_', '1'], .space [' ', ' ']] _ _ rfl⟩

end OdeSystem.Notation
