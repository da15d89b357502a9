import OdeSystem.Expression
import OdeSystem.Proofs.Notation.Starred

/-!
Operands of an accepted equation stay apart. A normal form is made of the tokens of the canonical notation that are no
blanks, with stars before some of them but not before the first. Where only blanks stand between two operands the rule
for products asks for a star, unless the first one is a function; and an equation with such a function is refused.
-/

namespace OdeSystem.Notation

open Text

variable {isFunction : String → Bool}

/-- The tokens that are no blanks. -/
def inkOf (list : List Token) : List Token := list.filter fun token => !token.isSpace

/-- The text of tokens with a star before each of those at the chosen places. -/
def starredText : (Nat → Bool) → List Token → List Char
  | _, [] => []
  | star, token :: rest => (if star 0 then ['*'] else []) ++ token.text ++ starredText (fun place => star (place + 1)) rest

/-- The places of the stars among the tokens that are no blanks, given the last token before them and whether there
have been blanks since then. -/
def starPlaces (isFunction : String → Bool) : Option Token → Bool → List Token → Nat → Bool
  | _, _, [] => fun _ => false
  | previous, spaced, token :: rest =>
    if token.isSpace then starPlaces isFunction previous true rest
    else fun
      | 0 => previous.any fun p => areFactors isFunction spaced p token
      | place + 1 => starPlaces isFunction (some token) false rest place

section
variable {previous : Option Token} {spaced : Bool} {token : Token} {rest : List Token}

theorem inkOf_cons_space (h : token.isSpace = true) : inkOf (token :: rest) = inkOf rest :=
  List.filter_cons_of_neg (by simp [h])

theorem inkOf_cons_ink (h : token.isSpace = false) : inkOf (token :: rest) = token :: inkOf rest :=
  List.filter_cons_of_pos (by simp [h])

theorem starPlaces_cons_space (h : token.isSpace = true) :
    starPlaces isFunction previous spaced (token :: rest) = starPlaces isFunction previous true rest := by
  rw [starPlaces, if_pos h]

theorem starPlaces_cons_zero (h : token.isSpace = false) :
    starPlaces isFunction previous spaced (token :: rest) 0 =
      previous.any fun p => areFactors isFunction spaced p token := by
  rw [starPlaces, if_neg (by simp [h])]

theorem starPlaces_cons_succ (h : token.isSpace = false) (place : Nat) :
    starPlaces isFunction previous spaced (token :: rest) (place + 1) =
      starPlaces isFunction (some token) false rest place := by
  rw [starPlaces, if_neg (by simp [h])]

end

/-- The stars between factors stand at their places. -/
theorem textOf_starredTokens (list : List Token) (previous : Option Token) (spaced : Bool) :
    textOf (starredTokens isFunction previous spaced list) =
      starredText (starPlaces isFunction previous spaced list) (inkOf list) := by
  induction list generalizing previous spaced with
  | nil => rfl
  | cons token rest ih =>
    cases hspace : token.isSpace with
    | true => rw [starredTokens_cons_space hspace, starPlaces_cons_space hspace, inkOf_cons_space hspace, ih]
    | false =>
      have hrest : (fun place => starPlaces isFunction previous spaced (token :: rest) (place + 1)) =
          starPlaces isFunction (some token) false rest := funext (starPlaces_cons_succ hspace)
      rw [starredTokens_cons_ink hspace, inkOf_cons_ink hspace, starredText, starPlaces_cons_zero hspace, hrest]
      split
      · rw [List.singleton_append, textOf_cons, textOf_cons, ih]
        rfl
      · rw [List.nil_append, textOf_cons, ih]
        rfl

/-- No star stands before the first token. -/
theorem starPlaces_zero (list : List Token) (spaced : Bool) : starPlaces isFunction none spaced list 0 = false := by
  induction list generalizing spaced with
  | nil => rfl
  | cons token rest ih =>
    cases hspace : token.isSpace with
    | true => rw [starPlaces_cons_space hspace, ih]
    | false => rw [starPlaces_cons_zero hspace, Option.any_none]

/-- Whether a star stands between two tokens with blanks between depends on these alone. -/
theorem starPlaces_spaced {left right : Token} (hleft : left.isSpace = false) (hright : right.isSpace = false)
    (before after : List Token) (blanks : List Char) (previous : Option Token) (spaced : Bool) :
    starPlaces isFunction previous spaced (before ++ left :: .space blanks :: right :: after)
      ((inkOf before).length + 1) = areFactors isFunction true left right := by
  induction before generalizing previous spaced with
  | nil =>
    rw [List.nil_append, starPlaces_cons_succ hleft, starPlaces_cons_space rfl]
    exact starPlaces_cons_zero hright
  | cons token before ih =>
    cases hspace : token.isSpace with
    | true => rw [List.cons_append, starPlaces_cons_space hspace, inkOf_cons_space hspace, ih]
    | false =>
      rw [List.cons_append, inkOf_cons_ink hspace, List.length_cons, starPlaces_cons_succ hspace, ih]

theorem Token.ink_of_isOperand {token : Token} (h : token.isOperand = true) : token.isSpace = false := by
  cases token with
  | name => rfl
  | number => rfl
  | space => cases h
  | symbol => rfl

/-- Two operands with blanks between are factors, unless the first is a function. -/
theorem areFactors_of_isOperand {left right : Token} (hleft : left.isOperand = true) (hright : right.isOperand = true)
    (hfunction : ∀ f, left = .name f → isFunction (String.ofList f) = false) :
    areFactors isFunction true left right = true := by
  cases left with
  | name f =>
    have hplain := hfunction f rfl
    cases right <;> simp_all [areFactors, Token.isOperand]
  | number digits => cases right <;> simp_all [areFactors, Token.isOperand]
  | space => cases hleft
  | symbol => cases hleft

/-- The normal form of an equation that is not refused is made of the tokens of its canonical notation without the
blanks, with stars before some of them: not before the first, but always between operands that only blanks stand
between. -/
theorem normalize_separates {isFunction : String → Bool} {equation : String}
    (accepted : spacedFunction? isFunction (canonicalize equation) = none) :
    ∃ star : Nat → Bool, star 0 = false ∧
      normalize isFunction equation =
        String.ofList (starredText star (inkOf (tokens (canonicalize equation).toList))) ∧
      ∀ before left blanks right after,
        tokens (canonicalize equation).toList = before ++ left :: .space blanks :: right :: after →
        left.isOperand = true → right.isOperand = true → star ((inkOf before).length + 1) = true := by
  have hcanonical : (canonicalize equation).toList = canonicalText equation.toList := String.toList_ofList
  refine ⟨starPlaces isFunction none false (tokens (canonicalize equation).toList), starPlaces_zero _ _, ?_, ?_⟩
  · rw [normalize, normalText, strip_insertStars, textOf_starredTokens, hcanonical]
  · intro before left blanks right after htokens hleft hright
    rw [htokens, starPlaces_spaced (Token.ink_of_isOperand hleft) (Token.ink_of_isOperand hright)]
    refine areFactors_of_isOperand hleft hright fun f hf => ?_
    by_contra hfunction
    -- A function in that place would have been found.
    have hspaced : SpacedIn isFunction (tokens (canonicalize equation).toList) :=
      ⟨f, blanks, right, ⟨before, after, by rw [htokens, hf]; simp⟩, hright, by simpa using hfunction⟩
    have hfound := isSome_findSpacedFunction_iff.mpr hspaced
    rw [spacedFunction?] at accepted
    rw [accepted] at hfound
    cases hfound

/-- Names and numbers with blanks between, and functions before parentheses only. -/
theorem normalize_separates_products :
    spacedFunction? knownFunctions.contains (canonicalize "d x / dt = 2 x y - k 3 sin (4 t)") = none ∧
      ∃ star : Nat → Bool, star 0 = false ∧
        normalize knownFunctions.contains "d x / dt = 2 x y - k 3 sin (4 t)" =
          String.ofList (starredText star
            (inkOf (tokens (canonicalize "d x / dt = 2 x y - k 3 sin (4 t)").toList))) ∧
        ∀ before left blanks right after,
          tokens (canonicalize "d x / dt = 2 x y - k 3 sin (4 t)").toList =
            before ++ left :: .space blanks :: right :: after →
          left.isOperand = true → right.isOperand = true → star ((inkOf before).length + 1) = true := by
  have accepted : spacedFunction? knownFunctions.contains (canonicalize "d x / dt = 2 x y - k 3 sin (4 t)") = none := by
    decide +kernel
  exact ⟨accepted, normalize_separates accepted⟩

end OdeSystem.Notation
