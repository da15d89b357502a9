import Mathlib.Data.List.Chain
import OdeSystem.Proofs.Notation.Lookahead
import OdeSystem.Proofs.Notation.Product

/-!
The tokens of a normal form. They are the tokens of the text in canonical notation without its blanks, and with stars
between factors, provided that no function stands before an operand with blanks between, and that no sign is alone that
could go on with a name or a number. So no product is left to be written in a normal form.
-/

namespace OdeSystem.Notation

open Text

variable {isFunction : String → Bool}

/-- The tokens without blanks, with stars between factors, given the last token before them and whether there have been
blanks since then. -/
def starredTokens (isFunction : String → Bool) : Option Token → Bool → List Token → List Token
  | _, _, [] => []
  | previous, spaced, token :: rest =>
    if token.isSpace then starredTokens isFunction previous true rest
    else (if previous.any fun p => areFactors isFunction spaced p token then [.symbol '*'] else []) ++
      token :: starredTokens isFunction (some token) false rest

section
variable {previous : Option Token} {spaced : Bool} {token : Token} {rest : List Token}

theorem starredTokens_cons_space (h : token.isSpace = true) :
    starredTokens isFunction previous spaced (token :: rest) = starredTokens isFunction previous true rest := by
  rw [starredTokens, if_pos h]

theorem starredTokens_cons_ink (h : token.isSpace = false) :
    starredTokens isFunction previous spaced (token :: rest) =
      (if previous.any fun p => areFactors isFunction spaced p token then [.symbol '*'] else []) ++
        token :: starredTokens isFunction (some token) false rest := by
  rw [starredTokens, if_neg (by simp [h])]

theorem IsNumber.ink {digits fraction exponent : List Char} (h : IsNumber digits fraction exponent) :
    ∀ c ∈ digits ++ fraction ++ exponent, isBlank c = false := by
  have not_digit {c : Char} (hc : isAsciiDigit c = true) : isBlank c = false := by
    cases hblank : isBlank c with
    | false => rfl
    | true =>
      rw [isAsciiDigit_of_isSeparator (isSeparator_of_isBlank hblank)] at hc
      cases hc
  obtain ⟨hdigits, hfraction, hpower⟩ := h
  intro c hc
  rcases List.mem_append.mp hc with hc | hc
  · rcases List.mem_append.mp hc with hc | hc
    · exact not_digit (hdigits c hc)
    · rcases hfraction with rfl | ⟨places, rfl, hplaces⟩
      · cases hc
      · rcases List.mem_cons.mp hc with rfl | hc
        · decide
        · exact not_digit (hplaces c hc)
  · rcases hpower with rfl | ⟨e, sign, power, rfl, he, hsign, -, hpowers⟩
    · cases hc
    · rcases List.mem_cons.mp hc with rfl | hc
      · rcases he with rfl | rfl <;> decide
      · rcases List.mem_append.mp hc with hc | hc
        · rcases hsign with rfl | rfl | rfl
          · cases hc
          · rw [List.mem_singleton.mp hc]
            decide
          · rw [List.mem_singleton.mp hc]
            decide
        · exact not_digit (hpowers c hc)

theorem IsToken.ink {c : Char} {inner more : List Char} (h : IsToken token c inner more) (hink : token.isSpace = false) :
    ∀ d ∈ c :: inner, isBlank d = false := by
  cases h with
  | space => cases hink
  | name hc hname hinner hmore =>
    intro d hd
    rcases List.mem_cons.mp hd with rfl | hd
    · exact hc
    · cases hblank : isBlank d with
      | false => rfl
      | true =>
        have := hinner d hd
        rw [isNameChar_of_isSeparator (isSeparator_of_isBlank hblank)] at this
        cases this
  | number hc hname hbegins htext parts => exact htext ▸ parts.ink
  | symbol hc => simpa using hc

theorem IsToken.allBlank {c : Char} {inner more : List Char} (h : IsToken token c inner more)
    (hspace : token.isSpace = true) : allBlank token.text = true := by
  cases h with
  | space hc hinner hmore => simpa [Token.text, Text.allBlank, hc] using hinner
  | name => cases hspace
  | number => cases hspace
  | symbol => cases hspace

/-- The normal form of a text in canonical notation. -/
theorem strip_insertStars (text : List Char) :
    strip (insertStars isFunction text) = textOf (starredTokens isFunction none false (tokens text)) := by
  suffices ∀ previous (blanks : Option (List Char)), allBlank (blanks.getD []) = true →
      strip (writeProducts isFunction previous blanks (tokens text)) =
        textOf (starredTokens isFunction previous blanks.isSome (tokens text)) from this none none rfl
  refine token_induction (motive := fun _ list => ∀ previous (blanks : Option (List Char)),
    allBlank (blanks.getD []) = true → strip (writeProducts isFunction previous blanks list) =
      textOf (starredTokens isFunction previous blanks.isSome list))
    (fun previous blanks hblanks => strip_eq_nil_of_allBlank hblanks) ?_ text
  intro c inner behind token htoken ih previous blanks hblanks
  cases hspace : token.isSpace with
  | true =>
    rw [writeProducts_cons_space hspace, starredTokens_cons_space hspace]
    exact ih previous (some token.text) (htoken.allBlank hspace)
  | false =>
    have htext : strip token.text = token.text := strip_eq_self (htoken.text ▸ htoken.ink hspace)
    rw [writeProducts_cons_ink hspace, starredTokens_cons_ink hspace, strip_append, strip_append, htext, ih _ none rfl]
    split
    · rfl
    · rw [strip_eq_nil_of_allBlank hblanks]
      rfl

end

/-! ### Tokens of a normal form -/

/-- Whether a character can go on with a name, a number or a word. -/
def clings (c : Char) : Bool := isWord c || isNameChar c || c == '.'

/-- Whether a token is a symbol that could go on with another token. -/
def Token.isStray : Token → Bool
  | symbol c => clings c
  | _ => false

/-- Whether the tokens of a text stay apart without the blanks between them: no function stands before an operand with
blanks between, and no blanks stand beside a symbol that could go on with another token. -/
structure TokensApart (isFunction : String → Bool) (tokens : List Token) : Prop where
  spaced : ¬ SpacedIn isFunction tokens
  stray : tokens.IsChain fun left right => (left.isStray && right.isSpace || left.isSpace && right.isStray) = false

section
variable {token operand : Token} {rest : List Token} {blanks : List Char}

instance (tokens : List Token) : Decidable (TokensApart isFunction tokens) :=
  decidable_of_iff (¬ (findSpacedFunction isFunction tokens).isSome = true ∧
    tokens.IsChain fun left right => (left.isStray && right.isSpace || left.isSpace && right.isStray) = false) <| by
    rw [isSome_findSpacedFunction_iff]
    exact ⟨fun h => ⟨h.1, h.2⟩, fun h => ⟨h.spaced, h.stray⟩⟩

theorem TokensApart.tail (h : TokensApart isFunction (token :: rest)) : TokensApart isFunction rest where
  spaced := fun ⟨f, blanks, operand, hin, hrest⟩ => h.spaced ⟨f, blanks, operand, List.infix_cons hin, hrest⟩
  stray := h.stray.tail

theorem TokensApart.not_stray (h : TokensApart isFunction (token :: .space blanks :: operand :: rest)) :
    token.isStray = false ∧ operand.isStray = false := by
  obtain ⟨hleft, hright⟩ := List.isChain_cons_cons.mp h.stray
  have hright := (List.isChain_cons_cons.mp hright).1
  simp only [Token.isSpace, Bool.and_true, Bool.true_and, Bool.or_eq_false_iff] at hleft hright
  exact ⟨hleft.1, hright.2⟩

/-- Of two tokens with blanks between that are no factors, one is a symbol. -/
theorem TokensApart.not_operands (h : TokensApart isFunction (token :: .space blanks :: operand :: rest))
    (hfactors : areFactors isFunction true token operand = false) :
    token.isOperand = false ∨ operand.isOperand = false := by
  by_contra hnot
  obtain ⟨htoken, hoperand⟩ : token.isOperand = true ∧ operand.isOperand = true := by simpa using hnot
  cases token with
  | name f =>
    cases hf : isFunction (String.ofList f) with
    | true => exact h.spaced ⟨f, blanks, operand, ⟨[], rest, rfl⟩, hoperand, hf⟩
    | false => cases operand <;> simp_all [areFactors, Token.isOperand]
  | number digits => cases operand <;> simp_all [areFactors, Token.isOperand]
  | space => cases htoken
  | symbol => cases htoken

variable {c d : Char} {inner behind : List Char}

theorem isNameChar_of_isAsciiDigit (h : isAsciiDigit c = true) : isNameChar c = true := by
  have hid : isIdentifierChar c = true := by simp [isIdentifierChar, h]
  simp [isNameChar, isAlphanumeric_of_isIdentifierChar hid]

theorem canPrecede_of_not_clings {more more' : List Char} (hink : token.isSpace = false)
    (h : more'.head?.any clings = false) : token.CanPrecede more more' := by
  have hhead {p : Char → Bool} (hp : ∀ {c}, p c = true → clings c = true) : more'.head?.any p = false := by
    cases more' with
    | nil => rfl
    | cons d more' =>
      cases hd : p d with
      | false => exact hd
      | true => exact absurd (hp hd) (by simpa using h)
  have hnot {c : Char} (hc : clings c = true) : more'.head? ≠ some c := fun heq => by
    rw [heq, Option.any_some, hc] at h
    cases h
  have hdigit : more'.head?.any isAsciiDigit = false := hhead fun hc => by simp [clings, isNameChar_of_isAsciiDigit hc]
  cases token with
  | name f => exact hhead fun hc => by simp [clings, hc]
  | number digits =>
    refine ⟨hdigit, hnot ?_, hnot ?_, fun heq => ?_⟩
    · simp [clings, isWord_of_isIdentifierChar (show isIdentifierChar 'e' = true by decide)]
    · simp [clings, isWord_of_isIdentifierChar (show isIdentifierChar 'E' = true by decide)]
    · exact absurd heq (hnot (by simp [clings]))
  | space => cases hink
  | symbol c => exact fun _ => hdigit

theorem IsToken.exists_name (h : IsToken token c inner behind) (hblank : isBlank c = false)
    (halpha : isAlphabetic c = true) : ∃ text, token = .name text := by
  cases h with
  | space hc =>
    rw [hblank] at hc
    cases hc
  | name => exact ⟨_, rfl⟩
  | number hc hname => simp [halpha] at hname
  | symbol hc hname => simp [halpha] at hname

/-- What follows a token directly does not go on with it, for a number is a factor before a name. -/
theorem canPrecede_of_next {next : Token} {c' : Char} {inner' behind' more' : List Char}
    (htoken : IsToken token c inner behind) (hink : token.isSpace = false) (hbehind : behind = c' :: (inner' ++ behind'))
    (hnext : IsToken next c' inner' behind') (hfactors : areFactors isFunction false token next = false) :
    token.CanPrecede behind (c' :: more') := by
  subst hbehind
  cases htoken with
  | space => cases hink
  | name hc hname hinner hmore => exact hmore
  | symbol hc hname hnumber =>
    rintro rfl
    exact (Bool.or_eq_false_iff.mp hnumber).2
  | number hc hname hbegins htext parts hdigit hp hexponent =>
    have hletter {d : Char} (hblank : isBlank d = false) (halpha : isAlphabetic d = true) :
        (c' :: more').head? ≠ some d := by
      intro heq
      obtain ⟨text, rfl⟩ := hnext.exists_name (Option.some.inj heq ▸ hblank) (Option.some.inj heq ▸ halpha)
      cases hfactors
    exact ⟨hdigit, hletter (by decide) (by decide +kernel), hletter (by decide) (by decide +kernel), fun heq => heq⟩

/-- Behind a run of blanks stands none. -/
theorem IsToken.ink_behind {blanks : List Char} {next : Token} {c' : Char} {inner' behind' : List Char}
    (h : IsToken (.space blanks) c inner (c' :: (inner' ++ behind'))) (hnext : IsToken next c' inner' behind') :
    next.isSpace = false := by
  cases h with
  | space hc hinner hmore =>
    cases hnext with
    | space hc' => exact absurd hc' (by simpa using hmore)
    | name => rfl
    | number => rfl
    | symbol => rfl

/-- What follows a token behind blanks does not go on with it without them, unless the two are factors. -/
theorem TokensApart.canPrecede_spaced {next : Token} {c' : Char} {inner' behind' more more' : List Char}
    (h : TokensApart isFunction (token :: .space blanks :: next :: rest)) (hink : token.isSpace = false)
    (hink' : next.isSpace = false) (hnext : IsToken next c' inner' behind')
    (hfactors : areFactors isFunction true token next = false) : token.CanPrecede more (c' :: more') := by
  obtain ⟨hleft, hright⟩ := h.not_stray
  rcases h.not_operands hfactors with hsymbol | hsymbol
  · cases token with
    | name => cases hsymbol
    | number => cases hsymbol
    | space => cases hink
    | symbol c => exact fun hpoint => absurd hleft (by simp [Token.isStray, clings, hpoint])
  · cases hnext with
    | space => cases hink'
    | name => cases hsymbol
    | number => cases hsymbol
    | symbol => exact canPrecede_of_not_clings hink hright

theorem exists_space_of_isSpace (h : token.isSpace = true) : ∃ blanks, token = .space blanks := by
  cases token with
  | space blanks => exact ⟨blanks, rfl⟩
  | name => cases h
  | number => cases h
  | symbol => cases h

/-- Without the blanks behind it, and with stars between factors, a token stays as it is. -/
theorem TokensApart.canPrecede (h : TokensApart isFunction (token :: tokens behind)) (htoken : IsToken token c inner behind)
    (hink : token.isSpace = false) :
    token.CanPrecede behind (textOf (starredTokens isFunction (some token) false (tokens behind))) := by
  have hstar (rest : List Token) : (textOf ([.symbol '*'] ++ rest)).head?.any clings = false := by
    rw [List.singleton_append, textOf_cons]
    exact (show clings '*' = false by decide +kernel)
  rcases tokens_cases behind with rfl | ⟨next, c', inner', behind', hbehind, hnext, htokens⟩
  · exact canPrecede_of_not_clings hink rfl
  rw [htokens] at h ⊢
  cases hspace : next.isSpace with
  | false =>
    rw [starredTokens_cons_ink hspace, Option.any_some]
    cases hfactors : areFactors isFunction false token next with
    | true => exact canPrecede_of_not_clings hink (hstar _)
    | false =>
      rw [if_neg Bool.false_ne_true, List.nil_append, textOf_cons, hnext.text]
      exact canPrecede_of_next htoken hink hbehind hnext hfactors
  | true =>
    obtain ⟨blanks, rfl⟩ := exists_space_of_isSpace hspace
    rw [starredTokens_cons_space hspace]
    rcases tokens_cases behind' with rfl | ⟨operand, c'', inner'', behind'', rfl, hoperand, htokens'⟩
    · exact canPrecede_of_not_clings hink rfl
    have hink' : operand.isSpace = false := hnext.ink_behind hoperand
    rw [htokens'] at h ⊢
    rw [starredTokens_cons_ink hink', Option.any_some]
    cases hfactors : areFactors isFunction true token operand with
    | true => exact canPrecede_of_not_clings hink (hstar _)
    | false =>
      rw [if_neg Bool.false_ne_true, List.nil_append, textOf_cons, hoperand.text]
      exact h.canPrecede_spaced hink hink' hoperand hfactors

theorem tokens_star (rest : List Char) : tokens ('*' :: rest) = .symbol '*' :: tokens rest := by
  have hstar : IsToken (.symbol '*') '*' [] rest := .symbol (by decide) (by decide +kernel) rfl
  exact hstar.tokens_eq

/-- The tokens of a normal form are those it has been written with. -/
theorem TokensApart.tokens_starred (text : List Char) : TokensApart isFunction (tokens text) →
    ∀ (previous : Option Token) (spaced : Bool),
      tokens (textOf (starredTokens isFunction previous spaced (tokens text))) =
        starredTokens isFunction previous spaced (tokens text) := by
  refine token_induction (motive := fun _ list => TokensApart isFunction list → ∀ (previous : Option Token) (spaced : Bool),
    tokens (textOf (starredTokens isFunction previous spaced list)) = starredTokens isFunction previous spaced list)
    (fun _ _ _ => rfl) ?_ text
  intro c inner behind token htoken ih apart previous spaced
  cases hspace : token.isSpace with
  | true => exact starredTokens_cons_space hspace ▸ ih apart.tail previous true
  | false =>
    have hrest := ih apart.tail (some token) false
    have htokens : tokens (textOf (token :: starredTokens isFunction (some token) false (tokens behind))) =
        token :: starredTokens isFunction (some token) false (tokens behind) := by
      rw [textOf_cons, (htoken.before (apart.canPrecede htoken hspace)).tokens_eq, hrest]
    rw [starredTokens_cons_ink hspace]
    split
    · rw [List.singleton_append, textOf_cons]
      exact (tokens_star _).trans (congrArg _ htokens)
    · exact htokens

theorem areFactors_spaced {left right : Token} (spaced : Bool) (h : areFactors isFunction false left right = true) :
    areFactors isFunction spaced left right = true := by
  unfold areFactors at h ⊢
  split at h <;> simp_all

/-- No product is left to be written. -/
theorem writeProducts_starredTokens (list : List Token) (previous : Option Token) (spaced : Bool) :
    writeProducts isFunction previous none (starredTokens isFunction previous spaced list) =
      textOf (starredTokens isFunction previous spaced list) := by
  induction list generalizing previous spaced with
  | nil => rfl
  | cons token rest ih =>
    cases hspace : token.isSpace with
    | true =>
      rw [starredTokens_cons_space hspace]
      exact ih previous true
    | false =>
      have hrest := ih (some token) false
      rw [starredTokens_cons_ink hspace]
      split
      · have hstar : (previous.any fun p => areFactors isFunction false p (.symbol '*')) = false := by
          cases previous with
          | none => rfl
          | some p => exact areFactors_symbol_right (by decide) false p
        rw [List.singleton_append, writeProducts_cons_ink rfl, writeProducts_cons_ink hspace, hrest, textOf_cons,
          textOf_cons]
        simp [hstar, areFactors_symbol_left]
      · rename_i hfactors
        have hfactors' : (previous.any fun p => areFactors isFunction false p token) = false := by
          cases previous with
          | none => rfl
          | some p =>
            cases hp : areFactors isFunction false p token with
            | false => exact hp
            | true => exact absurd (areFactors_spaced spaced hp) hfactors
        rw [List.nil_append, writeProducts_cons_ink hspace, hrest, textOf_cons]
        simp [hfactors']

/-- Writing the products of a normal form, and leaving out the blanks, changes nothing. -/
theorem TokensApart.insertStars_strip {text : List Char} (apart : TokensApart isFunction (tokens text)) :
    strip (insertStars isFunction (strip (insertStars isFunction text))) = strip (insertStars isFunction text) := by
  have hproducts : insertStars isFunction (strip (insertStars isFunction text)) = strip (insertStars isFunction text) := by
    rw [strip_insertStars, insertStars, apart.tokens_starred, writeProducts_starredTokens]
  rw [hproducts, strip_strip]

end

end OdeSystem.Notation
