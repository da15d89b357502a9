import OdeSystem.Notation.Dialect
import OdeSystem.Proofs.Formula.Parenthesis
import OdeSystem.Proofs.Notation.Product

/-!
Second parentheses in written mathematics. They are tokens of their own, they end and begin factors as the first ones
do, and the same names are called before them; so they are second parentheses in the formula, too. Only a group with a
comma of its own is not the same in a second pair, for it may be the two arguments of a logarithm.
-/

namespace OdeSystem.Notation

open Text

/-! ### Tokens -/

theorem tokens_delimiter_cons {c : Char} (hc : isDelimiter c = true) (rest : List Char) :
    tokens (c :: rest) = .symbol c :: tokens rest :=
  tokens_delimiter hc [] rest

theorem tokens_parenthesized (text : List Char) :
    tokens ('(' :: (text ++ [')'])) = .symbol '(' :: (tokens text ++ [.symbol ')']) := by
  have hnil : tokens [] = [] := by
    rw [tokens]
    rfl
  rw [tokens_delimiter_cons (by decide), tokens_delimiter (by decide), hnil]

theorem tokens_enclosed {inside : List Token → Prop} {text text' : List Char}
    (h : Enclosed '(' ')' (fun inner => inside (tokens inner)) text text') :
    Enclosed (.symbol '(') (.symbol ')') inside (tokens text) (tokens text') := by
  induction h with
  | plain text => exact .plain _
  | group hinner _ ih =>
    rw [tokens_delimiter (by decide), tokens_delimiter (by decide), tokens_delimiter (by decide),
      tokens_delimiter_cons (by decide), tokens_delimiter (by decide), tokens_delimiter_cons (by decide)]
    exact .group hinner ih

section
variable {isFunction : String → Bool}

theorem not_spacedIn_nil : ¬ SpacedIn isFunction [] := fun ⟨_, _, _, hin, _⟩ => by simp at hin

theorem spacedIn_cons_symbol (c : Char) (rest : List Token) :
    SpacedIn isFunction (.symbol c :: rest) ↔ SpacedIn isFunction rest :=
  (@spacedIn_append_symbol isFunction [] rest c).trans (or_iff_right not_spacedIn_nil)

theorem spacedIn_enclosed {inside : List Token → Prop} {list list' : List Token}
    (h : Enclosed (.symbol '(') (.symbol ')') inside list list') :
    SpacedIn isFunction list ↔ SpacedIn isFunction list' := by
  induction h with
  | plain list => exact Iff.rfl
  | group _ _ ih =>
    rw [spacedIn_append_symbol, spacedIn_append_symbol, spacedIn_append_symbol, spacedIn_cons_symbol,
      spacedIn_append_symbol, spacedIn_cons_symbol]
    exact or_congr Iff.rfl (or_congr Iff.rfl ih)

/-! ### Products -/

/-- What is written before a symbol does not depend on what follows it. -/
theorem exists_writeProducts_append (c : Char) (previous : Option Token) (blanks : Option (List Char))
    (left : List Token) : ∃ front, ∀ right,
      writeProducts isFunction previous blanks (left ++ .symbol c :: right) =
        front ++ c :: writeProducts isFunction (some (.symbol c)) none right := by
  induction left generalizing previous blanks with
  | nil =>
    refine ⟨if previous.any fun p => areFactors isFunction blanks.isSome p (.symbol c) then ['*']
      else blanks.getD [], fun right => ?_⟩
    rw [List.nil_append, writeProducts_cons_ink rfl, List.append_assoc]
    rfl
  | cons token left ih =>
    cases htoken : token.isSpace with
    | true =>
      obtain ⟨front, hfront⟩ := ih previous (some token.text)
      exact ⟨front, fun right => by rw [List.cons_append, writeProducts_cons_space htoken, hfront]⟩
    | false =>
      obtain ⟨front, hfront⟩ := ih (some token) none
      refine ⟨(if previous.any fun p => areFactors isFunction blanks.isSome p token then ['*']
        else blanks.getD []) ++ token.text ++ front, fun right => ?_⟩
      rw [List.cons_append, writeProducts_cons_ink htoken, hfront, ← List.append_assoc]

/-- No star comes between two parentheses of one kind. -/
theorem writeProducts_enclosed {inside : List Char → Prop} {list list' : List Token}
    (h : Enclosed (.symbol '(') (.symbol ')')
      (fun inner => inside (strip (writeProducts isFunction none none inner))) list list')
    (previous : Option Token) (blanks : Option (List Char)) :
    Enclosed '(' ')' inside (strip (writeProducts isFunction previous blanks list))
      (strip (writeProducts isFunction previous blanks list')) := by
  induction h generalizing previous blanks with
  | plain list => exact .plain _
  | @group front inner list list' hinner _ ih =>
    obtain ⟨before, hbefore⟩ := @exists_writeProducts_append isFunction '(' previous blanks front
    have hopening (rest : List Token) : writeProducts isFunction (some (.symbol '(')) none (.symbol '(' :: rest) =
        '(' :: writeProducts isFunction none none rest := by
      rw [writeProducts_cons_ink rfl, writeProducts_behind_symbol (by decide)]
      rfl
    have hclosing (rest : List Token) : writeProducts isFunction (some (.symbol ')')) none (.symbol ')' :: rest) =
        ')' :: writeProducts isFunction (some (.symbol ')')) none rest :=
      writeProducts_append_symbol (by decide) (some (.symbol ')')) none [] rest
    have hstrip {c : Char} (hc : isBlank c = false) (rest : List Char) : strip (c :: rest) = c :: strip rest := by
      simp [strip, hc]
    rw [hbefore, hbefore, hopening, writeProducts_behind_symbol (by decide), writeProducts_append_symbol (by decide),
      writeProducts_append_symbol (by decide), hclosing]
    simp only [strip_append, hstrip (by decide : isBlank '(' = false), hstrip (by decide : isBlank ')' = false)]
    exact .group hinner (ih _ _)

end

/-! ### Groups and their commas -/

/-- Whether a text closes the groups that are open, `depth` of them, and all that it opens, nothing else, and has no
comma outside of groups. -/
def closes : Nat → List Char → Bool
  | depth, [] => depth == 0
  | depth, c :: rest =>
    if c = '(' then closes (depth + 1) rest
    else if c = ')' then
      match depth with
      | 0 => false
      | depth + 1 => closes depth rest
    else if c = ',' ∧ depth = 0 then false
    else closes depth rest

theorem closes_cons (depth : Nat) (c : Char) (rest : List Char) :
    closes depth (c :: rest) =
      if c = '(' then closes (depth + 1) rest
      else if c = ')' then
        match depth with
        | 0 => false
        | depth + 1 => closes depth rest
      else if c = ',' ∧ depth = 0 then false
      else closes depth rest := by
  cases depth <;> rfl

def Token.symbol? : Token → Option Char
  | symbol c => some c
  | _ => none

theorem Token.eq_symbol {token : Token} {c : Char} (h : token.symbol? = some c) : token = .symbol c := by
  cases token with
  | symbol d => exact congrArg _ (Option.some.inj h)
  | _ => cases h

/-- The symbols among tokens. -/
def symbols (tokens : List Token) : List Char := tokens.filterMap Token.symbol?

theorem symbols_cons_of_none {token : Token} (h : token.symbol? = none) (rest : List Token) :
    symbols (token :: rest) = symbols rest := List.filterMap_cons_none h

/-- How the first character of a text counts that closes the groups that are open. -/
theorem cases_of_closes {depth : Nat} {c : Char} {rest : List Char} (h : closes depth (c :: rest) = true) :
    c = '(' ∧ closes (depth + 1) rest = true ∨
      (∃ lower, depth = lower + 1 ∧ c = ')' ∧ closes lower rest = true) ∨
      c ≠ '(' ∧ c ≠ ')' ∧ (c = ',' → depth ≠ 0) ∧ closes depth rest = true := by
  rw [closes_cons] at h
  by_cases hopening : c = '('
  · rw [if_pos hopening] at h
    exact .inl ⟨hopening, h⟩
  · rw [if_neg hopening] at h
    by_cases hclosing : c = ')'
    · rw [if_pos hclosing] at h
      cases depth with
      | zero => cases h
      | succ lower => exact .inr (.inl ⟨lower, rfl, hclosing, h⟩)
    · rw [if_neg hclosing] at h
      by_cases hcomma : c = ',' ∧ depth = 0
      · rw [if_pos hcomma] at h
        cases h
      · rw [if_neg hcomma] at h
        exact .inr (.inr ⟨hopening, hclosing, fun hc hdepth => hcomma ⟨hc, hdepth⟩, h⟩)

/-- What is left of a text that closes some groups closes some, too. -/
theorem exists_closes_tail {depth : Nat} {token : Token} {rest : List Token}
    (h : closes depth (symbols (token :: rest)) = true) : ∃ depth', closes depth' (symbols rest) = true := by
  cases hsymbol : token.symbol? with
  | none => exact ⟨depth, symbols_cons_of_none hsymbol rest ▸ h⟩
  | some c =>
    obtain rfl := Token.eq_symbol hsymbol
    obtain ⟨-, hrest⟩ | ⟨lower, -, -, hrest⟩ | ⟨-, -, -, hrest⟩ := cases_of_closes h
    · exact ⟨depth + 1, hrest⟩
    · exact ⟨lower, hrest⟩
    · exact ⟨depth, hrest⟩

/-! ### Arguments -/

theorem hasSingleArgument_of_none {token : Token} (h : token.symbol? = none) (depth : Nat) (rest : List Token) :
    hasSingleArgument depth (token :: rest) = hasSingleArgument depth rest := by
  cases token with
  | symbol c => cases h
  | _ => rfl

theorem hasSingleArgument_symbol (depth : Nat) (c : Char) (rest : List Token) :
    hasSingleArgument depth (.symbol c :: rest) =
      if c = '(' then hasSingleArgument (depth + 1) rest
      else if c = ')' then decide (depth ≤ 1) || hasSingleArgument (depth - 1) rest
      else if c = ',' then decide (depth ≠ 1) && hasSingleArgument depth rest
      else hasSingleArgument depth rest := by
  by_cases hopening : c = '('
  · subst hopening
    rfl
  · by_cases hclosing : c = ')'
    · subst hclosing
      rfl
    · by_cases hcomma : c = ','
      · subst hcomma
        rfl
      · rw [if_neg hopening, if_neg hclosing, if_neg hcomma, hasSingleArgument]
        all_goals simp_all

theorem hasSingleArgument_opening (depth : Nat) (rest : List Token) :
    hasSingleArgument depth (.symbol '(' :: rest) = hasSingleArgument (depth + 1) rest := rfl

theorem hasSingleArgument_closing (depth : Nat) (rest : List Token) :
    hasSingleArgument (depth + 1) (.symbol ')' :: rest) = (decide (depth = 0) || hasSingleArgument depth rest) := by
  have hdepth : decide (depth + 1 ≤ 1) = decide (depth = 0) := by simp
  rw [hasSingleArgument, hdepth, Nat.add_sub_cancel]

/-- A comma that is not directly in an argument list does not count. -/
theorem hasSingleArgument_other {depth : Nat} {c : Char} (hopening : c ≠ '(') (hclosing : c ≠ ')')
    (hcomma : c = ',' → depth ≠ 1) (rest : List Token) :
    hasSingleArgument depth (.symbol c :: rest) = hasSingleArgument depth rest := by
  rw [hasSingleArgument_symbol, if_neg hopening, if_neg hclosing]
  split
  · rename_i hc
    rw [decide_eq_true (hcomma hc), Bool.true_and]
  · rfl

/-- In an argument list, a text that closes the `opened` groups inside it has no comma of the list. -/
theorem hasSingleArgument_closes {depth opened : Nat} {inner : List Token}
    (h : closes opened (symbols inner) = true) (rest : List Token) :
    hasSingleArgument (depth + 1 + opened) (inner ++ rest) = hasSingleArgument (depth + 1) rest := by
  induction inner generalizing opened with
  | nil =>
    obtain rfl : opened = 0 := by simpa [symbols, closes] using h
    rfl
  | cons token inner ih =>
    rw [List.cons_append]
    cases hsymbol : token.symbol? with
    | none =>
      rw [hasSingleArgument_of_none hsymbol]
      exact ih (symbols_cons_of_none hsymbol inner ▸ h)
    | some c =>
      obtain rfl := Token.eq_symbol hsymbol
      obtain ⟨rfl, hinner⟩ | ⟨lower, rfl, rfl, hinner⟩ | ⟨hopening, hclosing, hcomma, hinner⟩ := cases_of_closes h
      · rw [hasSingleArgument_opening]
        exact ih hinner
      · have hdepth : decide (depth + 1 + lower = 0) = false := by simp
        rw [← Nat.add_assoc, hasSingleArgument_closing, hdepth, Bool.false_or]
        exact ih hinner
      · rw [hasSingleArgument_other hopening hclosing fun hc => by have := hcomma hc; omega]
        exact ih hinner

/-- Whether an open argument list has a single argument shows before the list is closed. -/
theorem hasSingleArgument_append {depth opened : Nat} {inner : List Token} (hdepth : 1 ≤ depth)
    (h : closes (opened + depth) (symbols inner) = true) (rest : List Token) :
    hasSingleArgument depth (inner ++ rest) = hasSingleArgument depth inner := by
  induction inner generalizing depth opened with
  | nil =>
    have hzero : opened + depth = 0 := by simpa [symbols, closes] using h
    omega
  | cons token inner ih =>
    rw [List.cons_append]
    cases hsymbol : token.symbol? with
    | none =>
      rw [hasSingleArgument_of_none hsymbol, hasSingleArgument_of_none hsymbol]
      exact ih hdepth (symbols_cons_of_none hsymbol inner ▸ h)
    | some c =>
      obtain rfl := Token.eq_symbol hsymbol
      obtain ⟨lower, rfl⟩ : ∃ lower, depth = lower + 1 := ⟨depth - 1, by omega⟩
      obtain ⟨rfl, hinner⟩ | ⟨below, hbelow, rfl, hinner⟩ | ⟨hopening, hclosing, -, hinner⟩ := cases_of_closes h
      · rw [hasSingleArgument_opening, hasSingleArgument_opening]
        exact ih (Nat.le_add_left ..) hinner
      · obtain rfl : below = opened + lower := by omega
        rw [hasSingleArgument_closing, hasSingleArgument_closing]
        cases lower with
        | zero => rfl
        | succ lower => rw [@ih (lower + 1) opened (by omega) hinner]
      · rw [hasSingleArgument_symbol, hasSingleArgument_symbol, if_neg hopening, if_neg hopening, if_neg hclosing,
          if_neg hclosing, ih hdepth hinner]

theorem hasSingleArgument_front {list list' : List Token}
    (h : ∀ depth, hasSingleArgument depth list = hasSingleArgument depth list') (front : List Token) (depth : Nat) :
    hasSingleArgument depth (front ++ list) = hasSingleArgument depth (front ++ list') := by
  induction front generalizing depth with
  | nil => exact h depth
  | cons token front ih =>
    rw [List.cons_append, List.cons_append]
    cases hsymbol : token.symbol? with
    | none => rw [hasSingleArgument_of_none hsymbol, hasSingleArgument_of_none hsymbol, ih]
    | some c =>
      obtain rfl := Token.eq_symbol hsymbol
      simp only [hasSingleArgument_symbol, ih]

/-- Second parentheses leave the number of arguments as it is, unless they are put around a comma. -/
theorem hasSingleArgument_enclosed {inside : List Token → Prop} {list list' : List Token}
    (h : Enclosed (.symbol '(') (.symbol ')') (fun inner => closes 0 (symbols inner) = true ∧ inside inner) list list')
    (depth : Nat) : hasSingleArgument depth list = hasSingleArgument depth list' := by
  induction h generalizing depth with
  | plain list => rfl
  | @group front inner list list' hinner _ ih =>
    refine hasSingleArgument_front (fun depth => ?_) front depth
    have hinside (depth : Nat) (rest : List Token) :
        hasSingleArgument (depth + 1) (inner ++ rest) = hasSingleArgument (depth + 1) rest :=
      hasSingleArgument_closes hinner.1 rest
    have hdepth : decide (depth + 1 = 0) = false := by simp
    rw [hasSingleArgument_opening, hasSingleArgument_opening, hasSingleArgument_opening, hinside, hinside,
      hasSingleArgument_closing, hasSingleArgument_closing, hasSingleArgument_closing, hdepth, ih, Bool.false_or]

/-! ### Formulas -/

theorem isCall_cons_space {token : Token} (h : token.isSpace = true) (rest : List Token) :
    isCall (token :: rest) = isCall rest := by
  rw [isCall, skipSpaces, List.dropWhile_cons_of_pos h]
  rfl

theorem isCall_cons_ink {token : Token} (h : token.isSpace = false) (rest : List Token) :
    isCall (token :: rest) = decide (token = .symbol '(') := by
  simp [isCall, skipSpaces, h]

theorem isCall_front {list list' : List Token} (h : isCall list = isCall list') (front : List Token) :
    isCall (front ++ list) = isCall (front ++ list') := by
  induction front with
  | nil => exact h
  | cons token front ih =>
    rw [List.cons_append, List.cons_append]
    cases htoken : token.isSpace with
    | true => rw [isCall_cons_space htoken, isCall_cons_space htoken, ih]
    | false => rw [isCall_cons_ink htoken, isCall_cons_ink htoken]

/-- The argument list of a call is closed in the text that closes what it opens. -/
theorem hasSingleArgument_call {opened : Nat} {inner : List Token} (h : closes opened (symbols inner) = true)
    (hcall : isCall inner = true) (rest : List Token) :
    hasSingleArgument 0 (inner ++ rest) = hasSingleArgument 0 inner := by
  induction inner generalizing opened with
  | nil => cases hcall
  | cons token inner ih =>
    rw [List.cons_append]
    cases htoken : token.isSpace with
    | true =>
      have hsymbol : token.symbol? = none := by cases token <;> first | rfl | cases htoken
      rw [isCall_cons_space htoken] at hcall
      rw [hasSingleArgument_of_none hsymbol, hasSingleArgument_of_none hsymbol]
      exact ih (symbols_cons_of_none hsymbol inner ▸ h) hcall
    | false =>
      rw [isCall_cons_ink htoken, decide_eq_true_eq] at hcall
      subst hcall
      have hcloses : closes (opened + 1) (symbols inner) = true := h
      exact hasSingleArgument_append (Nat.le_refl 1) hcloses rest

theorem formulaText_congr (token : Token) {rest rest' : List Token} (hcall : isCall rest = isCall rest')
    (hsingle : isCall rest = true → hasSingleArgument 0 rest = hasSingleArgument 0 rest') :
    formulaText token rest = formulaText token rest' := by
  cases token with
  | name text =>
    simp only [formulaText, ← hcall]
    split
    · rename_i h
      rw [hsingle h]
    · rfl
  | _ => rfl

theorem exists_formulaOf_append {list list' : List Token} (hcall : isCall list = isCall list')
    (hsingle : ∀ depth, hasSingleArgument depth list = hasSingleArgument depth list') (front : List Token) :
    ∃ before, formulaOf (front ++ list) = before ++ formulaOf list ∧
      formulaOf (front ++ list') = before ++ formulaOf list' := by
  induction front with
  | nil => exact ⟨[], rfl, rfl⟩
  | cons token front ih =>
    obtain ⟨before, hlist, hlist'⟩ := ih
    have htext : formulaText token (front ++ list) = formulaText token (front ++ list') :=
      formulaText_congr token (isCall_front hcall front) fun _ => hasSingleArgument_front hsingle front 0
    refine ⟨formulaText token (front ++ list) ++ before, ?_, ?_⟩
    · rw [List.cons_append, formulaOf, hlist, List.append_assoc]
    · rw [List.cons_append, formulaOf, hlist', ← htext, List.append_assoc]

/-- What stands between parentheses has the formula that it has by itself. -/
theorem formulaOf_append_closing {opened : Nat} {inner : List Token} (h : closes opened (symbols inner) = true)
    (rest : List Token) : formulaOf (inner ++ .symbol ')' :: rest) = formulaOf inner ++ ')' :: formulaOf rest := by
  induction inner generalizing opened with
  | nil => rfl
  | cons token inner ih =>
    obtain ⟨depth, hcloses⟩ := exists_closes_tail h
    have hcall : isCall (inner ++ .symbol ')' :: rest) = isCall inner := by
      have hnone : isCall (.symbol ')' :: rest) = isCall [] := isCall_cons_ink rfl rest
      rw [isCall_front hnone, List.append_nil]
    have htext : formulaText token (inner ++ .symbol ')' :: rest) = formulaText token inner :=
      formulaText_congr token hcall fun h => hasSingleArgument_call hcloses (hcall ▸ h) _
    rw [List.cons_append, formulaOf, htext, ih hcloses, formulaOf, List.append_assoc]

theorem formulaOf_enclosed {inside : List Char → Prop} {list list' : List Token}
    (h : Enclosed (.symbol '(') (.symbol ')')
      (fun inner => closes 0 (symbols inner) = true ∧ inside (formulaOf inner)) list list') :
    Enclosed '(' ')' inside (formulaOf list) (formulaOf list') := by
  induction h with
  | plain list => exact .plain _
  | @group front inner list list' hinner hrest ih =>
    have hsingle := hasSingleArgument_enclosed (@Enclosed.group _ _ _ _ [] _ _ _ hinner hrest)
    simp only [List.nil_append] at hsingle
    obtain ⟨before, hlist, hlist'⟩ := exists_formulaOf_append (by rfl) hsingle front
    have hsymbol (c : Char) (rest : List Token) : formulaOf (.symbol c :: rest) = c :: formulaOf rest := rfl
    rw [hlist, hlist', hsymbol, hsymbol, hsymbol, formulaOf_append_closing hinner.1,
      formulaOf_append_closing hinner.1, hsymbol]
    exact .group hinner.2 ih

/-! ### Normal forms -/

/-- Whether a character matters to the closing of groups. -/
def isMark (c : Char) : Bool := ['(', ')', ','].contains c

theorem isDelimiter_of_isMark {c : Char} (h : isMark c = true) : isDelimiter c = true := by
  have hall : ['(', ')', ','].all isDelimiter = true := by decide
  exact List.all_eq_true.mp hall c (List.contains_iff_mem.mp h)

theorem isBlank_of_isMark {c : Char} (h : isMark c = true) : isBlank c = false :=
  isBlank_of_isDelimiter (isDelimiter_of_isMark h)

theorem closes_filter_isMark (depth : Nat) (text : List Char) :
    closes depth (text.filter isMark) = closes depth text := by
  induction text generalizing depth with
  | nil => rfl
  | cons c rest ih =>
    cases hmark : isMark c with
    | true =>
      rw [List.filter_cons_of_pos hmark, closes_cons, closes_cons]
      simp only [ih]
    | false =>
      obtain ⟨hopening, hclosing, hcomma⟩ : c ≠ '(' ∧ c ≠ ')' ∧ c ≠ ',' := by simpa [isMark] using hmark
      rw [List.filter_cons_of_neg (by simp [hmark]), ih, closes_cons, if_neg hopening, if_neg hclosing,
        if_neg fun h => hcomma h.1]

theorem filter_isMark_of_allBlank {text : List Char} (h : allBlank text = true) : text.filter isMark = [] := by
  refine List.filter_eq_nil_iff.mpr fun c hc hmark => ?_
  have hblank := List.all_eq_true.mp h c hc
  rw [isBlank_of_isMark hmark] at hblank
  cases hblank

theorem filter_isMark_strip (text : List Char) : (strip text).filter isMark = text.filter isMark := by
  rw [strip, List.filter_filter]
  refine List.filter_congr fun c _ => ?_
  cases hmark : isMark c with
  | false => rfl
  | true => simp [isBlank_of_isMark hmark]

theorem filter_isMark_writeProducts {isFunction : String → Bool} {previous : Option Token}
    {blanks : Option (List Char)} {list : List Token} (hblanks : allBlank (blanks.getD []) = true)
    (blanked : Blanked list) :
    (writeProducts isFunction previous blanks list).filter isMark = (textOf list).filter isMark := by
  induction list generalizing previous blanks with
  | nil => exact filter_isMark_of_allBlank hblanks
  | cons token rest ih =>
    have hrest : Blanked rest := fun t ht => blanked t (List.mem_cons_of_mem _ ht)
    rw [textOf_cons, List.filter_append]
    cases htoken : token.isSpace with
    | true =>
      have htext : allBlank token.text = true := blanked token (List.mem_cons_self ..) htoken
      rw [writeProducts_cons_space htoken, @ih previous (some token.text) htext hrest,
        filter_isMark_of_allBlank htext, List.nil_append]
    | false =>
      have hbetween : (if previous.any fun p => areFactors isFunction blanks.isSome p token then ['*']
          else blanks.getD []).filter isMark = [] := by
        split
        · rfl
        · exact filter_isMark_of_allBlank hblanks
      rw [writeProducts_cons_ink htoken, List.filter_append, List.filter_append, ih rfl hrest, hbetween,
        List.nil_append]

theorem mem_textOf_of_mem_symbols {c : Char} {list : List Token} (h : c ∈ symbols list) : c ∈ textOf list := by
  obtain ⟨token, htoken, hsymbol⟩ := List.mem_filterMap.mp h
  obtain rfl := Token.eq_symbol hsymbol
  exact List.mem_flatMap.mpr ⟨_, htoken, List.mem_singleton_self c⟩

/-- Marks are symbols wherever they stand. -/
theorem filter_isMark_symbols (text : List Char) : (symbols (tokens text)).filter isMark = text.filter isMark := by
  induction hn : text.length using Nat.strongRecOn generalizing text with
  | ind n ih =>
    by_cases hmark : ∃ c ∈ text, isMark c = true
    · obtain ⟨c, hmem, hc⟩ := hmark
      obtain ⟨front, rest, rfl⟩ := List.append_of_mem hmem
      have hsymbols : symbols (tokens front ++ .symbol c :: tokens rest) =
          symbols (tokens front) ++ c :: symbols (tokens rest) := List.filterMap_append
      simp only [List.length_append, List.length_cons] at hn
      rw [tokens_delimiter (isDelimiter_of_isMark hc), hsymbols, List.filter_append, List.filter_append,
        List.filter_cons_of_pos hc, List.filter_cons_of_pos hc, ih _ (by omega) front rfl, ih _ (by omega) rest rfl]
    · have hnone {c : Char} (hc : c ∈ text) : ¬ isMark c = true := fun h => hmark ⟨c, hc, h⟩
      rw [List.filter_eq_nil_iff.mpr fun c hc => hnone hc,
        List.filter_eq_nil_iff.mpr fun c hc => hnone (textOf_tokens text ▸ mem_textOf_of_mem_symbols hc)]

section
variable {isFunction : String → Bool}

/-- Writing products leaves the groups as they are. -/
theorem closes_insertStars (text : List Char) :
    closes 0 (symbols (tokens (strip (insertStars isFunction text)))) = closes 0 text := by
  rw [← closes_filter_isMark, filter_isMark_symbols, filter_isMark_strip, insertStars,
    filter_isMark_writeProducts rfl (blanked_tokens text), textOf_tokens, closes_filter_isMark]

/-- Whether a text can stand in parentheses of its own: it closes its groups, is no list, and is by itself the text of
an expression, and not an empty one. -/
structure IsUnit (isFunction : String → Bool) (text : List Char) : Prop where
  closed : closes 0 text = true
  reads : Formula.Tree.ReadsAlone (formulaOf (tokens (strip (insertStars isFunction text))))

instance (text : List Char) : Decidable (IsUnit isFunction text) :=
  decidable_of_iff _ ⟨fun h => ⟨h.1, h.2⟩, fun h => And.intro h.closed h.reads⟩

theorem insertStars_enclosed {text text' : List Char} (h : Enclosed '(' ')' (IsUnit isFunction) text text') :
    Enclosed '(' ')' (fun inner => closes 0 (symbols (tokens inner)) = true ∧
        Formula.Tree.ReadsAlone (formulaOf (tokens inner)))
      (strip (insertStars isFunction text)) (strip (insertStars isFunction text')) :=
  writeProducts_enclosed (tokens_enclosed (h.imp fun inner hinner =>
    ⟨(closes_insertStars inner).trans hinner.closed, hinner.reads⟩)) none none

/-- Second parentheses around units are second parentheses in the formula. -/
theorem formula_enclosed {text text' : List Char} (h : Enclosed '(' ')' (IsUnit isFunction) text text') :
    Enclosed '(' ')' Formula.Tree.ReadsAlone (formulaOf (tokens (strip (insertStars isFunction text))))
      (formulaOf (tokens (strip (insertStars isFunction text')))) :=
  formulaOf_enclosed (tokens_enclosed (insertStars_enclosed h))

/-- A unit in parentheses has its formula in parentheses. -/
theorem formula_parenthesized {text : List Char} (h : IsUnit isFunction text) :
    strip (insertStars isFunction ('(' :: (text ++ [')']))) =
        '(' :: (strip (insertStars isFunction text) ++ [')']) ∧
      formulaOf (tokens ('(' :: (strip (insertStars isFunction text) ++ [')']))) =
        '(' :: (formulaOf (tokens (strip (insertStars isFunction text))) ++ [')']) := by
  have hcloses : closes 0 (symbols (tokens (strip (insertStars isFunction text)))) = true :=
    (closes_insertStars text).trans h.closed
  have hopened : writeProducts isFunction none none (.symbol '(' :: (tokens text ++ [.symbol ')'])) =
      '(' :: (insertStars isFunction text ++ [')']) := by
    rw [writeProducts_cons_ink rfl, writeProducts_behind_symbol (by decide), writeProducts_append_symbol (by decide)]
    rfl
  constructor
  · rw [insertStars, tokens_parenthesized, hopened]
    simp [strip, show isBlank '(' = false from by decide, show isBlank ')' = false from by decide]
  · rw [tokens_parenthesized, formulaOf, formulaOf_append_closing hcloses]
    rfl

end

end OdeSystem.Notation
