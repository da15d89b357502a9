import OdeSystem.Proofs.Definition
import OdeSystem.Proofs.Notation.Enclosed
import OdeSystem.Proofs.Notation.Lookahead

/-!
Arguments of logarithms. The search for a comma behind the name of a logarithm passes over every group in its argument
list, and ends with the parenthesis that closes the list. So where parentheses match, a logarithm is the natural one
just when its own list has no comma outside of groups, whatever stands in these groups, around the call and behind it.
Quotes and comments are text like any other here.
-/

namespace OdeSystem.Notation

open Text
open Equation (balances)

/-! ### Matching parentheses -/

section
variable {depth opened : Nat} {c : Char} {text front rest inner inner' left after after' : List Char}

/-- How the first character of a text counts whose parentheses match. -/
theorem cases_of_balances (h : balances depth (c :: rest) = true) :
    c = '(' ∧ balances (depth + 1) rest = true ∨
      (∃ lower, depth = lower + 1 ∧ c = ')' ∧ balances lower rest = true) ∨
      c ≠ '(' ∧ c ≠ ')' ∧ balances depth rest = true := by
  rw [balances] at h
  split at h
  · exact .inl ⟨‹_›, h⟩
  · split at h
    · obtain ⟨hdepth, hrest⟩ : depth ≠ 0 ∧ balances (depth - 1) rest = true := by simpa using h
      exact .inr (.inl ⟨depth - 1, by omega, ‹_›, hrest⟩)
    · exact .inr (.inr ⟨‹_›, ‹_›, h⟩)

theorem exists_balances_of_append (h : balances depth (front ++ rest) = true) :
    ∃ depth', balances depth' rest = true := by
  induction front generalizing depth with
  | nil => exact ⟨depth, h⟩
  | cons c front ih =>
    obtain ⟨-, h⟩ | ⟨_, -, -, h⟩ | ⟨-, -, h⟩ := cases_of_balances h <;> exact ih h

/-- A group that is open is closed again, with what stands in it before. -/
theorem exists_closing (h : balances (depth + 1 + opened) text = true) :
    ∃ inner after, text = inner ++ ')' :: after ∧ balances opened inner = true := by
  -- Of the groups that are open at a character, `opened` have been opened behind the one in question.
  induction text generalizing opened with
  | nil => simp [balances] at h
  | cons c text ih =>
    obtain ⟨rfl, h⟩ | ⟨lower, hlower, rfl, h⟩ | ⟨hopening, hclosing, h⟩ := cases_of_balances h
    · obtain ⟨inner, after, rfl, hinner⟩ := @ih (opened + 1) h
      exact ⟨'(' :: inner, after, rfl, by rw [balances, if_pos rfl, hinner]⟩
    · cases opened with
      | zero => exact ⟨[], text, rfl, rfl⟩
      | succ opened =>
        obtain rfl : lower = depth + 1 + opened := by omega
        obtain ⟨inner, after, rfl, hinner⟩ := ih h
        exact ⟨')' :: inner, after, rfl, hinner⟩
    · obtain ⟨inner, after, rfl, hinner⟩ := ih h
      exact ⟨c :: inner, after, rfl, by rw [balances, if_neg hopening, if_neg hclosing, hinner]⟩

theorem balances_append_closing (h : balances depth inner = true) (rest : List Char) :
    balances depth (inner ++ ')' :: rest) = false := by
  induction inner generalizing depth with
  | nil =>
    obtain rfl : depth = 0 := by simpa [balances] using h
    rfl
  | cons c inner ih =>
    rw [List.cons_append]
    obtain ⟨rfl, h⟩ | ⟨lower, rfl, rfl, h⟩ | ⟨hopening, hclosing, h⟩ := cases_of_balances h
    · exact ih h
    · exact ih h
    · rw [balances, if_neg hopening, if_neg hclosing, ih h]

/-- Only one parenthesis closes a group. -/
theorem eq_of_append_closing (h : balances 0 inner = true) (h' : balances 0 inner' = true)
    (heq : inner ++ ')' :: after = inner' ++ ')' :: after') : inner = inner' ∧ after = after' := by
  rcases List.append_eq_append_iff.mp heq with ⟨more, rfl, hmore⟩ | ⟨more, rfl, hmore⟩
  · cases more with
    | nil => exact ⟨(List.append_nil _).symm, (List.cons.inj hmore).2⟩
    | cons c more =>
      obtain rfl := (List.cons.inj hmore).1
      rw [balances_append_closing h] at h'
      cases h'
  · cases more with
    | nil => exact ⟨List.append_nil _, (List.cons.inj hmore).2.symm⟩
    | cons c more =>
      obtain rfl := (List.cons.inj hmore).1
      rw [balances_append_closing h'] at h
      cases h

/-! ### Commas outside of groups -/

/-- Whether a comma stands in a text outside of groups: the parentheses before it match. -/
def HasOuterComma (text : List Char) : Prop :=
  ∃ left right, text = left ++ ',' :: right ∧ balances 0 left = true

theorem balances_of_closes (h : closes depth text = true) : balances depth text = true := by
  induction text generalizing depth with
  | nil => exact h
  | cons c text ih =>
    rw [balances]
    obtain ⟨rfl, h⟩ | ⟨lower, rfl, rfl, h⟩ | ⟨hopening, hclosing, -, h⟩ := cases_of_closes h
    · exact ih h
    · exact ih h
    · rw [if_neg hopening, if_neg hclosing]
      exact ih h

theorem closes_append_comma (h : balances depth left = true) (rest : List Char) :
    closes depth (left ++ ',' :: rest) = false := by
  induction left generalizing depth with
  | nil =>
    obtain rfl : depth = 0 := by simpa [balances] using h
    rfl
  | cons c left ih =>
    rw [List.cons_append, closes_cons]
    obtain ⟨rfl, h⟩ | ⟨lower, rfl, rfl, h⟩ | ⟨hopening, hclosing, h⟩ := cases_of_balances h
    · exact ih h
    · exact ih h
    · rw [if_neg hopening, if_neg hclosing, ih h, ite_self]

/-- A text whose parentheses match has a first comma outside of groups, or none. -/
theorem closes_or_exists_comma (h : balances depth text = true) :
    closes depth text = true ∨ ∃ left right, text = left ++ ',' :: right ∧ closes depth left = true := by
  induction text generalizing depth with
  | nil => exact .inl h
  | cons c text ih =>
    have further {depth' : Nat} (h : balances depth' text = true)
        (hcons : ∀ text, closes depth (c :: text) = closes depth' text) :
        closes depth (c :: text) = true ∨
          ∃ left right, c :: text = left ++ ',' :: right ∧ closes depth left = true := by
      rcases ih h with hcloses | ⟨left, right, rfl, hleft⟩
      · exact .inl ((hcons _).trans hcloses)
      · exact .inr ⟨c :: left, right, rfl, (hcons _).trans hleft⟩
    obtain ⟨rfl, h⟩ | ⟨lower, rfl, rfl, h⟩ | ⟨hopening, hclosing, h⟩ := cases_of_balances h
    · exact further h fun _ => closes_cons ..
    · exact further h fun _ => closes_cons ..
    · by_cases hcomma : c = ',' ∧ depth = 0
      · obtain ⟨rfl, rfl⟩ := hcomma
        exact .inr ⟨[], text, rfl, rfl⟩
      · exact further h fun _ => by rw [closes_cons, if_neg hopening, if_neg hclosing, if_neg hcomma]

theorem closes_iff (matched : balances 0 text = true) : closes 0 text = true ↔ ¬ HasOuterComma text := by
  constructor
  · rintro h ⟨left, right, rfl, hleft⟩
    rw [closes_append_comma hleft] at h
    cases h
  · intro h
    rcases closes_or_exists_comma matched with hcloses | ⟨left, right, rfl, hleft⟩
    · exact hcloses
    · exact absurd ⟨left, right, rfl, balances_of_closes hleft⟩ h

end

/-! ### Outlines -/

/-- Texts that are the same but for what stands in groups. -/
inductive SameOutline : List Char → List Char → Prop
  | nil : SameOutline [] []
  | char (c : Char) {xs ys : List Char} (rest : SameOutline xs ys) : SameOutline (c :: xs) (c :: ys)
  | group {inner inner' xs ys : List Char} (h : balances 0 inner = true) (h' : balances 0 inner' = true)
      (rest : SameOutline xs ys) : SameOutline ('(' :: (inner ++ ')' :: xs)) ('(' :: (inner' ++ ')' :: ys))

/-- A group does not matter to the groups around it. -/
theorem closes_group {depth opened : Nat} {inner : List Char} (h : balances opened inner = true) (rest : List Char) :
    closes (depth + 1 + opened) (inner ++ ')' :: rest) = closes depth rest := by
  induction inner generalizing opened with
  | nil =>
    obtain rfl : opened = 0 := by simpa [balances] using h
    rfl
  | cons c inner ih =>
    rw [List.cons_append, closes_cons]
    obtain ⟨rfl, h⟩ | ⟨lower, rfl, rfl, h⟩ | ⟨hopening, hclosing, h⟩ := cases_of_balances h
    · exact ih h
    · exact ih h
    · rw [if_neg hopening, if_neg hclosing, if_neg (by omega), ih h]

theorem SameOutline.closes_eq {xs ys : List Char} (h : SameOutline xs ys) (depth : Nat) :
    closes depth xs = closes depth ys := by
  induction h generalizing depth with
  | nil => rfl
  | char c _ ih => simp only [closes_cons, ih]
  | @group inner inner' xs ys h h' _ ih =>
    calc closes (depth + 1) (inner ++ ')' :: xs)
      _ = closes depth xs := closes_group h xs
      _ = closes depth ys := ih depth
      _ = closes (depth + 1) (inner' ++ ')' :: ys) := (closes_group h' ys).symm

/-! ### The search for a comma -/

section
variable {spaces : List Token} {arguments : List Char}

theorem hasSingleArgument_spaces (hspaces : ∀ token ∈ spaces, token.isSpace = true) (depth : Nat) (rest : List Token) :
    hasSingleArgument depth (spaces ++ rest) = hasSingleArgument depth rest := by
  induction spaces with
  | nil => rfl
  | cons token spaces ih =>
    have hsymbol : token.symbol? = none := by
      have hspace := hspaces token (List.mem_cons_self ..)
      cases token <;> first | rfl | cases hspace
    rw [List.cons_append, hasSingleArgument_of_none hsymbol]
    exact ih fun t ht => hspaces t (List.mem_cons_of_mem _ ht)

theorem isCall_spaces (hspaces : ∀ token ∈ spaces, token.isSpace = true) (rest : List Token) :
    isCall (spaces ++ rest) = isCall rest := by
  induction spaces with
  | nil => rfl
  | cons token spaces ih =>
    rw [List.cons_append, isCall_cons_space (hspaces token (List.mem_cons_self ..))]
    exact ih fun t ht => hspaces t (List.mem_cons_of_mem _ ht)

theorem closes_symbols_tokens (depth : Nat) (text : List Char) :
    closes depth (symbols (tokens text)) = closes depth text := by
  rw [← closes_filter_isMark, filter_isMark_symbols, closes_filter_isMark]

/-- In an argument list the search ends with the first comma outside of groups, or else with the end of the list. -/
theorem hasSingleArgument_arguments (matched : balances 0 arguments = true) (rest : List Token) :
    hasSingleArgument 1 (tokens arguments ++ .symbol ')' :: rest) = closes 0 arguments := by
  have passes {text : List Char} (h : closes 0 text = true) (behind : List Token) :
      hasSingleArgument 1 (tokens text ++ behind) = hasSingleArgument 1 behind :=
    @hasSingleArgument_closes 0 0 _ ((closes_symbols_tokens 0 text).trans h) behind
  rcases closes_or_exists_comma matched with hcloses | ⟨left, right, rfl, hleft⟩
  · rw [passes hcloses, hcloses]
    rfl
  · rw [tokens_delimiter (by decide), List.append_assoc, passes hleft, closes_append_comma (balances_of_closes hleft)]
    rfl

end

/-! ### Words of a formula -/

/-- The words of a formula, one for each token that it is written for. -/
def formulaWords : List Token → List (List Char)
  | [] => []
  | token :: rest => formulaText token rest :: formulaWords rest

theorem flatten_formulaWords (list : List Token) : (formulaWords list).flatten = formulaOf list := by
  induction list with
  | nil => rfl
  | cons token rest ih => rw [formulaWords, List.flatten_cons, ih, formulaOf]

theorem getElem?_formulaWords (front : List Token) (token : Token) (rest : List Token) :
    (formulaWords (front ++ token :: rest))[front.length]? = some (formulaText token rest) := by
  induction front with
  | nil => rfl
  | cons _ front ih => exact ih

/-- What stands behind some tokens of a text has the tokens that are left. -/
theorem tokens_textOf_of_suffix {list : List Token} (text : List Char) (h : list <:+ tokens text) :
    tokens (textOf list) = list := by
  refine token_induction (motive := fun _ all => list <:+ all → tokens (textOf list) = list) (fun h => ?_) ?_ text h
  · rw [List.suffix_nil.mp h]
    rfl
  · intro c inner behind token htoken ih h
    rcases List.suffix_cons_iff.mp h with rfl | h
    · rw [textOf_cons, textOf_tokens, htoken.tokens_eq]
    · exact ih h

/-! ### Calls of the logarithm -/

/-- A call of the logarithm in a text: behind some tokens stands the name, and behind that, perhaps after blanks, an
argument list in parentheses that match. -/
structure LogarithmCall (text : List Char) where
  before : List Token
  blanks : List Char
  arguments : List Char
  after : List Char
  blank : allBlank blanks = true
  matched : balances 0 arguments = true
  written : tokens text = before ++ .name "log".toList :: tokens (blanks ++ '(' :: (arguments ++ ')' :: after))

namespace LogarithmCall
variable {text text' : List Char}

/-- The word that is written for the name. -/
def word (call : LogarithmCall text) : Option (List Char) := (formulaWords (tokens text))[call.before.length]?

theorem word_eq (call : LogarithmCall text) :
    call.word = some (if closes 0 call.arguments then "math::ln".toList else "math::log".toList) := by
  let behind := tokens call.blanks ++ .symbol '(' :: (tokens call.arguments ++ .symbol ')' :: tokens call.after)
  have hwritten : tokens text = call.before ++ .name "log".toList :: behind := by
    rw [call.written, tokens_delimiter (by decide), tokens_delimiter (by decide)]
  have hspaces := isSpace_of_allBlank call.blank
  have hcall : isCall behind = true := isCall_spaces hspaces _
  have hsingle : hasSingleArgument 0 behind = closes 0 call.arguments := calc
    hasSingleArgument 0 behind
    _ = hasSingleArgument 1 (tokens call.arguments ++ .symbol ')' :: tokens call.after) :=
      hasSingleArgument_spaces hspaces 0 _
    _ = closes 0 call.arguments := hasSingleArgument_arguments call.matched _
  rw [word, hwritten, getElem?_formulaWords, formulaText, if_pos hcall, if_pos rfl, hsingle]

theorem word_eq_ln_iff (call : LogarithmCall text) :
    call.word = some "math::ln".toList ↔ ¬ HasOuterComma call.arguments := by
  rw [call.word_eq, ← closes_iff call.matched]
  cases closes 0 call.arguments <;> decide

theorem word_eq_log_iff (call : LogarithmCall text) :
    call.word = some "math::log".toList ↔ HasOuterComma call.arguments := by
  rw [call.word_eq, ← not_iff_not, ← closes_iff call.matched]
  cases closes 0 call.arguments <;> decide

theorem word_eq_of_sameOutline {call : LogarithmCall text} {call' : LogarithmCall text'}
    (h : SameOutline call.arguments call'.arguments) : call.word = call'.word := by
  rw [call.word_eq, call'.word_eq, h.closes_eq]

/-- A call is known by the place of its name. -/
theorem eq_of_before_eq {call call' : LogarithmCall text} (h : call.before = call'.before) : call = call' := by
  obtain ⟨before, blanks, arguments, after, hblank, matched, hwritten⟩ := call
  obtain ⟨before', blanks', arguments', after', hblank', matched', hwritten'⟩ := call'
  obtain rfl : before = before' := h
  have htokens := (List.cons.inj (List.append_cancel_left (hwritten.symm.trans hwritten'))).2
  have htext := congrArg textOf htokens
  rw [textOf_tokens, textOf_tokens] at htext
  have htrim {blanks : List Char} (hblank : allBlank blanks = true) (rest : List Char) :
      trimLeft (blanks ++ '(' :: rest) = '(' :: rest := by
    rw [trimLeft_append_of_eq_nil (trimLeft_eq_nil_iff.mpr hblank), trimLeft_cons_of_not_isBlank (by decide)]
  have hlist : '(' :: (arguments ++ ')' :: after) = '(' :: (arguments' ++ ')' :: after') := by
    rw [← htrim hblank, htext, htrim hblank']
  obtain ⟨rfl, rfl⟩ := eq_of_append_closing matched matched' (List.cons.inj hlist).2
  obtain rfl := List.append_cancel_right htext
  rfl

/-- In a text whose parentheses match, every logarithm before an opening parenthesis is called. -/
theorem exists_of_before {before behind : List Token} (matched : balances 0 text = true)
    (hname : tokens text = before ++ .name "log".toList :: behind)
    (hopening : (trimLeft (textOf behind)).head? = some '(') : ∃ call : LogarithmCall text, call.before = before := by
  have hbehind : tokens (textOf behind) = behind :=
    tokens_textOf_of_suffix text ⟨before ++ [.name "log".toList], by rw [hname, List.append_assoc]; rfl⟩
  obtain ⟨blanks, hblank, htext⟩ := exists_blanks_append_trimLeft (textOf behind)
  obtain ⟨list, hlist⟩ := List.head?_eq_some_iff.mp hopening
  rw [hlist] at htext
  have hall : text = (textOf before ++ "log".toList ++ blanks) ++ '(' :: list := calc
    text = textOf (tokens text) := (textOf_tokens text).symm
    _ = textOf before ++ ("log".toList ++ textOf behind) := by rw [hname, textOf, List.flatMap_append]; rfl
    _ = _ := by rw [htext]; simp only [List.append_assoc]
  obtain ⟨depth, hdepth⟩ := exists_balances_of_append (hall ▸ matched)
  obtain ⟨arguments, after, rfl, harguments⟩ := @exists_closing depth 0 list hdepth
  exact ⟨⟨before, blanks, arguments, after, hblank, harguments, by rw [← htext, hbehind, hname]⟩, rfl⟩

end LogarithmCall

/-- In the formula of an expression whose parentheses match, every logarithm before an opening parenthesis has one
argument list of its own, and it is the natural one just when this list has no comma outside of groups. What stands in
groups of the list, and before, around and behind the call, in this expression or another one, does not matter. -/
theorem formula_decides_arity (expression : String) (matched : balances 0 expression.toList = true) :
    (formulaWords (tokens expression.toList)).flatten = (formula expression).toList ∧
    (∀ before behind, tokens expression.toList = before ++ .name "log".toList :: behind →
      (trimLeft (textOf behind)).head? = some '(' → ∃! call : LogarithmCall expression.toList, call.before = before) ∧
    (∀ call : LogarithmCall expression.toList,
      (call.word = some "math::ln".toList ↔ ¬ HasOuterComma call.arguments) ∧
      (call.word = some "math::log".toList ↔ HasOuterComma call.arguments)) ∧
    ∀ (other : String) (call : LogarithmCall expression.toList) (call' : LogarithmCall other.toList),
      SameOutline call.arguments call'.arguments → call.word = call'.word := by
  refine ⟨?_, fun before behind hname hopening => ?_, fun call => ⟨call.word_eq_ln_iff, call.word_eq_log_iff⟩,
    fun _ _ _ h => LogarithmCall.word_eq_of_sameOutline h⟩
  · rw [flatten_formulaWords, formula, String.toList_ofList]
  · obtain ⟨call, hcall⟩ := LogarithmCall.exists_of_before matched hname hopening
    exact ⟨call, hcall, fun call' hcall' => LogarithmCall.eq_of_before_eq (hcall'.trans hcall.symm)⟩

/-- A call in the list of another one, with commas inside of it, around it and behind it. -/
theorem formula_decides_arity_nested :
    balances 0 "f(y, log(log (max(x, 2)), 10))".toList = true ∧
    formula "f(y, log(log (max(x, 2)), 10))" = "f(y, math::log(math::ln (max(x, 2.0)), 10.0))" ∧
    ∃ outer inner : LogarithmCall "f(y, log(log (max(x, 2)), 10))".toList,
      outer.arguments = "log (max(x, 2)), 10".toList ∧ outer.word = some "math::log".toList ∧
      inner.arguments = "max(x, 2)".toList ∧ inner.word = some "math::ln".toList ∧
      (∃! call : LogarithmCall "f(y, log(log (max(x, 2)), 10))".toList, call.before = inner.before) ∧
      ∃ other : LogarithmCall "log(max(log(a, b)))".toList,
        other.arguments = "max(log(a, b))".toList ∧ inner.word = other.word := by
  have matched : balances 0 "f(y, log(log (max(x, 2)), 10))".toList = true := by decide
  obtain ⟨-, hcalled, hwords, houtline⟩ := formula_decides_arity "f(y, log(log (max(x, 2)), 10))" matched
  let front : List Token := [.name ['f'], .symbol '(', .name ['y'], .symbol ',', .space [' ']]
  let outer : LogarithmCall "f(y, log(log (max(x, 2)), 10))".toList :=
    ⟨front, [], "log (max(x, 2)), 10".toList, [')'], rfl, by decide, by decide +kernel⟩
  let inner : LogarithmCall "f(y, log(log (max(x, 2)), 10))".toList :=
    ⟨front ++ [.name "log".toList, .symbol '('], [' '], "max(x, 2)".toList, ", 10))".toList, by decide, by decide,
      by decide +kernel⟩
  let other : LogarithmCall "log(max(log(a, b)))".toList :=
    ⟨[], [], "max(log(a, b))".toList, [], rfl, by decide, by decide +kernel⟩
  have hlist : HasOuterComma outer.arguments := ⟨"log (max(x, 2))".toList, " 10".toList, by decide, by decide⟩
  have hsingle : ¬ HasOuterComma inner.arguments := (closes_iff inner.matched).mp (by decide)
  have hgroup : SameOutline "(x, 2)".toList "(log(a, b))".toList :=
    @SameOutline.group "x, 2".toList "log(a, b)".toList _ _ (by decide) (by decide) .nil
  have hsame : SameOutline inner.arguments other.arguments := .char 'm' (.char 'a' (.char 'x' hgroup))
  exact ⟨matched, by decide +kernel, outer, inner, rfl, (hwords outer).2.mpr hlist, rfl, (hwords inner).1.mpr hsingle,
    hcalled inner.before _ inner.written (by decide +kernel), other, rfl,
    houtline "log(max(log(a, b)))" inner other hsame⟩

end OdeSystem.Notation
