import OdeSystem.Proofs.Notation.Starred

/-!
Products written by juxtaposition and with stars. A star is a token wherever it stands, and no token looks beyond one; so
the tokens of a text with stars at some of the places where factors meet are those of the text and the stars. Hence
writing the products leads to the same text whichever of the stars have been there before.
-/

namespace OdeSystem.Notation

open Text

/-! ### Tokens before a star -/

section
variable {c : Char} {inner more more' text text' : List Char} {token : Token}

/-- Whether a text is another one up to a star, or to its end. -/
def Breaks (text text' : List Char) : Prop :=
  ∃ front rest tail, text = front ++ rest ∧ text' = front ++ tail ∧ ∀ c ∈ tail.head?, c = '*'

theorem Breaks.refl (text : List Char) : Breaks text text :=
  ⟨text, [], [], (List.append_nil text).symm, (List.append_nil text).symm, by simp⟩

theorem breaks_star (text rest : List Char) : Breaks text ('*' :: rest) :=
  ⟨[], text, '*' :: rest, rfl, rfl, by simp⟩

theorem Breaks.append (h : Breaks text text') (front : List Char) : Breaks (front ++ text) (front ++ text') := by
  obtain ⟨inner, rest, tail, rfl, rfl, htail⟩ := h
  exact ⟨front ++ inner, rest, tail, by simp, by simp, htail⟩

theorem Breaks.head {p : Char → Bool} (h : Breaks more more') (hstar : p '*' = false)
    (hhead : more.head?.any p = false) : more'.head?.any p = false := by
  obtain ⟨front, rest, tail, rfl, rfl, htail⟩ := h
  cases front with
  | cons d front => exact hhead
  | nil =>
    cases tail with
    | nil => rfl
    | cons d tail =>
      rw [htail d rfl]
      exact hstar

theorem exponentLength_of_append (h : exponentLength (text ++ more) = 0) : exponentLength text = 0 := by
  cases text with
  | nil => rfl
  | cons c rest =>
    rw [List.cons_append, exponentLength_cons] at h
    rw [exponentLength_cons]
    by_cases he : c = 'e' ∨ c = 'E'
    · rw [if_pos he] at h ⊢
      refine if_pos ?_
      cases rest with
      | nil => rfl
      | cons d rest =>
        have hsign : exponentSign (d :: rest ++ more) = exponentSign (d :: rest) := by
          rw [List.cons_append, exponentSign_cons, exponentSign_cons]
        have hle : exponentSign (d :: rest) ≤ (d :: rest).length := (exponentSign_append endsNumber_nil _).2
        rw [hsign, List.drop_append_of_le_length hle] at h
        -- The digits of the shorter text are among those of the longer one.
        have hdigits : (((d :: rest).drop (exponentSign (d :: rest)) ++ more).takeWhile isAsciiDigit).length = 0 := by
          by_contra hne
          rw [if_neg hne] at h
          omega
        rw [List.takeWhile_append] at hdigits
        split at hdigits
        · rename_i hall
          rw [List.length_append] at hdigits
          omega
        · exact hdigits
    · rw [if_neg he]

theorem Breaks.exponentLength (h : Breaks more more') (hnone : exponentLength more = 0) :
    Notation.exponentLength more' = 0 := by
  obtain ⟨front, rest, tail, rfl, rfl, htail⟩ := h
  have ends : EndsNumber tail := fun d hd => by
    rw [htail d hd]
    decide
  rw [exponentLength_append ends]
  exact exponentLength_of_append hnone

/-- A token stays as it is if what follows it is broken off by a star. -/
theorem IsToken.breaks (h : IsToken token c inner more) (hbreaks : Breaks more more') : IsToken token c inner more' := by
  cases h with
  | space hc hinner hmore => exact .space hc hinner (hbreaks.head (by decide) hmore)
  | name hc hname hinner hmore => exact .name hc hname hinner (hbreaks.head (by decide +kernel) hmore)
  | number hc hname hbegins htext parts hdigit hpoint hexponent =>
    refine .number hc hname hbegins htext parts (hbreaks.head (by decide) hdigit) (fun hf he hhead => ?_)
      fun he => hbreaks.exponentLength (hexponent he)
    have hnone : more.head?.any (· == '.') = false := by
      cases more with
      | nil => rfl
      | cons d more =>
        have hd : d ≠ '.' := fun heq => hpoint hf he (congrArg some heq)
        simpa using hd
    have hnone' := hbreaks.head (p := (· == '.')) (by decide) hnone
    rw [hhead] at hnone'
    cases hnone'
  | symbol hc hname hnumber =>
    refine .symbol hc hname ?_
    simp only [Bool.or_eq_false_iff, Bool.and_eq_false_iff] at hnumber ⊢
    exact ⟨hnumber.1, hnumber.2.imp_right fun hnone => hbreaks.head (by decide) hnone⟩

end

/-! ### Stars at some of the places -/

variable {isFunction : String → Bool} {sign : List Token} {chosen : Nat → Bool}

/-- The tokens with a sign between factors at the chosen places, in place of the blanks there. The places are before the
tokens that are no blanks, and are counted from `place`; given are the last token before them, and the blanks since then. -/
def signedTokens (isFunction : String → Bool) (sign : List Token) (chosen : Nat → Bool) :
    Nat → Option Token → Option (List Char) → List Token → List Token
  | _, _, blanks, [] => (blanks.map Token.space).toList
  | place, previous, blanks, token :: rest =>
    if token.isSpace then signedTokens isFunction sign chosen place previous (some token.text) rest
    else
      let factors := previous.any fun p => areFactors isFunction blanks.isSome p token
      let between := if factors && chosen place then sign else (blanks.map Token.space).toList
      between ++ token :: signedTokens isFunction sign chosen (place + 1) (some token) none rest

/-- The text with a sign at the chosen ones of the places at which stars are inserted, in place of the blanks there. -/
def writeSigns (isFunction : String → Bool) (sign : List Token) (chosen : Nat → Bool) (text : List Char) : List Char :=
  textOf (signedTokens isFunction sign chosen 0 none none (tokens text))

/-- The text with stars written at the chosen ones of the places at which stars are inserted. -/
def writeStars (isFunction : String → Bool) (chosen : Nat → Bool) (text : List Char) : List Char :=
  writeSigns isFunction [.symbol '*'] chosen text

section
variable {place : Nat} {previous : Option Token} {blanks : Option (List Char)} {token : Token} {rest : List Token}
  {c : Char} {inner behind text : List Char} {list : List Token}

theorem signedTokens_cons_space (h : token.isSpace = true) :
    signedTokens isFunction sign chosen place previous blanks (token :: rest) =
      signedTokens isFunction sign chosen place previous (some token.text) rest := by
  rw [signedTokens, if_pos h]

theorem signedTokens_cons_ink (h : token.isSpace = false) :
    signedTokens isFunction sign chosen place previous blanks (token :: rest) =
      (if (previous.any fun p => areFactors isFunction blanks.isSome p token) && chosen place then sign
        else (blanks.map Token.space).toList) ++
        token :: signedTokens isFunction sign chosen (place + 1) (some token) none rest := by
  rw [signedTokens, if_neg (by simp [h])]

theorem textOf_space (blanks : Option (List Char)) (list : List Token) :
    textOf ((blanks.map Token.space).toList ++ list) = blanks.getD [] ++ textOf list := by
  cases blanks with
  | none => rfl
  | some run => exact textOf_cons _ _

theorem textOf_blanks (blanks : Option (List Char)) : textOf (blanks.map Token.space).toList = blanks.getD [] := by
  cases blanks with
  | none => rfl
  | some run => exact List.append_nil run

theorem areFactors_star (previous : Option Token) :
    (previous.any fun p => areFactors isFunction false p (.symbol '*')) = false := by
  cases previous with
  | none => rfl
  | some p => exact areFactors_symbol_right (by decide) false p

/-- Whether the tokens of a text, with stars at the chosen places, are the tokens of the text that they make up, and the
text is broken off by stars only; whatever token and blanks stand before it. -/
def Parts (isFunction : String → Bool) (chosen : Nat → Bool) (text : List Char) (list : List Token) : Prop :=
  ∀ (place : Nat) (previous : Option Token) (blanks : Option (List Char)),
    (∀ run ∈ blanks, IsRun run ∧ text.head?.any isBlank = false) →
      tokens (textOf (signedTokens isFunction [.symbol '*'] chosen place previous blanks list)) =
          signedTokens isFunction [.symbol '*'] chosen place previous blanks list ∧
        Breaks (blanks.getD [] ++ text) (textOf (signedTokens isFunction [.symbol '*'] chosen place previous blanks list))

/-- A run of blanks before a text that begins with none is a token. -/
theorem tokens_blanks (hblanks : ∀ run ∈ blanks, IsRun run) (hhead : blanks.isSome = true → text.head?.any isBlank = false) :
    tokens (blanks.getD [] ++ text) = (blanks.map Token.space).toList ++ tokens text := by
  cases blanks with
  | none => rfl
  | some run =>
    obtain ⟨hne, hrun⟩ := hblanks run rfl
    obtain ⟨d, run, rfl⟩ := List.exists_cons_of_ne_nil hne
    rw [allBlank, List.all_eq_true] at hrun
    have hspace : IsToken (.space (d :: run)) d run text :=
      .space (hrun d (List.mem_cons_self ..)) (fun e he => hrun e (List.mem_cons_of_mem _ he)) (hhead rfl)
    exact hspace.tokens_eq

theorem Parts.space (ih : Parts isFunction chosen behind list) (htoken : IsToken token c inner behind)
    (hspace : token.isSpace = true) : Parts isFunction chosen (c :: (inner ++ behind)) (token :: list) := by
  intro place previous blanks hblanks
  cases htoken with
  | space hc hinner hmore =>
    have hnone : blanks = none := by
      cases blanks with
      | none => rfl
      | some run =>
        have hhead := (hblanks run rfl).2
        simp [hc] at hhead
    subst hnone
    have hrun : IsRun (c :: inner) := ⟨by simp, by simpa [allBlank, hc] using hinner⟩
    rw [signedTokens_cons_space rfl]
    refine ih place previous (some (c :: inner)) fun run hrun' => ?_
    obtain rfl := Option.some.inj hrun'
    exact ⟨hrun, hmore⟩
  | name => cases hspace
  | number => cases hspace
  | symbol => cases hspace

theorem Parts.ink (ih : Parts isFunction chosen behind list) (htoken : IsToken token c inner behind)
    (hspace : token.isSpace = false) : Parts isFunction chosen (c :: (inner ++ behind)) (token :: list) := by
  intro place previous blanks hblanks
  obtain ⟨hrest, hbreaks⟩ := ih (place + 1) (some token) none (by simp)
  have htokens := (htoken.breaks hbreaks).tokens_eq
  have hword : Breaks (c :: (inner ++ behind)) (token.text ++ textOf
      (signedTokens isFunction [.symbol '*'] chosen (place + 1) (some token) none list)) := by
    have hfront := hbreaks.append token.text
    rw [htoken.text] at hfront ⊢
    exact hfront
  rw [hrest, ← textOf_cons] at htokens
  rw [← textOf_cons] at hword
  rw [signedTokens_cons_ink hspace]
  split
  · rw [List.singleton_append, textOf_cons]
    exact ⟨(tokens_star _).trans (congrArg _ htokens), breaks_star _ _⟩
  · refine ⟨?_, textOf_space blanks _ ▸ hword.append _⟩
    rw [textOf_space, tokens_blanks (fun run hrun => (hblanks run hrun).1), htokens]
    intro _
    rw [textOf_cons, htoken.text]
    exact htoken.ink hspace c (List.mem_cons_self ..)

/-- A text with stars at some of the places has the tokens that it has been written with. -/
theorem parts_tokens (text : List Char) : Parts isFunction chosen text (tokens text) := by
  refine token_induction (motive := Parts isFunction chosen) ?_ ?_ text
  · intro place previous blanks hblanks
    have hrun := @tokens_blanks blanks [] (fun run hrun => (hblanks run hrun).1) fun _ => rfl
    rw [signedTokens, textOf_blanks]
    rw [List.append_nil] at hrun ⊢
    exact ⟨hrun.trans (List.append_nil _), .refl _⟩
  · intro c inner behind token htoken ih
    cases hspace : token.isSpace with
    | true => exact Parts.space ih htoken hspace
    | false => exact Parts.ink ih htoken hspace

theorem tokens_writeStars (text : List Char) :
    tokens (writeStars isFunction chosen text) = signedTokens isFunction [.symbol '*'] chosen 0 none none (tokens text) :=
  (parts_tokens text 0 none none (by simp)).1

/-- Products are written the same whether some of the stars have been there before. -/
theorem writeProducts_signedTokens (list : List Token) (place : Nat) (previous : Option Token)
    (blanks : Option (List Char)) :
    writeProducts isFunction previous none (signedTokens isFunction [.symbol '*'] chosen place previous blanks list) =
      writeProducts isFunction previous blanks list := by
  induction list generalizing place previous blanks with
  | nil => cases blanks <;> rfl
  | cons token rest ih =>
    cases hspace : token.isSpace with
    | true =>
      rw [signedTokens_cons_space hspace, writeProducts_cons_space hspace]
      exact ih place previous (some token.text)
    | false =>
      have hrest := ih (place + 1) (some token) none
      rw [signedTokens_cons_ink hspace, writeProducts_cons_ink hspace]
      split
      · -- The star is there: it is written as it stands, and no second one beside it.
        rename_i hplace
        rw [Bool.and_eq_true] at hplace
        rw [List.singleton_append, writeProducts_cons_ink rfl, writeProducts_cons_ink hspace, hrest, if_pos hplace.1]
        simp [Token.text, areFactors_star, areFactors_symbol_left]
      · cases blanks with
        | none =>
          rw [Option.map_none, Option.toList_none, List.nil_append, writeProducts_cons_ink hspace, hrest]
        | some run =>
          rw [Option.map_some, Option.toList_some, List.singleton_append, writeProducts_cons_space rfl,
            writeProducts_cons_ink hspace, hrest]
          rfl

theorem insertStars_writeStars (text : List Char) :
    insertStars isFunction (writeStars isFunction chosen text) = insertStars isFunction text := by
  rw [insertStars, tokens_writeStars, writeProducts_signedTokens, insertStars]

/-- With no place chosen, the tokens stay as they are. -/
theorem signedTokens_none (text : List Char) : ∀ (place : Nat) (previous : Option Token) (blanks : Option (List Char)),
    (blanks.isSome = true → text.head?.any isBlank = false) →
      signedTokens isFunction sign (fun _ => false) place previous blanks (tokens text) =
        (blanks.map Token.space).toList ++ tokens text := by
  refine token_induction (motive := fun text list => ∀ (place : Nat) (previous : Option Token)
    (blanks : Option (List Char)), (blanks.isSome = true → text.head?.any isBlank = false) →
      signedTokens isFunction sign (fun _ => false) place previous blanks list =
        (blanks.map Token.space).toList ++ list) (fun _ _ _ _ => (List.append_nil _).symm) ?_ text
  intro c inner behind token htoken ih place previous blanks hblanks
  cases htoken with
  | space hc hinner hmore =>
    have hnone : blanks = none := by
      cases blanks with
      | none => rfl
      | some run => simp [hc] at hblanks
    rw [signedTokens_cons_space rfl, ih place previous _ fun _ => hmore, hnone]
    rfl
  | name | number | symbol =>
    rw [signedTokens_cons_ink rfl, ih _ _ none (by simp), Bool.and_false, if_neg Bool.false_ne_true]
    rfl

theorem writeSigns_none (text : List Char) : writeSigns isFunction sign (fun _ => false) text = text := by
  rw [writeSigns, signedTokens_none text 0 none none (by simp)]
  exact textOf_tokens text

/-- With every place chosen, all products are written. -/
theorem textOf_signedTokens_all (list : List Token) (place : Nat) (previous : Option Token) (blanks : Option (List Char)) :
    textOf (signedTokens isFunction [.symbol '*'] (fun _ => true) place previous blanks list) =
      writeProducts isFunction previous blanks list := by
  induction list generalizing place previous blanks with
  | nil => exact textOf_blanks blanks
  | cons token rest ih =>
    cases hspace : token.isSpace with
    | true =>
      rw [signedTokens_cons_space hspace, writeProducts_cons_space hspace]
      exact ih place previous (some token.text)
    | false =>
      rw [signedTokens_cons_ink hspace, writeProducts_cons_ink hspace, Bool.and_true]
      split
      · rw [List.singleton_append, textOf_cons, textOf_cons, ih]
        rfl
      · rw [textOf_space, textOf_cons, ih, List.append_assoc]

theorem writeStars_all (text : List Char) : writeStars isFunction (fun _ => true) text = insertStars isFunction text :=
  textOf_signedTokens_all (tokens text) 0 none none

/-- Without the signs nothing but blanks is lost. -/
theorem strip_signedTokens_nil (list : List Token) (hlist : Blanked list) (place : Nat) (previous : Option Token)
    (blanks : Option (List Char)) (hblanks : allBlank (blanks.getD []) = true) :
    strip (textOf (signedTokens isFunction [] chosen place previous blanks list)) = strip (textOf list) := by
  induction list generalizing place previous blanks with
  | nil =>
    rw [signedTokens, textOf_blanks]
    exact strip_eq_nil_of_allBlank hblanks
  | cons token rest ih =>
    have hrest : Blanked rest := fun t ht => hlist t (List.mem_cons_of_mem _ ht)
    cases hspace : token.isSpace with
    | true =>
      have htoken := hlist token (List.mem_cons_self ..) hspace
      rw [signedTokens_cons_space hspace, ih hrest place previous (some token.text) htoken, textOf_cons, strip_append,
        strip_eq_nil_of_allBlank htoken, List.nil_append]
    | false =>
      have hinner := ih hrest (place + 1) (some token) none rfl
      rw [signedTokens_cons_ink hspace, textOf_cons, strip_append, ← hinner]
      split
      · rw [List.nil_append, textOf_cons, strip_append]
      · rw [textOf_space, textOf_cons, strip_append, strip_append, strip_eq_nil_of_allBlank hblanks, List.nil_append]

theorem strip_writeSigns_nil (text : List Char) : strip (writeSigns isFunction [] chosen text) = strip text := by
  rw [writeSigns, strip_signedTokens_nil (tokens text) (blanked_tokens text) 0 none none rfl, textOf_tokens]

end

/-! ### Implicit and explicit products -/

/-- An expression with stars written at the chosen ones of the places at which they are inserted. -/
def withStars (isFunction : String → Bool) (chosen : Nat → Bool) (expression : String) : String :=
  String.ofList (writeStars isFunction chosen expression.toList)

/-- It does not matter which of the stars have been written before: whatever places are chosen, from none to all, the
products come out the same; so they do when they are written twice. Without the inserted stars and without blanks, an
expression is what it was. -/
theorem insertMultiplication_interchange (isFunction : String → Bool) (expression : String) :
    (∀ chosen : Nat → Bool, insertMultiplication isFunction (withStars isFunction chosen expression) =
      insertMultiplication isFunction expression) ∧
    withStars isFunction (fun _ => false) expression = expression ∧
    withStars isFunction (fun _ => true) expression = insertMultiplication isFunction expression ∧
    insertMultiplication isFunction (insertMultiplication isFunction expression) =
      insertMultiplication isFunction expression ∧
    strip (writeSigns isFunction [] (fun _ => true) expression.toList) = strip expression.toList := by
  have interchange (chosen : Nat → Bool) : insertMultiplication isFunction (withStars isFunction chosen expression) =
      insertMultiplication isFunction expression := by
    rw [insertMultiplication, withStars, String.toList_ofList, insertStars_writeStars, insertMultiplication]
  have all : withStars isFunction (fun _ => true) expression = insertMultiplication isFunction expression := by
    rw [withStars, writeStars_all, insertMultiplication]
  refine ⟨interchange, ?_, all, ?_, strip_writeSigns_nil _⟩
  · rw [withStars, writeStars, writeSigns_none, String.ofList_toList]
  · have twice := interchange fun _ => true
    rwa [all] at twice

/-- Three products, the second of which is written before. -/
example : withStars (· == "sin") (· == 2) "2x (y) 3" = "2x*(y) 3" ∧
    insertMultiplication (· == "sin") "2x*(y) 3" = "2*x*(y)*3" := by
  decide +kernel

end OdeSystem.Notation
