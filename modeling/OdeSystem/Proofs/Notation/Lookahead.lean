import OdeSystem.Proofs.Notation.Subscript
import OdeSystem.Proofs.Notation.Token

/-!
How far tokens look ahead. A name ends before any other character than one of a name, and a number is known by its
parts: whole digits, a point with further digits, and an exponent. So a token stays the same when other text follows it,
as long as the first character of it does not go on with the token.
-/

namespace OdeSystem.Notation

open Text

/-! ### The parts of a number -/

theorem drop_length_takeWhile (p : Char → Bool) (text : List Char) :
    text.drop (text.takeWhile p).length = text.dropWhile p := calc
  text.drop (text.takeWhile p).length
  _ = (text.takeWhile p ++ text.dropWhile p).drop (text.takeWhile p).length :=
    congrArg (List.drop _) List.takeWhile_append_dropWhile.symm
  _ = text.dropWhile p := List.drop_left

/-- The parts of a number. -/
structure IsNumber (digits fraction exponent : List Char) : Prop where
  digits : ∀ c ∈ digits, isAsciiDigit c = true
  fraction : fraction = [] ∨ ∃ places, fraction = '.' :: places ∧ ∀ c ∈ places, isAsciiDigit c = true
  exponent : exponent = [] ∨ ∃ e sign power, exponent = e :: (sign ++ power) ∧ (e = 'e' ∨ e = 'E') ∧
    (sign = [] ∨ sign = ['+'] ∨ sign = ['-']) ∧ power ≠ [] ∧ ∀ c ∈ power, isAsciiDigit c = true

section
variable {digits fraction exponent text more : List Char}

theorem take_exponentSign (text : List Char) :
    text.take (exponentSign text) = [] ∨ text.take (exponentSign text) = ['+'] ∨ text.take (exponentSign text) = ['-'] := by
  cases text with
  | nil => exact .inl rfl
  | cons c rest =>
    rw [exponentSign_cons]
    split
    · rename_i h
      rcases h with rfl | rfl
      · exact .inr (.inl rfl)
      · exact .inr (.inr rfl)
    · exact .inl rfl

/-- The fraction that is measured at the front of a text, and what follows it. -/
theorem exists_fraction (text : List Char) (hdigit : text.head?.any isAsciiDigit = false) :
    ∃ fraction rest, text = fraction ++ rest ∧ fractionLength text = fraction.length ∧
      (fraction = [] ∨ ∃ places, fraction = '.' :: places ∧ ∀ c ∈ places, isAsciiDigit c = true) ∧
      rest.head?.any isAsciiDigit = false ∧ (fraction = [] → rest.head? ≠ some '.') := by
  by_cases hpoint : ∃ rest, text = '.' :: rest
  · obtain ⟨rest, rfl⟩ := hpoint
    refine ⟨'.' :: rest.takeWhile isAsciiDigit, rest.dropWhile isAsciiDigit, ?_, ?_, ?_, head_dropWhile _ _, by simp⟩
    · rw [List.cons_append, List.takeWhile_append_dropWhile]
    · simp [fractionLength, Nat.add_comm]
    · exact .inr ⟨_, rfl, fun c hc => List.mem_takeWhile_imp hc⟩
  · refine ⟨[], text, rfl, ?_, .inl rfl, hdigit, fun _ hhead => ?_⟩
    · unfold fractionLength
      split
      · exact absurd ⟨_, rfl⟩ hpoint
      · rfl
    · cases text with
      | nil => cases hhead
      | cons c rest => exact hpoint ⟨rest, by rw [Option.some.inj hhead]⟩

/-- The exponent that is measured at the front of a text, and what follows it. -/
theorem exists_exponent (text : List Char) (hdigit : text.head?.any isAsciiDigit = false) :
    ∃ exponent rest, text = exponent ++ rest ∧ exponentLength text = exponent.length ∧
      (exponent = [] ∨ ∃ e sign power, exponent = e :: (sign ++ power) ∧ (e = 'e' ∨ e = 'E') ∧
        (sign = [] ∨ sign = ['+'] ∨ sign = ['-']) ∧ power ≠ [] ∧ ∀ c ∈ power, isAsciiDigit c = true) ∧
      rest.head?.any isAsciiDigit = false ∧ (exponent = [] → exponentLength rest = 0) := by
  cases text with
  | nil => exact ⟨[], [], rfl, rfl, .inl rfl, rfl, fun _ => rfl⟩
  | cons c rest =>
    rw [exponentLength_cons]
    by_cases he : c = 'e' ∨ c = 'E'
    · by_cases hpower : ((rest.drop (exponentSign rest)).takeWhile isAsciiDigit).length = 0
      · rw [if_pos he, if_pos hpower]
        exact ⟨[], c :: rest, rfl, rfl, .inl rfl, hdigit, fun _ => by rw [exponentLength_cons, if_pos he, if_pos hpower]⟩
      · rw [if_pos he, if_neg hpower]
        refine ⟨c :: (rest.take (exponentSign rest) ++ (rest.drop (exponentSign rest)).takeWhile isAsciiDigit),
          (rest.drop (exponentSign rest)).dropWhile isAsciiDigit, ?_, ?_, ?_, head_dropWhile _ _, by simp⟩
        · rw [List.cons_append, List.append_assoc, List.takeWhile_append_dropWhile, List.take_append_drop]
        · have hsign := (exponentSign_append endsNumber_nil rest).2
          rw [List.length_cons, List.length_append, List.length_take, Nat.min_eq_left hsign]
          omega
        · exact .inr ⟨c, _, _, rfl, he, take_exponentSign rest, fun hnil => hpower (by rw [hnil]; rfl),
            fun d hd => List.mem_takeWhile_imp hd⟩
    · rw [if_neg he]
      exact ⟨[], c :: rest, rfl, rfl, .inl rfl, hdigit, fun _ => by rw [exponentLength_cons, if_neg he]⟩

/-- What is measured as a number at the front of a text are the parts of one, and nothing follows that goes on with it. -/
theorem exists_isNumber (text : List Char) :
    ∃ digits fraction exponent rest, text = digits ++ fraction ++ exponent ++ rest ∧
      IsNumber digits fraction exponent ∧ numberLength text = (digits ++ fraction ++ exponent).length ∧
      rest.head?.any isAsciiDigit = false ∧ (fraction = [] → exponent = [] → rest.head? ≠ some '.') ∧
      (exponent = [] → exponentLength rest = 0) := by
  obtain ⟨fraction, middle, hfraction, hlength, hplaces, hmiddle, hpoint⟩ :=
    exists_fraction (text.dropWhile isAsciiDigit) (head_dropWhile _ _)
  obtain ⟨exponent, rest, hexponent, hlength', hpower, hrest, hnone⟩ := exists_exponent middle hmiddle
  have htext : text = text.takeWhile isAsciiDigit ++ fraction ++ exponent ++ rest := by
    rw [List.append_assoc, List.append_assoc, ← hexponent, ← hfraction, List.takeWhile_append_dropWhile]
  have hmore : text.drop ((text.takeWhile isAsciiDigit).length + fraction.length) = middle := by
    rw [← List.drop_drop, drop_length_takeWhile, hfraction, List.drop_left]
  refine ⟨text.takeWhile isAsciiDigit, fraction, exponent, rest, htext,
    ⟨fun c hc => List.mem_takeWhile_imp hc, hplaces, hpower⟩, ?_, hrest, fun hnone hnone' => ?_, hnone⟩
  · rw [numberLength, drop_length_takeWhile, hlength, hmore, hlength', List.length_append, List.length_append]
  · rw [hnone', List.nil_append] at hexponent
    rw [← hexponent]
    exact hpoint hnone

theorem fractionLength_of_head (h : text.head? ≠ some '.') : fractionLength text = 0 := by
  unfold fractionLength
  split
  · exact absurd rfl h
  · rfl

theorem exponentLength_of_head (he : text.head? ≠ some 'e') (hE : text.head? ≠ some 'E') : exponentLength text = 0 := by
  cases text with
  | nil => rfl
  | cons c rest =>
    have hc : ¬ (c = 'e' ∨ c = 'E') := by
      rintro (rfl | rfl)
      · exact he rfl
      · exact hE rfl
    rw [exponentLength_cons, if_neg hc]

/-- The sign of an exponent is measured if a digit follows it. -/
theorem exponentSign_of_digit {sign power : List Char} (hsign : sign = [] ∨ sign = ['+'] ∨ sign = ['-'])
    (hne : power ≠ []) (hpower : ∀ c ∈ power, isAsciiDigit c = true) :
    exponentSign (sign ++ (power ++ more)) = sign.length := by
  rcases hsign with rfl | rfl | rfl
  · obtain ⟨d, power, rfl⟩ := List.exists_cons_of_ne_nil hne
    have hd := hpower d (List.mem_cons_self ..)
    have hplus : ¬ (d = '+' ∨ d = '-') := by
      rintro (rfl | rfl) <;> revert hd <;> decide
    rw [List.nil_append, List.cons_append, exponentSign_cons, if_neg hplus]
    rfl
  · rfl
  · rfl

namespace IsNumber

/-- An exponent of a number is measured whole if no digit follows it. -/
theorem exponentLength_append (h : IsNumber digits fraction exponent) (hdigit : more.head?.any isAsciiDigit = false)
    (hexponent : exponent = [] → exponentLength more = 0) : exponentLength (exponent ++ more) = exponent.length := by
  rcases h.exponent with rfl | ⟨e, sign, power, rfl, he, hsign, hne, hpower⟩
  · exact hexponent rfl
  · have hlength : power.length ≠ 0 := by simpa using hne
    rw [List.cons_append, List.append_assoc, exponentLength_cons, if_pos he, exponentSign_of_digit hsign hne hpower,
      List.drop_left, (takeWhile_ended hpower hdigit).1, if_neg hlength, List.length_cons, List.length_append]
    omega

/-- Neither an exponent nor what follows it begins with a digit. -/
theorem head_exponent (h : IsNumber digits fraction exponent) (hdigit : more.head?.any isAsciiDigit = false) :
    (exponent ++ more).head?.any isAsciiDigit = false := by
  rcases h.exponent with rfl | ⟨e, sign, power, rfl, rfl | rfl, -⟩
  · exact hdigit
  · exact (show isAsciiDigit 'e' = false by decide)
  · exact (show isAsciiDigit 'E' = false by decide)

/-- A fraction of a number is measured whole, and none is where the number has none and no point follows it. -/
theorem fractionLength_append (h : IsNumber digits fraction exponent) (hdigit : more.head?.any isAsciiDigit = false)
    (hpoint : fraction = [] → exponent = [] → more.head? ≠ some '.') :
    fractionLength (fraction ++ (exponent ++ more)) = fraction.length := by
  rcases h.fraction with rfl | ⟨places, rfl, hplaces⟩
  · refine fractionLength_of_head ?_
    rcases h.exponent with rfl | ⟨e, sign, power, rfl, rfl | rfl, -⟩
    · exact hpoint rfl rfl
    · exact (by decide : some 'e' ≠ some '.')
    · exact (by decide : some 'E' ≠ some '.')
  · rw [List.cons_append, fractionLength, (takeWhile_ended hplaces (h.head_exponent hdigit)).1, List.length_cons,
      Nat.add_comm]

end IsNumber

/-- A number is measured whole if nothing goes on with it. -/
theorem numberLength_of_isNumber (h : IsNumber digits fraction exponent) (hdigit : more.head?.any isAsciiDigit = false)
    (hpoint : fraction = [] → exponent = [] → more.head? ≠ some '.')
    (hexponent : exponent = [] → exponentLength more = 0) :
    numberLength (digits ++ fraction ++ exponent ++ more) = (digits ++ fraction ++ exponent).length := by
  have hend : (fraction ++ (exponent ++ more)).head?.any isAsciiDigit = false := by
    rcases h.fraction with rfl | ⟨places, rfl, -⟩
    · exact h.head_exponent hdigit
    · exact (show isAsciiDigit '.' = false by decide)
  have hwhole := takeWhile_ended h.digits hend
  have hfraction := h.fractionLength_append hdigit hpoint
  have hpower := h.exponentLength_append hdigit hexponent
  rw [List.append_assoc, List.append_assoc, numberLength, hwhole.1, List.drop_left, hfraction, ← List.drop_drop,
    List.drop_left, List.drop_left, hpower, List.length_append, List.length_append]

theorem mem_of_last {front xs ys : List Char} {c : Char} (h : xs ++ ys = front ++ [c]) (hne : ys ≠ []) : c ∈ ys := by
  obtain ⟨inner, d, rfl⟩ := (List.eq_nil_or_concat' ys).resolve_left hne
  rw [← List.append_assoc] at h
  have hlast : [d] = [c] := List.append_inj_right' h rfl
  rw [(List.cons.inj hlast).1]
  exact List.mem_append_right _ (List.mem_singleton_self c)

/-- The characters of a number. -/
theorem IsNumber.mem {d : Char} (h : IsNumber digits fraction exponent) (hd : d ∈ digits ++ fraction ++ exponent) :
    isAsciiDigit d = true ∨ d ∈ ['.', '+', '-', 'e', 'E'] := by
  obtain ⟨hdigits, hfraction, hpower⟩ := h
  rw [List.mem_append, List.mem_append] at hd
  rcases hd with (hd | hd) | hd
  · exact .inl (hdigits d hd)
  · rcases hfraction with rfl | ⟨places, rfl, hplaces⟩
    · cases hd
    · rcases List.mem_cons.mp hd with rfl | hd
      · exact .inr (by simp)
      · exact .inl (hplaces d hd)
  · rcases hpower with rfl | ⟨e, sign, power, rfl, he, hsign, -, hpowers⟩
    · cases hd
    · rcases List.mem_cons.mp hd with rfl | hd
      · exact .inr (by rcases he with rfl | rfl <;> simp)
      · rcases List.mem_append.mp hd with hd | hd
        · refine .inr ?_
          rcases hsign with rfl | rfl | rfl
          · cases hd
          · obtain rfl := List.mem_singleton.mp hd
            simp
          · obtain rfl := List.mem_singleton.mp hd
            simp
        · exact .inl (hpowers d hd)

/-- A number ends with a digit or its point. -/
theorem IsNumber.last (h : IsNumber digits fraction exponent) {front : List Char} {c : Char}
    (htext : digits ++ fraction ++ exponent = front ++ [c]) : isAsciiDigit c = true ∨ c = '.' := by
  obtain ⟨hdigits, hfraction, hpower⟩ := h
  rcases hpower with rfl | ⟨e, sign, power, rfl, -, -, hne, hpowers⟩
  · rw [List.append_nil] at htext
    rcases hfraction with rfl | ⟨places, rfl, hplaces⟩
    · rw [List.append_nil] at htext
      exact .inl (hdigits c (htext ▸ List.mem_append_right _ (List.mem_singleton_self c)))
    · rcases List.mem_cons.mp (mem_of_last htext (by simp)) with hpoint | hc
      · exact .inr hpoint
      · exact .inl (hplaces c hc)
  · have hwhole : (digits ++ fraction ++ e :: sign) ++ power = front ++ [c] := by simpa using htext
    exact .inl (hpowers c (mem_of_last hwhole hne))

end

/-! ### Tokens and what follows them -/

/-- What the characters of a token are, and what may follow it: nothing that would go on with it. -/
inductive IsToken : Token → Char → List Char → List Char → Prop
  | space {c : Char} {inner more : List Char} (hc : isBlank c = true) (hinner : ∀ d ∈ inner, isBlank d = true)
      (hmore : more.head?.any isBlank = false) : IsToken (.space (c :: inner)) c inner more
  | name {c : Char} {inner more : List Char} (hc : isBlank c = false) (hname : (isAlphabetic c || c == '_') = true)
      (hinner : ∀ d ∈ inner, isNameChar d = true) (hmore : more.head?.any isNameChar = false) :
      IsToken (.name (c :: inner)) c inner more
  | number {c : Char} {inner more digits fraction exponent : List Char} (hc : isBlank c = false)
      (hname : (isAlphabetic c || c == '_') = false)
      (hbegins : (isAsciiDigit c || (c == '.' && startsWithDigit inner)) = true)
      (htext : c :: inner = digits ++ fraction ++ exponent) (parts : IsNumber digits fraction exponent)
      (hdigit : more.head?.any isAsciiDigit = false) (hpoint : fraction = [] → exponent = [] → more.head? ≠ some '.')
      (hexponent : exponent = [] → exponentLength more = 0) : IsToken (.number (c :: inner)) c inner more
  | symbol {c : Char} {more : List Char} (hc : isBlank c = false) (hname : (isAlphabetic c || c == '_') = false)
      (hnumber : (isAsciiDigit c || (c == '.' && startsWithDigit more)) = false) : IsToken (.symbol c) c [] more

section
variable {c : Char} {inner more more' : List Char} {token : Token}

theorem IsToken.text (h : IsToken token c inner more) : token.text = c :: inner := by
  cases h <;> rfl

/-- A text begins with a token. -/
theorem isToken_firstToken (c : Char) (rest : List Char) :
    ∃ inner more, rest = inner ++ more ∧ IsToken (firstToken c rest) c inner more := by
  have split (p : Char → Bool) : rest = rest.takeWhile p ++ rest.dropWhile p := List.takeWhile_append_dropWhile.symm
  unfold firstToken
  by_cases hblank : isBlank c = true
  · rw [if_pos hblank]
    exact ⟨_, _, split isBlank, .space hblank (fun d hd => List.mem_takeWhile_imp hd) (head_dropWhile _ _)⟩
  rw [if_neg hblank]
  rw [Bool.not_eq_true] at hblank
  by_cases hname : (isAlphabetic c || c == '_') = true
  · rw [if_pos hname]
    exact ⟨_, _, split isNameChar, .name hblank hname (fun d hd => List.mem_takeWhile_imp hd) (head_dropWhile _ _)⟩
  rw [if_neg hname]
  rw [Bool.not_eq_true] at hname
  by_cases hnumber : (isAsciiDigit c || (c == '.' && startsWithDigit rest)) = true
  · rw [if_pos hnumber]
    obtain ⟨digits, fraction, exponent, more, htext, parts, hlength, hdigit, hpoint, hexponent⟩ :=
      exists_isNumber (c :: rest)
    have hbegin : isAsciiDigit c = true ∨ c = '.' := by
      rw [Bool.or_eq_true, Bool.and_eq_true, beq_iff_eq] at hnumber
      exact hnumber.imp_right And.left
    obtain ⟨d, inner, hparts⟩ := List.exists_cons_of_length_pos (hlength ▸ numberLength_pos hbegin)
    rw [hparts, List.cons_append] at htext
    obtain ⟨rfl, rfl⟩ := List.cons.inj htext
    have hinner : (isAsciiDigit c || (c == '.' && startsWithDigit inner)) = true := by
      cases inner with
      | cons d inner => exact hnumber
      | nil =>
        -- A digit behind a point alone would belong to the number.
        rw [startsWithDigit, List.nil_append, hdigit, Bool.and_false, Bool.or_false] at hnumber
        simp [hnumber]
    have htake : (c :: (inner ++ more)).take (numberLength (c :: (inner ++ more))) = c :: inner := by
      rw [hlength, hparts, ← List.cons_append, List.take_left]
    rw [htake]
    exact ⟨inner, more, rfl, .number hblank hname hinner hparts.symm parts hdigit hpoint hexponent⟩
  · rw [if_neg hnumber]
    exact ⟨[], rest, rfl, .symbol hblank hname (by simpa using hnumber)⟩

theorem IsToken.firstToken_eq (h : IsToken token c inner more) : firstToken c (inner ++ more) = token := by
  unfold firstToken
  cases h with
  | space hc hinner hmore => rw [if_pos hc, (takeWhile_ended hinner hmore).1]
  | name hc hname hinner hmore =>
    rw [if_neg (by simp [hc]), if_pos hname, (takeWhile_ended hinner hmore).1]
  | @number _ _ _ digits fraction exponent hc hname hbegins htext parts hdigit hpoint hexponent =>
    have hnumber : (isAsciiDigit c || (c == '.' && startsWithDigit (inner ++ more))) = true := by
      cases inner with
      | cons d inner => exact hbegins
      | nil =>
        have hc' : isAsciiDigit c = true := by simpa [startsWithDigit] using hbegins
        simp [hc']
    have hlength := numberLength_of_isNumber parts hdigit hpoint hexponent
    rw [← htext] at hlength
    have hlength : numberLength (c :: (inner ++ more)) = (c :: inner).length := hlength
    rw [if_neg (by simp [hc]), if_neg (by simp [hname]), if_pos hnumber, hlength, ← List.cons_append, List.take_left]
  | symbol hc hname hnumber =>
    rw [List.nil_append, if_neg (by simp [hc]), if_neg (by simp [hname]), if_neg (by simp [hnumber])]

theorem IsToken.tokens_eq (h : IsToken token c inner more) : tokens (token.text ++ more) = token :: tokens more := by
  rw [h.text, List.cons_append, tokens_cons, h.firstToken_eq, h.text, List.length_cons, Nat.add_sub_cancel, List.drop_left]

/-- Whether a token stays as it is when another text follows it: no character of it goes on with the token. -/
def Token.CanPrecede (more more' : List Char) : Token → Prop
  | name _ => more'.head?.any isNameChar = false
  | number _ => more'.head?.any isAsciiDigit = false ∧ more'.head? ≠ some 'e' ∧ more'.head? ≠ some 'E' ∧
    (more'.head? = some '.' → more.head? = some '.')
  | symbol c => c = '.' → startsWithDigit more' = false
  | space _ => False

theorem IsToken.before (h : IsToken token c inner more) (hmore : token.CanPrecede more more') :
    IsToken token c inner more' := by
  cases h with
  | space hc hinner _ => exact hmore.elim
  | name hc hname hinner _ => exact .name hc hname hinner hmore
  | number hc hname hbegins htext parts _ hpoint _ =>
    obtain ⟨hdigit, he, hE, hpoint'⟩ := hmore
    exact .number hc hname hbegins htext parts hdigit (fun hf he hhead => hpoint hf he (hpoint' hhead))
      fun _ => exponentLength_of_head he hE
  | symbol hc hname hnumber =>
    have hpoint : c = '.' → startsWithDigit more' = false := hmore
    refine .symbol hc hname ?_
    simp only [Bool.or_eq_false_iff] at hnumber ⊢
    exact ⟨hnumber.1, by simpa using hpoint⟩

/-- The tokens of a text, one after the other. -/
theorem token_induction {motive : List Char → List Token → Prop} (nil : motive [] [])
    (cons : ∀ c inner behind token, IsToken token c inner behind → motive behind (tokens behind) →
      motive (c :: (inner ++ behind)) (token :: tokens behind)) (text : List Char) : motive text (tokens text) := by
  induction text using tokens_induction with
  | nil => exact nil
  | cons c rest ih =>
    obtain ⟨inner, behind, rfl, htoken⟩ := isToken_firstToken c rest
    rw [tokens_cons]
    rw [htoken.text, List.length_cons, Nat.add_sub_cancel, List.drop_left] at ih ⊢
    exact cons c inner behind _ htoken ih

/-- A text is empty, or begins with a token. -/
theorem tokens_cases (text : List Char) :
    text = [] ∨ ∃ token c inner behind, text = c :: (inner ++ behind) ∧ IsToken token c inner behind ∧
      tokens text = token :: tokens behind :=
  token_induction (motive := fun text list => text = [] ∨ ∃ token c inner behind, text = c :: (inner ++ behind) ∧
    IsToken token c inner behind ∧ list = token :: tokens behind) (.inl rfl)
    (fun c inner behind token htoken _ => .inr ⟨token, c, inner, behind, rfl, htoken, rfl⟩) text

/-- A text that is one token, and what it is. -/
theorem isToken_of_tokens_eq {text : List Char} (h : tokens text = [token]) :
    ∃ c inner, text = c :: inner ∧ IsToken token c inner [] := by
  rcases tokens_cases text with rfl | ⟨first, c, inner, behind, htext, htoken, htokens⟩
  · cases h
  · obtain ⟨rfl, hbehind⟩ := List.cons.inj (htokens.symm.trans h)
    have hnil : behind = [] := by
      rw [← textOf_tokens behind, hbehind]
      rfl
    rw [hnil, List.append_nil] at htext
    exact ⟨c, inner, htext, hnil ▸ htoken⟩

theorem IsToken.number_mem {digits : List Char} (h : IsToken (.number digits) c inner more) {d : Char} (hd : d ∈ digits) :
    isAsciiDigit d = true ∨ d ∈ ['.', '+', '-', 'e', 'E'] := by
  cases h with
  | number hc hname hbegins htext parts => exact parts.mem (htext ▸ hd)

theorem IsToken.isNameChar {f : List Char} (h : IsToken (.name f) c inner more) : ∀ d ∈ f, isNameChar d = true := by
  cases h with
  | name hc hname hinner hmore =>
    intro d hd
    rcases List.mem_cons.mp hd with rfl | hd
    · rcases Bool.or_eq_true _ _ ▸ hname with h | h
      · simp [Notation.isNameChar, isAlphanumeric, h]
      · simp [Notation.isNameChar, h]
    · exact hinner d hd

end

/-! ### Texts in a row -/

section
variable {c last : Char} {inner more left right : List Char} {token : Token}

/-- A token stays as it is when a text goes on, if no exponent behind it does, nor the token itself where nothing else
stands behind it. -/
theorem IsToken.append (h : IsToken token c inner more) (hexponent : exponentLength (more ++ right) = exponentLength more)
    (hlast : more = [] → IsToken token c inner right) : IsToken token c inner (more ++ right) := by
  cases more with
  | nil => exact hlast rfl
  | cons d more =>
    cases h with
    | space hc hinner hmore => exact .space hc hinner hmore
    | name hc hname hinner hmore => exact .name hc hname hinner hmore
    | number hc hname hbegins htext parts hdigit hpoint hnone =>
      exact .number hc hname hbegins htext parts hdigit hpoint fun he => hexponent.trans (hnone he)
    | symbol hc hname hnumber => exact .symbol hc hname hnumber

/-- The tokens of two texts in a row are those of each, if neither an exponent nor the last token of the first one goes on
into the second. -/
theorem tokens_append (hexponent : ∀ more, more <:+ left → exponentLength (more ++ right) = exponentLength more)
    (hlast : ∀ token c inner, c :: inner <:+ left → (tokens left).getLast? = some token → IsToken token c inner [] →
      IsToken token c inner right) : tokens (left ++ right) = tokens left ++ tokens right := by
  refine token_induction (motive := fun text list => text <:+ left → list <:+ tokens left →
    tokens (text ++ right) = list ++ tokens right) (fun _ _ => rfl) ?_ left (List.suffix_refl _) (List.suffix_refl _)
  intro c inner behind token htoken ih htext hlist
  have hbehind : behind <:+ left := ((List.suffix_append inner behind).trans (List.suffix_cons ..)).trans htext
  have hrest := ih hbehind ((List.suffix_cons ..).trans hlist)
  have happended : IsToken token c inner (behind ++ right) := by
    refine htoken.append (hexponent behind hbehind) fun hnil => ?_
    subst hnil
    rw [List.append_nil] at htext
    obtain ⟨front, hfront⟩ := hlist
    refine hlast token c inner htext ?_ htoken
    rw [← hfront, show tokens [] = [] from rfl, List.getLast?_concat]
  have htokens := happended.tokens_eq
  rw [happended.text, hrest] at htokens
  rw [List.cons_append, List.append_assoc, ← List.cons_append, htokens, List.cons_append]

/-- No token goes on into a text that begins with no blank and no character of a number, unless a name does. -/
theorem tokens_append_of_head (ends : EndsNumber right) (hblank : right.head?.any isBlank = false)
    (hname : ∀ f, (tokens left).getLast? = some (.name f) → right.head?.any isNameChar = false) :
    tokens (left ++ right) = tokens left ++ tokens right := by
  refine tokens_append (fun more _ => exponentLength_append ends more) fun token c inner _ htoken h => ?_
  have hdigit : right.head?.any isAsciiDigit = false := by
    cases right with
    | nil => rfl
    | cons d right => exact (ends d rfl).1
  have hsign {d : Char} (hd : d ∈ ['.', '+', '-', 'e', 'E']) : right.head? ≠ some d := fun hhead => (ends d hhead).2 hd
  cases h with
  | space hc hinner => exact .space hc hinner hblank
  | name hc hbegins hinner => exact .name hc hbegins hinner (hname _ htoken)
  | number hc hbegins hnumber htext parts =>
    exact .number hc hbegins hnumber htext parts hdigit (fun _ _ => hsign (by simp))
      fun _ => exponentLength_of_head (hsign (by simp)) (hsign (by simp))
  | symbol hc hbegins hnumber =>
    refine .symbol hc hbegins ?_
    rw [Bool.or_eq_false_iff] at hnumber ⊢
    exact ⟨hnumber.1, by rw [startsWithDigit, hdigit, Bool.and_false]⟩

/-- No name goes on behind a text where no character of a name follows, nor does a number or a run of blanks if the text
does not end like one. -/
theorem tokens_append_of_last (ends : EndsNumber [last]) (hblank : isBlank last = false)
    (hname : right.head?.any isNameChar = false) (front : List Char) :
    tokens (front ++ [last] ++ right) = tokens (front ++ [last]) ++ tokens right := by
  obtain ⟨hdigit, hsign⟩ := ends last rfl
  have ends' (more : List Char) : EndsNumber (last :: more) := fun d hd => by
    obtain rfl := Option.some.inj hd
    exact ⟨hdigit, hsign⟩
  have hletter {d : Char} (hd : isNameChar d = true) : right.head? ≠ some d := fun hhead => by
    rw [hhead, Option.any_some, hd] at hname
    cases hname
  refine tokens_append (fun more hmore => ?_) fun token c inner htext _ h => ?_
  · rcases List.eq_nil_or_concat' more with rfl | ⟨shorter, d, rfl⟩
    · exact exponentLength_of_head (hletter (by decide)) (hletter (by decide))
    · obtain ⟨skipped, hskipped⟩ := hmore
      rw [← List.append_assoc] at hskipped
      obtain rfl : d = last := (List.cons.inj (List.append_inj_right' hskipped rfl)).1
      rw [List.append_assoc, List.singleton_append, exponentLength_append (ends' right), exponentLength_append (ends' [])]
  · obtain ⟨skipped, hskipped⟩ := htext
    have hmem {P : Char → Prop} (hall : ∀ d ∈ c :: inner, P d) : P last :=
      hall last (mem_of_last hskipped (by simp))
    cases h with
    | space hc hinner =>
      have := hmem (P := fun d => isBlank d = true) fun d hd => by
        rcases List.mem_cons.mp hd with rfl | hd
        · exact hc
        · exact hinner d hd
      rw [hblank] at this
      cases this
    | name hc hbegins hinner => exact .name hc hbegins hinner hname
    | number hc hbegins hnumber htext parts =>
      -- The last character would be a digit or a point.
      obtain ⟨shorter, d, hshorter⟩ := (List.eq_nil_or_concat' (c :: inner)).resolve_left (by simp)
      rw [hshorter, ← List.append_assoc] at hskipped
      obtain rfl : d = last := (List.cons.inj (List.append_inj_right' hskipped rfl)).1
      rcases parts.last (htext.symm.trans hshorter) with h | rfl
      · rw [hdigit] at h
        cases h
      · exact absurd (List.mem_cons_self ..) hsign
    | symbol hc hbegins hnumber =>
      obtain rfl : last = c := by simpa using mem_of_last hskipped (by simp)
      have hpoint : last ≠ '.' := fun heq => hsign (by simp [heq])
      exact .symbol hc hbegins (by simpa [hpoint] using hdigit)

/-- A name is followed by no character of a name. -/
theorem head_behind_name (text : List Char) : ∀ {front rest : List Token} {f : List Char},
    tokens text = front ++ .name f :: rest → (textOf rest).head?.any isNameChar = false := by
  refine token_induction (motive := fun _ list => ∀ {front rest : List Token} {f : List Char},
    list = front ++ .name f :: rest → (textOf rest).head?.any isNameChar = false) (fun h => by simp at h) ?_ text
  intro c inner behind token htoken ih front rest f h
  cases front with
  | nil =>
    obtain ⟨rfl, rfl⟩ := List.cons.inj h
    rw [textOf_tokens]
    cases htoken with
    | name hc hname hinner hmore => exact hmore
  | cons t front => exact ih (List.cons.inj h).2

end

end OdeSystem.Notation
