import OdeSystem.Proofs.Notation.Token
import OdeSystem.Proofs.Scan.Basic

/-!
Tokens scanned by bytes. Names and blanks are passed character by character, but the end of a number is looked for in
the bytes, and each token is cut out of the text between two places. Every place is one between characters, since the
bytes of a number are characters of ASCII.
-/

namespace OdeSystem.Scan

open Notation Text

/-- Passes the characters with a property: the place behind them, given the one before them, and what is left. -/
def passWhile (p : Char → Bool) (stop : Nat) : List (Nat × Char) → Nat × List (Nat × Char)
  | [] => (stop, [])
  | (i, c) :: rest => if p c then passWhile p (i + c.utf8Size) rest else (stop, (i, c) :: rest)

def isDigitByte (b : UInt8) : Bool := '0'.toUInt8 ≤ b && b ≤ '9'.toUInt8

def isDigitAt (bytes : List UInt8) (i : Nat) : Bool := bytes[i]?.any isDigitByte

theorem lt_length_of_isDigitAt {bytes : List UInt8} {i : Nat} (h : isDigitAt bytes i = true) : i < bytes.length := by
  by_contra hle
  simp [isDigitAt, List.getElem?_eq_none (Nat.le_of_not_lt hle)] at h

/-- The place behind the digits at a place. -/
def skipDigits (bytes : List UInt8) (i : Nat) : Nat :=
  if h : isDigitAt bytes i = true then skipDigits bytes (i + 1) else i
termination_by bytes.length - i
decreasing_by
  have := lt_length_of_isDigitAt h
  omega

/-- The place behind the fraction at a place, if there is one. -/
def fractionEnd (bytes : List UInt8) (i : Nat) : Nat :=
  if bytes[i]? = some '.'.toUInt8 then skipDigits bytes (i + 1) else i

/-- The place behind the exponent at a place, if there is one. -/
def exponentEnd (bytes : List UInt8) (i : Nat) : Nat :=
  if bytes[i]? = some 'e'.toUInt8 ∨ bytes[i]? = some 'E'.toUInt8 then
    let digits :=
      if bytes[i + 1]? = some '+'.toUInt8 ∨ bytes[i + 1]? = some '-'.toUInt8 then i + 2 else i + 1
    if isDigitAt bytes digits then skipDigits bytes digits else i
  else i

/-- The place behind the number at a place. -/
def numberEnd (bytes : List UInt8) (start : Nat) : Nat :=
  exponentEnd bytes (fractionEnd bytes (skipDigits bytes start))

/-- The token that begins with a character, and the characters behind it. -/
def tokenAt (text : List Char) (start : Nat) (c : Char) (rest : List (Nat × Char)) :
    Checked (Token × List (Nat × Char)) :=
  let chars := (start, c) :: rest
  if isBlank c then do
    let (stop, behind) := passWhile isBlank start chars
    return (.space (← slice start stop text), behind)
  else if isAlphabetic c || c == '_' then do
    let (stop, behind) := passWhile isNameChar start chars
    return (.name (← slice start stop text), behind)
  else if isAsciiDigit c || (c == '.' && isDigitAt (bytes text) (start + 1)) then do
    let stop := numberEnd (bytes text) start
    return (.number (← slice start stop text), chars.dropWhile (·.1 < stop))
  else return (.symbol c, rest)

/-- The tokens of a text from the given characters on. -/
def tokensFrom (text : List Char) : List (Nat × Char) → Checked (List Token)
  | [] => return []
  | (start, c) :: rest => do
    let (token, behind) ← tokenAt text start c rest
    if _h : behind.length ≤ rest.length then return token :: (← tokensFrom text behind) else throw .stuck
termination_by chars => chars.length
decreasing_by exact Nat.lt_succ_of_le _h

/-- The tokens of a text. -/
def tokens (text : List Char) : Checked (List Token) := tokensFrom text (places 0 text)

/-! ### Numbers -/

section
variable {c : Char}

theorem isAsciiDigit_iff : isAsciiDigit c = true ↔ 48 ≤ c.toNat ∧ c.toNat ≤ 57 := by
  simp only [isAsciiDigit, Bool.and_eq_true, decide_eq_true_eq, Char.le_def, UInt32.le_iff_toNat_le]
  rfl

theorem isDigitByte_iff {b : UInt8} : isDigitByte b = true ↔ 48 ≤ b.toNat ∧ b.toNat ≤ 57 := by
  simp only [isDigitByte, Bool.and_eq_true, decide_eq_true_eq, UInt8.le_iff_toNat_le]
  rfl

end

/-- A digit stands at a place if what is left of the text there begins with one. -/
theorem isDigitAt_bytes (front back : List Char) :
    isDigitAt (bytes (front ++ back)) (byteLength front) = startsWithDigit back := by
  cases back with
  | nil =>
    rw [isDigitAt, byte_of_nil]
    rfl
  | cons c rest =>
    obtain ⟨b, hb, hbyte⟩ := exists_byte front c rest
    rw [isDigitAt, hb]
    refine Bool.eq_iff_iff.mpr ?_
    change isDigitByte b = true ↔ isAsciiDigit c = true
    rw [isDigitByte_iff, isAsciiDigit_iff]
    rcases hbyte with ⟨hc, rfl⟩ | ⟨hc, hbyte⟩
    · rw [toNat_toUInt8 hc]
    · omega

theorem skipDigits_bytes (front back : List Char) :
    skipDigits (bytes (front ++ back)) (byteLength front) = byteLength (front ++ back.takeWhile isAsciiDigit) := by
  induction back generalizing front with
  | nil =>
    rw [skipDigits, isDigitAt_bytes, dif_neg (by simp [startsWithDigit]), List.takeWhile_nil, List.append_nil]
  | cons c rest ih =>
    rw [skipDigits, isDigitAt_bytes]
    by_cases hc : isAsciiDigit c = true
    · have hnext := ih (front ++ [c])
      rw [byteLength_concat_ascii (by have := isAsciiDigit_iff.mp hc; omega), List.append_assoc, List.append_assoc,
        List.singleton_append] at hnext
      rw [dif_pos (show startsWithDigit (c :: rest) = true from hc), hnext, List.takeWhile_cons_of_pos hc,
        List.singleton_append]
    · rw [dif_neg (show ¬ startsWithDigit (c :: rest) = true from hc), List.takeWhile_cons_of_neg hc, List.append_nil]

theorem take_takeWhile (p : Char → Bool) (text : List Char) :
    text.take (text.takeWhile p).length = text.takeWhile p :=
  (List.prefix_iff_eq_take.mp (List.takeWhile_prefix p)).symm

theorem fractionEnd_bytes (front back : List Char) :
    fractionEnd (bytes (front ++ back)) (byteLength front) =
      byteLength (front ++ back.take (fractionLength back)) := by
  unfold fractionEnd
  split
  · rename_i hpoint
    rw [byte_eq_iff (by decide)] at hpoint
    obtain ⟨rest, rfl⟩ := List.head?_eq_some_iff.mp hpoint
    obtain ⟨htext, hplace⟩ := split_cons (c := '.') (by decide) front rest
    rw [htext, hplace, skipDigits_bytes, fractionLength, Nat.add_comm, List.take_succ_cons,
      take_takeWhile, List.append_assoc, List.singleton_append]
  · rename_i hpoint
    rw [byte_eq_iff (by decide)] at hpoint
    have hnone : fractionLength back = 0 := by
      unfold fractionLength
      split
      · exact absurd rfl hpoint
      · rfl
    rw [hnone, List.take_zero, List.append_nil]

/-- The place of the digits of an exponent is behind its sign. -/
theorem exponentSign_bytes (front rest : List Char) :
    (if (bytes (front ++ rest))[byteLength front]? = some '+'.toUInt8 ∨
        (bytes (front ++ rest))[byteLength front]? = some '-'.toUInt8 then byteLength front + 1
      else byteLength front) = byteLength (front ++ rest.take (exponentSign rest)) := by
  simp (disch := decide) only [byte_eq_iff]
  cases rest with
  | nil => simp [exponentSign]
  | cons c rest =>
    simp only [List.head?_cons, Option.some.injEq, exponentSign_cons]
    split
    · rename_i hsign
      rw [List.take_succ_cons, List.take_zero, byteLength_concat_ascii (by rcases hsign with rfl | rfl <;> decide)]
    · rw [List.take_zero, List.append_nil]

theorem startsWithDigit_iff {text : List Char} :
    startsWithDigit text = true ↔ (text.takeWhile isAsciiDigit).length ≠ 0 := by
  cases text with
  | nil => simp [startsWithDigit]
  | cons c rest =>
    change isAsciiDigit c = true ↔ _
    by_cases hc : isAsciiDigit c = true
    · simp [hc]
    · simp [hc]

theorem exponentEnd_bytes (front back : List Char) :
    exponentEnd (bytes (front ++ back)) (byteLength front) =
      byteLength (front ++ back.take (exponentLength back)) := by
  unfold exponentEnd
  simp (disch := decide) only [byte_eq_iff]
  cases back with
  | nil => simp [exponentLength]
  | cons c rest =>
    simp only [List.head?_cons, Option.some.injEq, exponentLength_cons]
    split
    · rename_i hletter
      obtain ⟨htext, hplace⟩ := split_cons (c := c) (by rcases hletter with rfl | rfl <;> decide) front rest
      have hsplit : front ++ [c] ++ rest = (front ++ [c] ++ rest.take (exponentSign rest)) ++
          rest.drop (exponentSign rest) := by
        rw [List.append_assoc _ _ (List.drop ..), List.take_append_drop]
      rw [htext, hplace, show byteLength front + 2 = byteLength (front ++ [c]) + 1 by omega,
        exponentSign_bytes (front ++ [c]) rest, hsplit, isDigitAt_bytes, skipDigits_bytes]
      simp only [startsWithDigit_iff, ite_not]
      split
      · rw [List.take_zero, List.append_nil]
      · rw [Nat.add_assoc, Nat.add_comm, List.take_succ_cons, List.take_add, take_takeWhile]
        simp only [List.append_assoc, List.cons_append, List.nil_append]
    · rw [List.take_zero, List.append_nil]

/-- A number ends behind as many characters as are read. -/
theorem numberEnd_bytes (front back : List Char) :
    numberEnd (bytes (front ++ back)) (byteLength front) = byteLength (front ++ back.take (numberLength back)) := by
  unfold numberEnd numberLength
  dsimp only
  generalize hdigits : (back.takeWhile isAsciiDigit).length = whole
  have htake : back.takeWhile isAsciiDigit = back.take whole :=
    hdigits ▸ (take_takeWhile ..).symm
  have hsplit (n : Nat) : front ++ back = front ++ back.take n ++ back.drop n := by
    rw [List.append_assoc, List.take_append_drop]
  rw [skipDigits_bytes, htake]
  generalize hfraction : fractionLength (back.drop whole) = fraction
  have hwhole : fractionEnd (bytes (front ++ back)) (byteLength (front ++ back.take whole)) =
      byteLength (front ++ back.take (whole + fraction)) := by
    rw [hsplit whole, fractionEnd_bytes, hfraction, List.append_assoc, ← List.take_add]
  rw [hwhole, hsplit (whole + fraction), exponentEnd_bytes, List.append_assoc, ← List.take_add]

/-! ### Tokens -/

theorem passWhile_places (p : Char → Bool) (front text : List Char) :
    passWhile p (byteLength front) (places (byteLength front) text) =
      (byteLength (front ++ text.takeWhile p), places (byteLength (front ++ text.takeWhile p)) (text.dropWhile p)) := by
  induction text generalizing front with
  | nil => simp [places, passWhile]
  | cons c rest ih =>
    rw [places, passWhile]
    by_cases hc : p c = true
    · rw [if_pos hc, ← byteLength_concat, ih, List.takeWhile_cons_of_pos hc, List.dropWhile_cons_of_pos hc,
        List.append_assoc, List.singleton_append]
    · rw [if_neg hc, List.takeWhile_cons_of_neg hc, List.dropWhile_cons_of_neg hc, List.append_nil, places]

/-- The characters before a place are those of what stands before it. -/
theorem dropWhile_places (front part back : List Char) :
    (places (byteLength front) (part ++ back)).dropWhile (·.1 < byteLength (front ++ part)) =
      places (byteLength (front ++ part)) back := by
  induction part generalizing front with
  | nil =>
    rw [List.append_nil, List.nil_append]
    cases back with
    | nil => rfl
    | cons c rest => rw [places, List.dropWhile_cons_of_neg (by simp)]
  | cons c part ih =>
    have hlt : byteLength front < byteLength (front ++ c :: part) := by
      have := c.utf8Size_pos
      rw [byteLength_append, byteLength_cons]
      omega
    have hrest := ih (front ++ [c])
    rw [List.append_assoc, List.singleton_append] at hrest
    rw [List.cons_append, places, List.dropWhile_cons_of_pos (by simpa using hlt), ← byteLength_concat, hrest]

theorem length_places (start : Nat) (text : List Char) : (places start text).length = text.length := by
  induction text generalizing start with
  | nil => rfl
  | cons c rest ih => rw [places, List.length_cons, List.length_cons, ih]

section
variable (front : List Char) (c : Char) (rest : List Char)

/-- A part of what is left of a text is cut out of the text. -/
theorem slice_left {left part behind : List Char} (h : left = part ++ behind) :
    slice (byteLength front) (byteLength (front ++ part)) (front ++ left) = pure part := by
  rw [h, ← List.append_assoc, slice_append]

theorem cons_takeWhile_append (p : Char → Bool) : c :: rest = (c :: rest.takeWhile p) ++ rest.dropWhile p := by
  rw [List.cons_append, List.takeWhile_append_dropWhile]

/-- Where blanks or a name begin, all that belong to them are cut out. -/
theorem cut_run {p : Char → Bool} (hp : p c = true) (make : List Char → Token) :
    (do
      let (stop, behind) := passWhile p (byteLength front)
        ((byteLength front, c) :: places (byteLength front + c.utf8Size) rest)
      return (make (← slice (byteLength front) stop (front ++ c :: rest)), behind) : Checked _) =
      pure (make (c :: rest.takeWhile p), places (byteLength (front ++ c :: rest.takeWhile p)) (rest.dropWhile p)) := by
  have hpass := passWhile_places p front (c :: rest)
  rw [List.takeWhile_cons_of_pos hp, List.dropWhile_cons_of_pos hp, places] at hpass
  rw [hpass]
  dsimp only
  rw [slice_left front (cons_takeWhile_append c rest p)]
  rfl

/-- Where a number begins, the characters before its end are cut out. -/
theorem cut_number :
    (do
      let stop := numberEnd (bytes (front ++ c :: rest)) (byteLength front)
      return (Token.number (← slice (byteLength front) stop (front ++ c :: rest)),
        ((byteLength front, c) :: places (byteLength front + c.utf8Size) rest).dropWhile (·.1 < stop)) : Checked _) =
      pure (Token.number ((c :: rest).take (numberLength (c :: rest))),
        places (byteLength (front ++ (c :: rest).take (numberLength (c :: rest))))
          ((c :: rest).drop (numberLength (c :: rest)))) := by
  have hsplit : c :: rest = (c :: rest).take (numberLength (c :: rest)) ++ (c :: rest).drop (numberLength (c :: rest)) :=
    (List.take_append_drop ..).symm
  have hbehind := dropWhile_places front ((c :: rest).take (numberLength (c :: rest)))
    ((c :: rest).drop (numberLength (c :: rest)))
  rw [← hsplit, places] at hbehind
  dsimp only
  rw [numberEnd_bytes, hbehind, slice_left front hsplit]
  rfl

/-- A number begins with a digit or with a point that one follows, in the bytes as in the characters. -/
theorem beginsNumber_bytes :
    (isAsciiDigit c || (c == '.' && isDigitAt (bytes (front ++ c :: rest)) (byteLength front + 1))) =
      (isAsciiDigit c || (c == '.' && startsWithDigit rest)) := by
  by_cases hpoint : c = '.'
  · obtain ⟨htext, hplace⟩ := split_cons (c := c) (by rw [hpoint]; decide) front rest
    rw [htext, hplace, isDigitAt_bytes]
  · rw [beq_eq_false_iff_ne.mpr hpoint, Bool.false_and, Bool.false_and]

/-- Whatever its kind, the first token of what is left of a text is cut out, and the characters behind it remain. -/
theorem tokenAt_places :
    ∃ behind, c :: rest = (firstToken c rest).text ++ behind ∧
      tokenAt (front ++ c :: rest) (byteLength front) c (places (byteLength front + c.utf8Size) rest) =
        pure (firstToken c rest, places (byteLength (front ++ (firstToken c rest).text)) behind) := by
  unfold tokenAt firstToken
  dsimp only
  rw [beginsNumber_bytes]
  split
  · rename_i hblank
    exact ⟨_, cons_takeWhile_append c rest isBlank, cut_run front c rest hblank .space⟩
  split
  · rename_i hname
    have hinner : isNameChar c = true := by
      by_contra h
      rw [beginsNoName (Bool.eq_false_iff.mpr h)] at hname
      cases hname
    exact ⟨_, cons_takeWhile_append c rest isNameChar, cut_run front c rest hinner .name⟩
  split
  · exact ⟨_, (List.take_append_drop ..).symm, cut_number front c rest⟩
  · exact ⟨rest, rfl, by rw [Token.text, byteLength_concat]⟩

end

/-- The tokens of what is left of a text are cut out of the text one by one. -/
theorem tokensFrom_places (front text : List Char) :
    tokensFrom (front ++ text) (places (byteLength front) text) = pure (Notation.tokens text) := by
  induction text using tokens_induction generalizing front with
  | nil =>
    rw [places, tokensFrom]
    rfl
  | cons c rest ih =>
    obtain ⟨behind, hsplit, hread⟩ := tokenAt_places front c rest
    obtain ⟨inner, htext, -⟩ := firstToken_prefix c rest
    rw [htext] at hsplit hread
    obtain rfl : rest = inner ++ behind := (List.cons.inj hsplit).2
    have hbehind := ih (front ++ c :: inner)
    rw [htext, List.length_cons, Nat.add_sub_cancel, List.drop_left, List.append_assoc] at hbehind
    have hless : (places (byteLength (front ++ c :: inner)) behind).length ≤
        (places (byteLength front + c.utf8Size) (inner ++ behind)).length := by
      rw [length_places, length_places, List.length_append]
      exact Nat.le_add_left ..
    rw [places, tokensFrom, hread, pure_bind]
    dsimp only
    rw [dif_pos hless, tokens_cons, htext, List.length_cons, Nat.add_sub_cancel, List.drop_left]
    exact congrArg (· >>= _) hbehind

theorem tokens_eq (text : List Char) : tokens text = pure (Notation.tokens text) := tokensFrom_places [] text

end OdeSystem.Scan
