import OdeSystem.Proofs.Notation.Search

/-!
The search for subscripted logarithms as a rewriting. It keeps the arguments in parentheses and writes the base behind
them, so its patches are the beginning of a logarithm and the parenthesis that closes its argument; an argument without
parentheses is written anew. Provided that no other base stands in an argument, the search leaves nothing for a second
one to find, and it brings about no spelling of a derivative.
-/

namespace OdeSystem.Notation

open Text

/-! ### What stands before a sign -/

section
variable {front back part more text : List Char} {sign : Char}

theorem front_of_sign (h : front ++ back = part ++ sign :: more) (hsign : sign ∉ front) :
    ∃ between, part = front ++ between ∧ back = between ++ sign :: more := by
  rcases List.append_eq_append_iff.mp h with ⟨between, rfl, rfl⟩ | ⟨between, rfl, htail⟩
  · exact ⟨between, rfl, rfl⟩
  · cases between with
    | nil => exact ⟨[], by simp, by simpa using htail.symm⟩
    | cons c between =>
      rw [List.cons_append] at htail
      exact absurd (by simp [(List.cons.inj htail).1]) hsign

/-- A text has one first sign only. -/
theorem not_first_sign {sign' : Char} (h : front ++ sign' :: back = part ++ sign :: more) (hsign : sign ∉ front)
    (hpart : sign' ∉ part) (hne : sign' ≠ sign) : False := by
  obtain ⟨between, rfl, hback⟩ := front_of_sign h hsign
  cases between with
  | nil => exact hne (List.cons.inj hback).1
  | cons c between =>
    rw [List.cons_append] at hback
    exact hpart (by simp [(List.cons.inj hback).1])

theorem front_of_takeNameSpaced {name rest : List Char} (h : takeNameSpaced text = some (name, rest)) :
    ∃ front, text = front ++ rest ∧ ∀ c ∈ front, isBlank c = true ∨ isWord c = true := by
  obtain ⟨b, hb, htext⟩ := exists_blanks_append_trimLeft text
  refine ⟨b ++ name, ?_, fun c hc => ?_⟩
  · rw [htext, eq_append_of_takeName h, List.append_assoc]
  · rcases List.mem_append.mp hc with hc | hc
    · exact .inl (List.all_eq_true.mp hb c hc)
    · exact .inr (isWord_of_isName (isName_of_takeName h) c hc)

theorem line_of_takePlain {found : List Char × List Char} (h : takePlain text = some found) :
    ∃ front back, text = front ++ '/' :: back ∧ ∀ c ∈ front, isBlank c = true ∨ isWord c = true := by
  simp only [takePlain, takeOverTime, Option.bind_eq_bind, Option.bind_eq_some_iff] at h
  obtain ⟨r₁, h₁, ⟨name, r₂⟩, h₂, r₃, ⟨r₄, h₄, -⟩, -⟩ := h
  obtain ⟨front, rfl, hfront⟩ := front_of_takeNameSpaced h₂
  obtain ⟨b, hb, rfl⟩ := eq_append_of_expectSpaced h₄
  refine ⟨'d' :: (front ++ b), r₄, by rw [eq_cons_of_expect h₁]; simp, fun c hc => ?_⟩
  rcases List.mem_cons.mp hc with rfl | hc
  · exact .inr (isWord_of_isIdentifierChar (by decide))
  · rcases List.mem_append.mp hc with hc | hc
    · exact hfront c hc
    · exact .inl (List.all_eq_true.mp hb c hc)

theorem opening_of_takeApplied {found : List Char × List Char} (h : takeApplied text = some found) :
    ∃ front back, text = front ++ '(' :: back ∧ ∀ c ∈ front, isBlank c = true ∨ isWord c = true := by
  simp only [takeApplied, Option.bind_eq_bind, Option.bind_eq_some_iff] at h
  obtain ⟨r₁, h₁, r₂, h₂, -⟩ := h
  obtain ⟨b, hb, rfl⟩ := eq_append_of_expectSpaced h₂
  refine ⟨'d' :: b, r₂, eq_cons_of_expect h₁, fun c hc => ?_⟩
  rcases List.mem_cons.mp hc with rfl | hc
  · exact .inr (isWord_of_isIdentifierChar (by decide))
  · exact .inl (List.all_eq_true.mp hb c hc)

theorem front_of_acceptSpaced (c : Char) (text : List Char) :
    ∃ front, text = front ++ acceptSpaced c text ∧ ∀ d ∈ front, isBlank d = true ∨ d = c := by
  obtain ⟨b, hb, htext⟩ := exists_blanks_append_trimLeft text
  have hblank : ∀ d ∈ b, isBlank d = true ∨ d = c := fun d hd => .inl (List.all_eq_true.mp hb d hd)
  cases hread : expect c (trimLeft text) with
  | none =>
    refine ⟨b, ?_, hblank⟩
    rw [acceptSpaced, accept, hread]
    exact htext
  | some rest =>
    refine ⟨b ++ [c], ?_, fun d hd => ?_⟩
    · rw [acceptSpaced, accept, hread, Option.getD_some, List.append_assoc, List.singleton_append,
        ← eq_cons_of_expect hread]
      exact htext
    · rcases List.mem_append.mp hd with hd | hd
      · exact hblank d hd
      · exact .inr (List.mem_singleton.mp hd)

theorem closing_of_takeWrapped {found : List Char × List Char} (h : takeWrapped text = some found) :
    ∃ front back, text = '(' :: (front ++ ')' :: back) ∧ ∀ c ∈ front, isBlank c = true ∨ isWord c = true ∨ c = '(' := by
  simp only [takeWrapped, Option.bind_eq_bind, Option.bind_eq_some_iff] at h
  obtain ⟨r₁, h₁, r₂, h₂, ⟨name, r₃⟩, h₃, r₄, h₄, -⟩ := h
  obtain ⟨b, hb, rfl⟩ := eq_append_of_expectSpaced h₂
  obtain ⟨inner, hinner, hinners⟩ := front_of_acceptSpaced '(' r₂
  obtain ⟨front, hfront, hfronts⟩ := front_of_takeNameSpaced h₃
  obtain ⟨b', hb', rfl⟩ := eq_append_of_expectSpaced h₄
  refine ⟨b ++ 'd' :: (inner ++ (front ++ b')), r₄, ?_, fun c hc => ?_⟩
  · rw [eq_cons_of_expect h₁, hinner, hfront]
    simp
  · simp only [List.mem_append, List.mem_cons] at hc
    rcases hc with hc | rfl | hc | hc | hc
    · exact .inl (List.all_eq_true.mp hb c hc)
    · exact .inr (.inl (isWord_of_isIdentifierChar (by decide)))
    · exact (hinners c hc).imp_right .inr
    · exact (hfronts c hc).imp_right .inl
    · exact .inl (List.all_eq_true.mp hb' c hc)

/-- A sign that ends a base or an argument: no blank, no word character, and no parenthesis that opens. -/
theorem not_mem_of_blanks_and_words (hfront : ∀ c ∈ front, isBlank c = true ∨ isWord c = true)
    (hblank : isBlank sign = false) (hword : isWord sign = false) : sign ∉ front := fun hmem => by
  rcases hfront sign hmem with h | h
  · rw [hblank] at h
    cases h
  · rw [hword] at h
    cases h

end

/-! ### Reading a logarithm -/

section
variable {text base argument behind part more : List Char} {sign : Char}

theorem isBaseChar_of_mem_log : ∀ c ∈ ['l', 'o', 'g'], isBaseChar c = true := List.all_eq_true.mp (by decide)

theorem isBaseChar_of_isBlank {c : Char} (h : isBlank c = true) : isBaseChar c = false :=
  isBaseChar_of_isSeparator (isSeparator_of_isBlank h)

theorem isBlank_of_isBaseChar {c : Char} (h : isBaseChar c = true) : isBlank c = false := by
  cases hc : isBlank c with
  | false => rfl
  | true =>
    rw [isBaseChar_of_isBlank hc] at h
    cases h

theorem isArgumentChar_of_isBaseChar {c : Char} (h : isBaseChar c = true) : isArgumentChar c = true := by
  simp only [isBaseChar, Bool.or_eq_true] at h
  rcases h with (h | h) | h
  · have hid : isIdentifierChar c = true := by simp [isIdentifierChar, isNameStart, h]
    simp [isArgumentChar, isNameChar, isAlphanumeric_of_isIdentifierChar hid]
  · have hid : isIdentifierChar c = true := by simp [isIdentifierChar, h]
    simp [isArgumentChar, isNameChar, isAlphanumeric_of_isIdentifierChar hid]
  · simp [isArgumentChar, h]

/-- Reads `log_b`: the base is not empty, and it ends where no character of a base follows. -/
theorem takeBase_eq_some_iff :
    takeBase text = some (base, behind) ↔ ∃ b₁ b₂, allBlank b₁ = true ∧ allBlank b₂ = true ∧
      text = 'l' :: 'o' :: 'g' :: (b₁ ++ '_' :: (b₂ ++ (base ++ behind))) ∧ base ≠ [] ∧
      (∀ c ∈ base, isBaseChar c = true) ∧ behind.head?.any isBaseChar = false := by
  constructor
  · intro h
    simp only [takeBase, Option.bind_eq_some_iff] at h
    obtain ⟨r₁, h₁, r₂, h₂, r₃, h₃, r₄, h₄, hlast⟩ := h
    obtain ⟨b₁, hb₁, rfl⟩ := eq_append_of_expectSpaced h₄
    obtain ⟨b₂, hb₂, htext⟩ := exists_blanks_append_trimLeft r₄
    split at hlast
    · cases hlast
    · rename_i hbase
      cases hlast
      refine ⟨b₁, b₂, hb₁, hb₂, ?_, by simpa using hbase, fun c hc => List.mem_takeWhile_imp hc, ?_⟩
      · rw [List.takeWhile_append_dropWhile, ← htext, eq_cons_of_expect h₁, eq_cons_of_expect h₂, eq_cons_of_expect h₃]
      · exact head_dropWhile isBaseChar (trimLeft r₄)
  · rintro ⟨b₁, b₂, hb₁, hb₂, rfl, hbase, hbases, hbehind⟩
    obtain ⟨c, base, rfl⟩ := List.exists_cons_of_ne_nil hbase
    have hc : isBlank c = false := isBlank_of_isBaseChar (hbases c (List.mem_cons_self ..))
    have htake := takeWhile_ended hbases hbehind
    have htrim : trimLeft (b₂ ++ (c :: base ++ behind)) = c :: base ++ behind := by
      rw [List.cons_append, trimLeft_blanks hb₂ hc]
    simp only [takeBase, expect, if_true, Option.bind_some, expectSpaced_blanks hb₁ (show isBlank '_' = false by decide),
      htrim, htake.1, htake.2]
    rfl

/-- What is read as a base before a sign is read so without what follows the sign. -/
theorem takeBase_before_sign (hblank : isBlank sign = false) (hbase : isBaseChar sign = false) (hline : sign ≠ '_')
    (h : takeBase (part ++ sign :: more) = some (base, behind)) :
    ∃ between, takeBase part = some (base, between) ∧ behind = between ++ sign :: more := by
  obtain ⟨b₁, b₂, hb₁, hb₂, htext, hne, hbases, hbehind⟩ := takeBase_eq_some_iff.mp h
  have hfront : sign ∉ 'l' :: 'o' :: 'g' :: (b₁ ++ '_' :: (b₂ ++ base)) := by
    have not_blank {b : List Char} (hb : allBlank b = true) : sign ∉ b := fun hmem => by
      have := List.all_eq_true.mp hb sign hmem
      rw [hblank] at this
      cases this
    have not_base {c : Char} (hc : isBaseChar c = true) : sign ≠ c := by
      rintro rfl
      rw [hbase] at hc
      cases hc
    simp only [List.mem_cons, List.mem_append, not_or]
    exact ⟨not_base (by decide), not_base (by decide), not_base (by decide), not_blank hb₁, hline, not_blank hb₂,
      fun hmem => not_base (hbases sign hmem) rfl⟩
  have hparts : ('l' :: 'o' :: 'g' :: (b₁ ++ '_' :: (b₂ ++ base))) ++ behind = part ++ sign :: more := by
    simpa using htext.symm
  obtain ⟨between, rfl, rfl⟩ := front_of_sign hparts hfront
  refine ⟨between, takeBase_eq_some_iff.mpr ⟨b₁, b₂, hb₁, hb₂, by simp, hne, hbases, ?_⟩, rfl⟩
  cases between with
  | nil => rfl
  | cons c between => exact hbehind

/-- Within a base no other one begins, unless a line follows it. -/
theorem takeBase_within_base {c : Char} (hpart : ∀ d ∈ c :: part, isBaseChar d = true)
    (hmore : more.head?.any isBaseChar = false) (hline : (trimLeft more).head? ≠ some '_') :
    takeBase (c :: (part ++ more)) = none := by
  cases h : takeBase (c :: (part ++ more)) with
  | none => rfl
  | some found =>
    obtain ⟨base, behind⟩ := found
    obtain ⟨b₁, b₂, hb₁, hb₂, htext, -, -, -⟩ := takeBase_eq_some_iff.mp h
    -- The word before the line is all of the part.
    have hend : (b₁ ++ '_' :: (b₂ ++ (base ++ behind))).head?.any isBaseChar = false :=
      head_behind_blanks isBaseChar_of_isBlank hb₁ fun _ => rfl
    have hspan := (takeWhile_ended isBaseChar_of_mem_log hend).2
    rw [show ['l', 'o', 'g'] ++ (b₁ ++ '_' :: (b₂ ++ (base ++ behind))) = c :: part ++ more from htext.symm,
      (takeWhile_ended hpart hmore).2] at hspan
    rw [hspan, trimLeft_blanks hb₁ (by decide)] at hline
    exact absurd rfl hline

theorem eq_append_of_takeGroup {depth : Nat} {inside : List Char} (h : takeGroup depth text = some (inside, behind)) :
    text = inside ++ ')' :: behind := by
  induction text generalizing depth inside with
  | nil => cases depth <;> cases h
  | cons c rest ih =>
    have step {depth : Nat} (h : (takeGroup depth rest).map (fun found => (c :: found.1, found.2)) =
        some (inside, behind)) : c :: rest = inside ++ ')' :: behind := by
      obtain ⟨found, hfound, heq⟩ := Option.map_eq_some_iff.mp h
      cases heq
      exact congrArg (c :: ·) (ih hfound)
    rw [takeGroup_cons] at h
    split at h
    · exact step h
    · split at h
      · rename_i hclose
        cases depth with
        | zero =>
          cases h
          rw [hclose]
          rfl
        | succ depth => exact step h
      · exact step h

/-- An argument is the inside of a group, or a word. -/
theorem takeArgument_cases (h : takeArgument text = some (argument, behind)) :
    text = '(' :: (argument ++ ')' :: behind) ∨
      (text = argument ++ behind ∧ argument ≠ [] ∧ (∀ c ∈ argument, isArgumentChar c = true) ∧
        behind.head?.any isArgumentChar = false) := by
  cases text with
  | nil => cases h
  | cons c rest =>
    by_cases hopen : c = '('
    · subst hopen
      exact .inl (congrArg ('(' :: ·) (eq_append_of_takeGroup h))
    · rw [takeArgument_cons_of_ne hopen] at h
      split at h
      · cases h
      · rename_i hword
        cases h
        refine .inr ⟨(List.takeWhile_append_dropWhile ..).symm, by simpa using hword,
          fun d hd => List.mem_takeWhile_imp hd, head_dropWhile isArgumentChar (c :: rest)⟩

theorem takeArgument_of_isArgumentChar {c : Char} (hc : isArgumentChar c = true) (rest : List Char) :
    (takeArgument (c :: rest)).isSome = true := by
  have hopen : c ≠ '(' := by
    rintro rfl
    simp [isArgumentChar, isNameChar, isAlphanumeric_of_isPunctuation (show isPunctuation '(' = true by decide)] at hc
  rw [takeArgument_cons_of_ne hopen, List.takeWhile_cons_of_pos hc]
  rfl

/-- Reads a logarithm with a subscripted base: the base and the argument. -/
def takeLogarithm (text : List Char) : Option ((List Char × List Char) × List Char) :=
  (takeBase text).bind fun found => (takeArgument (trimLeft found.2)).map fun found' => ((found.1, found'.1), found'.2)

theorem takeBase_of_ne {c : Char} (hc : c ≠ 'l') : takeBase (c :: text) = none := by simp [takeBase, expect, hc]

theorem takeLogarithm_of_ne {c : Char} (hc : c ≠ 'l') : takeLogarithm (c :: text) = none := by
  simp [takeLogarithm, takeBase_of_ne hc]

end

/-! ### The search, from one find to the next -/

/-- The beginning of a logarithm with a base, up to its argument. -/
def IsOpening (base front : List Char) : Prop :=
  ∃ b₁ b₂ b₃, allBlank b₁ = true ∧ allBlank b₂ = true ∧ allBlank b₃ = true ∧
    front = 'l' :: 'o' :: 'g' :: (b₁ ++ '_' :: (b₂ ++ (base ++ b₃))) ∧ base ≠ [] ∧ ∀ c ∈ base, isBaseChar c = true

section
variable {memory before : Option Char} {c : Char} {text rest base argument front behind : List Char}

theorem opening_of_takeBase (h : takeBase text = some (base, behind)) :
    ∃ front, IsOpening base front ∧ text = front ++ trimLeft behind := by
  obtain ⟨b₁, b₂, hb₁, hb₂, rfl, hne, hbases, -⟩ := takeBase_eq_some_iff.mp h
  obtain ⟨b₃, hb₃, htext⟩ := exists_blanks_append_trimLeft behind
  refine ⟨_, ⟨b₁, b₂, b₃, hb₁, hb₂, hb₃, rfl, hne, hbases⟩, ?_⟩
  simp only [List.cons_append, List.append_assoc]
  rw [← htext]

theorem takeLogarithm_eq_some_iff {found : (List Char × List Char) × List Char} :
    takeLogarithm text = some found ↔ ∃ behind, takeBase text = some (found.1.1, behind) ∧
      takeArgument (trimLeft behind) = some (found.1.2, found.2) := by
  obtain ⟨⟨base, argument⟩, rest⟩ := found
  simp [takeLogarithm, Option.bind_eq_some_iff]

theorem IsOpening.ne_nil (h : IsOpening base front) : front ≠ [] := by
  obtain ⟨b₁, b₂, b₃, -, -, -, rfl, -⟩ := h
  simp

theorem plainLogarithmsFrom_kept (hnone : (if atBoundary memory (c :: rest) then takeBase (c :: rest) else none) = none) :
    plainLogarithmsFrom memory (c :: rest) = c :: plainLogarithmsFrom (some c) rest := by
  rw [plainLogarithmsFrom, pieces_cons, logarithmPiece_eq, hnone]
  rfl

theorem plainLogarithmsFrom_found (htext : text = front ++ behind) (hne : front ≠ [])
    (hboundary : atBoundary memory text = true) (h : takeLogarithm text = some ((base, argument), behind)) :
    plainLogarithmsFrom memory text = logarithm argument base ++ plainLogarithmsFrom none behind := by
  obtain ⟨after, hbase, hargument⟩ := takeLogarithm_eq_some_iff.mp h
  obtain ⟨d, inner, rfl⟩ := List.exists_cons_of_ne_nil hne
  have hdrop := (cut_append hne (show d :: (inner ++ behind) = d :: inner ++ behind from rfl)).1
  subst htext
  rw [List.cons_append] at hboundary hbase ⊢
  rw [plainLogarithmsFrom, pieces_cons, logarithmPiece_eq, if_pos hboundary, hbase]
  simp only [hargument, hdrop, List.flatten_cons, plainLogarithmsFrom]

theorem plainLogarithmsFrom_opening (hfront : IsOpening base front) (htext : text = front ++ trimLeft behind)
    (hboundary : atBoundary memory text = true) (hbase : takeBase text = some (base, behind))
    (hargument : takeArgument (trimLeft behind) = none) :
    plainLogarithmsFrom memory text = front ++ plainLogarithmsFrom none (trimLeft behind) := by
  obtain ⟨d, inner, rfl⟩ := List.exists_cons_of_ne_nil hfront.ne_nil
  subst htext
  exact plainLogarithmsFrom_lost memory d inner (trimLeft behind) hboundary hbase rfl hargument

/-- Where the search has nothing to remember, for no logarithm begins, it does not matter what it remembers. -/
theorem readAt_memory (hmemory : text.head? = some 'l' → memory.any isWord = before.any isWord) :
    readAt true takeLogarithm before text = if atBoundary memory text then takeLogarithm text else none := by
  cases hread : takeLogarithm text with
  | none => rw [readAt_eq_none hread, ite_self]
  | some found =>
    obtain ⟨behind, hbase, -⟩ := takeLogarithm_eq_some_iff.mp hread
    have hhead : text.head? = some 'l' := by
      obtain ⟨b₁, b₂, -, -, rfl, -⟩ := takeBase_eq_some_iff.mp hbase
      rfl
    have hboundary : atBoundary before text = atBoundary memory text := by
      rw [atBoundary, atBoundary, hmemory hhead]
    cases hword : atBoundary memory text <;> simp [readAt, hboundary, hword, hread]

theorem head_of_takeArgument (h : takeArgument text = none) : text.head?.any isArgumentChar = false := by
  cases text with
  | nil => rfl
  | cons c rest =>
    refine Bool.eq_false_iff.mpr fun hc => ?_
    have := takeArgument_of_isArgumentChar hc rest
    rw [h] at this
    cases this

theorem head_ne_of_any {p : Char → Bool} (h : text.head?.any p = false) (hc : p c = true) : text.head? ≠ some c := by
  intro hhead
  rw [hhead, Option.any_some, hc] at h
  cases h

/-- No base begins in characters none of which is the first one of a logarithm. -/
theorem takeBase_of_notMem {run : List Char} (hl : 'l' ∉ run) (after : List Char) :
    ∀ shorter c longer, run = shorter ++ c :: longer → takeBase (c :: (longer ++ after)) = none := by
  rintro shorter c longer rfl
  have hc : c ≠ 'l' := by
    rintro rfl
    exact hl (by simp)
  exact takeBase_of_ne hc

/-- Characters at which no base is read are kept. -/
theorem kept_run {motive : Option Char → List Char → List Char → Prop}
    (kept : ∀ before c rest rest', readAt true takeLogarithm before (c :: rest) = none → motive (some c) rest rest' →
      motive before (c :: rest) (c :: rest'))
    {run after after' : List Char}
    (hnone : ∀ shorter c longer, run = shorter ++ c :: longer → takeBase (c :: (longer ++ after)) = none)
    (h : motive (lastOf before run) after after') : motive before (run ++ after) (run ++ after') := by
  induction run generalizing before with
  | nil => exact h
  | cons c run ih =>
    have hread : takeLogarithm (c :: (run ++ after)) = none := by
      rw [takeLogarithm, hnone [] c run rfl]
      rfl
    exact kept _ _ _ _ (readAt_eq_none hread) <|
      ih (fun shorter d longer hsplit => hnone (c :: shorter) d longer (congrArg (c :: ·) hsplit)) h

/-- The beginning of a logarithm that has no argument is kept: no other one begins in it, for no line follows. -/
theorem kept_opening {motive : Option Char → List Char → List Char → Prop}
    (kept : ∀ before c rest rest', readAt true takeLogarithm before (c :: rest) = none → motive (some c) rest rest' →
      motive before (c :: rest) (c :: rest'))
    {after after' : List Char} (hfront : IsOpening base front)
    (hread : readAt true takeLogarithm before (front ++ after) = none) (htrim : trimLeft after = after)
    (hafter : takeArgument after = none) (h : ∀ last, motive last after after') :
    motive before (front ++ after) (front ++ after') := by
  obtain ⟨b₁, b₂, b₃, hb₁, hb₂, hb₃, rfl, -, hbases⟩ := hfront
  have hargument := head_of_takeArgument hafter
  have hends : (b₃ ++ after).head?.any isBaseChar = false := by
    refine head_behind_blanks isBaseChar_of_isBlank hb₃ fun _ => ?_
    cases after with
    | nil => rfl
    | cons c after =>
      cases hc : isBaseChar c with
      | false => exact hc
      | true => exact hc.trans ((isArgumentChar_of_isBaseChar hc).symm.trans hargument)
  have hline : (trimLeft (b₃ ++ after)).head? ≠ some '_' := by
    rw [trimLeft_append_of_eq_nil (trimLeft_eq_nil_iff.mpr hb₃), htrim]
    exact head_ne_of_any hargument (by decide)
  have not_blank {b : List Char} (hb : allBlank b = true) : 'l' ∉ b := fun hmem => by
    have := List.all_eq_true.mp hb 'l' hmem
    revert this
    decide
  have hbefore : 'l' ∉ 'o' :: 'g' :: (b₁ ++ '_' :: b₂) := by simp [not_blank hb₁, not_blank hb₂]
  have htext (rest : List Char) : 'l' :: 'o' :: 'g' :: (b₁ ++ '_' :: (b₂ ++ (base ++ b₃))) ++ rest =
      'l' :: (('o' :: 'g' :: (b₁ ++ '_' :: b₂)) ++ (base ++ (b₃ ++ rest))) := by simp
  rw [htext] at hread
  rw [htext, htext]
  refine kept _ _ _ _ hread <| kept_run kept (takeBase_of_notMem hbefore _) <| kept_run kept ?_ <|
    kept_run kept (takeBase_of_notMem (not_blank hb₃) _) (h _)
  rintro shorter c longer rfl
  exact takeBase_within_base (fun d hd => hbases d (List.mem_append_right _ hd)) hends hline

/-- The search follows a text from one find to the next. What is remembered of the text before matters only where a
logarithm can begin. -/
theorem logarithm_induction {motive : Option Char → List Char → List Char → Prop}
    (nil : ∀ before, motive before [] [])
    (kept : ∀ before c rest rest', readAt true takeLogarithm before (c :: rest) = none → motive (some c) rest rest' →
      motive before (c :: rest) (c :: rest'))
    (group : ∀ before front base argument behind behind', IsOpening base front →
      readAt true takeLogarithm before (front ++ '(' :: (argument ++ ')' :: behind)) = some ((base, argument), behind) →
      motive (some ')') behind behind' →
      motive before (front ++ '(' :: (argument ++ ')' :: behind)) (logarithm argument base ++ behind'))
    (word : ∀ before front base argument behind behind', IsOpening base front → argument ≠ [] →
      (∀ c ∈ argument, isArgumentChar c = true) → behind.head?.any isArgumentChar = false →
      readAt true takeLogarithm before (front ++ (argument ++ behind)) = some ((base, argument), behind) →
      motive (lastOf before (front ++ argument)) behind behind' →
      motive before (front ++ (argument ++ behind)) (logarithm argument base ++ behind'))
    (memory before : Option Char) (text : List Char)
    (hmemory : text.head? = some 'l' → memory.any isWord = before.any isWord) :
    motive before text (plainLogarithmsFrom memory text) := by
  induction hn : text.length using Nat.strongRecOn generalizing memory before text with
  | ind n ih =>
    cases text with
    | nil => exact nil before
    | cons c rest =>
      have hread := readAt_memory hmemory
      by_cases hfound : (if atBoundary memory (c :: rest) then takeBase (c :: rest) else none) = none
      · rw [plainLogarithmsFrom_kept hfound]
        refine kept _ _ _ _ (hread.trans ?_) (ih _ (by simp [← hn]) (some c) (some c) rest (fun _ => rfl) rfl)
        split at hfound
        · rw [if_pos ‹_›, takeLogarithm, hfound]
          rfl
        · rw [if_neg ‹_›]
      · -- A base is read: the logarithm is replaced if it has an argument.
        have hboundary : atBoundary memory (c :: rest) = true := by
          by_contra hnot
          exact hfound (if_neg hnot)
        rw [if_pos hboundary] at hfound hread
        obtain ⟨⟨base, after⟩, hbase⟩ := Option.ne_none_iff_exists'.mp hfound
        obtain ⟨front, hfront, htext⟩ := opening_of_takeBase hbase
        have hlength : 0 < front.length := List.length_pos_iff.mpr hfront.ne_nil
        generalize c :: rest = text at htext hread hboundary hbase hn ⊢
        cases hargument : takeArgument (trimLeft after) with
        | none =>
          have hnone : takeLogarithm text = none := by simp [takeLogarithm, hbase, hargument]
          rw [plainLogarithmsFrom_opening hfront htext hboundary hbase hargument, htext]
          refine kept_opening kept hfront (by rw [← htext, hread, hnone]) (trimLeft_trimLeft after) hargument fun last => ?_
          refine ih _ (by rw [← hn, htext, List.length_append]; omega) none last _ (fun hhead => ?_) rfl
          exact absurd hhead (head_ne_of_any (head_of_takeArgument hargument) (isArgumentChar_of_isBaseChar (by decide)))
        | some found =>
          obtain ⟨argument, behind⟩ := found
          have hlogarithm : takeLogarithm text = some ((base, argument), behind) :=
            takeLogarithm_eq_some_iff.mpr ⟨after, hbase, hargument⟩
          rw [hlogarithm] at hread
          rcases takeArgument_cases hargument with hgroup | ⟨hword, hne, hwords, hends⟩
          · have hregion : text = (front ++ '(' :: (argument ++ [')'])) ++ behind := by rw [htext, hgroup]; simp
            have hbehind := ih _ (by rw [← hn, hregion, List.length_append, List.length_append]; omega) none (some ')')
              behind (fun _ => rfl) rfl
            rw [plainLogarithmsFrom_found hregion (by simp) hboundary hlogarithm]
            rw [hgroup] at htext
            rw [htext] at hread ⊢
            exact group _ _ _ _ _ _ hfront hread hbehind
          · have hregion : text = (front ++ argument) ++ behind := by rw [htext, hword, List.append_assoc]
            have hbehind := ih _ (by rw [← hn, hregion, List.length_append, List.length_append]; omega) none
              (lastOf before (front ++ argument)) behind (fun hhead =>
                absurd hhead (head_ne_of_any hends (isArgumentChar_of_isBaseChar (by decide)))) rfl
            rw [plainLogarithmsFrom_found hregion (by simp [hne]) hboundary hlogarithm]
            rw [hword] at htext
            rw [htext] at hread ⊢
            exact word _ _ _ _ _ _ hfront hne hwords hends hread hbehind

end

end OdeSystem.Notation
