import OdeSystem.Proofs.Notation.Subscript

/-!
Canonical notation is canonical: provided that derivatives stand apart from one another, and that no base of a logarithm
stands in the argument of another, bringing a text to canonical notation a second time changes nothing. The search for
logarithms is a rewriting, and at no place of what it writes anything is read.
-/

namespace OdeSystem.Notation

open Text

/-! ### The search for logarithms as a rewriting -/

/-- No base of a logarithm is read in a text. -/
def NoneBase : Option Char → List Char → Prop := Everywhere fun before text => readAt true takeBase before text = none

/-- No logarithm with a subscripted base is read in a text. -/
def NoneLogarithm : Option Char → List Char → Prop :=
  Everywhere fun before text => readAt true takeLogarithm before text = none

/-- Whether no base of a logarithm is read in the argument of another, where it will stand behind a parenthesis. -/
def ArgumentsApart : Option Char → List Char → Prop :=
  Everywhere fun before text => ∀ found ∈ readAt true takeLogarithm before text, NoneBase (some '(') found.1.2

instance (before : Option Char) (text : List Char) : Decidable (NoneBase before text) :=
  inferInstanceAs (Decidable (Everywhere _ before text))

instance (before : Option Char) (text : List Char) : Decidable (NoneLogarithm before text) :=
  inferInstanceAs (Decidable (Everywhere _ before text))

instance (before : Option Char) (text : List Char) : Decidable (ArgumentsApart before text) :=
  inferInstanceAs (Decidable (Everywhere _ before text))

/-- What is written for a region: the name of the logarithm before a group, a logarithm whose argument is a word, or the
base for the parenthesis that closes a group. -/
inductive IsLogarithm : List Char → List Char → List Char → Prop
  | opening {base front more : List Char} (hfront : IsOpening base front) : IsLogarithm front ['l', 'o', 'g'] ('(' :: more)
  | word {base front argument more : List Char} (hfront : IsOpening base front)
      (hargument : ∀ c ∈ argument, isArgumentChar c = true) (hnone : NoneBase (some '(') argument) :
      IsLogarithm (front ++ argument) (logarithm argument base) more
  | closing {base more : List Char} (hbase : ∀ c ∈ base, isBaseChar c = true) :
      IsLogarithm [')'] (", ".toList ++ base ++ ")".toList) more

theorem IsOpening.exists_cons {base front : List Char} (h : IsOpening base front) : ∃ inner, front = 'l' :: inner := by
  obtain ⟨b₁, b₂, b₃, -, -, -, rfl, -⟩ := h
  exact ⟨_, rfl⟩

theorem IsOpening.isBaseChar {base front : List Char} (h : IsOpening base front) : ∀ c ∈ base, isBaseChar c = true := by
  obtain ⟨b₁, b₂, b₃, -, -, -, -, -, hbase⟩ := h
  exact hbase

theorem isArgumentChar_of_isPunctuation {c : Char} (h : isPunctuation c = true) (hdot : c ≠ '.') (hline : c ≠ '_') :
    isArgumentChar c = false := by
  simp [isArgumentChar, isNameChar, isAlphanumeric_of_isPunctuation h, hdot, hline]

/-- The signs that a search for derivatives looks for. -/
theorem isArgumentChar_of_mem {c : Char} (h : c ∈ ['(', ')', '/', ',']) : isArgumentChar c = false := by
  simp only [List.mem_cons, List.not_mem_nil, or_false] at h
  rcases h with rfl | rfl | rfl | rfl <;> exact isArgumentChar_of_isPunctuation (by decide) (by decide) (by decide)

theorem IsOpening.not_mem {base front : List Char} (h : IsOpening base front) {c : Char} (hblank : isBlank c = false)
    (hc : isArgumentChar c = false) : c ∉ front := by
  obtain ⟨b₁, b₂, b₃, hb₁, hb₂, hb₃, rfl, -, hbase⟩ := h
  have not_blank {b : List Char} (hb : allBlank b = true) : c ∉ b := fun hmem => by
    have := List.all_eq_true.mp hb c hmem
    rw [hblank] at this
    cases this
  have not_letter {d : Char} (hd : isArgumentChar d = true) : c ≠ d := by
    rintro rfl
    rw [hc] at hd
    cases hd
  simp only [List.mem_cons, List.mem_append, not_or]
  exact ⟨not_letter (isArgumentChar_of_isBaseChar (by decide)), not_letter (isArgumentChar_of_isBaseChar (by decide)),
    not_letter (isArgumentChar_of_isBaseChar (by decide)), not_blank hb₁, not_letter (by decide), not_blank hb₂,
    fun hmem => not_letter (isArgumentChar_of_isBaseChar (hbase c hmem)) rfl, not_blank hb₃⟩

theorem logarithm_eq (argument base : List Char) :
    logarithm argument base = 'l' :: 'o' :: 'g' :: '(' :: (argument ++ [',', ' '] ++ base ++ [')']) := rfl

theorem logarithm_append (argument base more : List Char) :
    logarithm argument base ++ more =
      'l' :: 'o' :: 'g' :: '(' :: (argument ++ ',' :: ' ' :: (base ++ ')' :: more)) := by
  simp [logarithm_eq]

/-- The search for logarithms keeps a character where none is read. -/
def Rewriting.logarithms : Rewriting where
  kept before text := readAt true takeLogarithm before text = none
  patch _ region written _ behind' := IsLogarithm region written behind'
  isPatch := by
    rintro before region written behind behind' (⟨hfront⟩ | ⟨hfront, hargument, hnone⟩ | hbase)
    · obtain ⟨inner, rfl⟩ := hfront.exists_cons
      exact .logarithm (by decide) rfl
    · obtain ⟨inner, rfl⟩ := hfront.exists_cons
      exact .logarithm (by decide) rfl
    · exact .base

section
variable {before before' : Option Char} {text text' : List Char}

/-- Where no base is read before a sign, no logarithm is read with what follows it. -/
theorem takeLogarithm_before_sign {c sign : Char} {part more : List Char} (hblank : isBlank sign = false)
    (hbase : isBaseChar sign = false) (hline : sign ≠ '_') (h : readAt true takeBase before (c :: part) = none) :
    readAt true takeLogarithm before (c :: (part ++ sign :: more)) = none := by
  rw [readAt_eq_none_iff] at h ⊢
  intro hboundary
  cases hread : takeBase (c :: (part ++ sign :: more)) with
  | none => simp [takeLogarithm, hread]
  | some found =>
    have hread : takeBase (c :: part ++ sign :: more) = some found := hread
    obtain ⟨between, hfound, -⟩ := takeBase_before_sign hblank hbase hline hread
    rw [h hboundary] at hfound
    cases hfound

/-- In an argument no logarithm is read, so it is kept. -/
theorem Patched.argument {argument rest rest' : List Char} (hnone : NoneBase before argument)
    (h : Patched .logarithms (lastOf before argument) (lastOf before argument) (')' :: rest) rest') :
    Patched .logarithms before before (argument ++ ')' :: rest) (argument ++ rest') := by
  induction argument generalizing before with
  | nil => exact h
  | cons c argument ih =>
    exact .keep (takeLogarithm_before_sign (by decide) (by decide) (by decide) hnone.1) (fun _ => id) (ih hnone.2 h)

theorem ArgumentsApart.at_opening {base front argument more behind : List Char} (h : ArgumentsApart before (front ++ more))
    (hfront : IsOpening base front)
    (hread : readAt true takeLogarithm before (front ++ more) = some ((base, argument), behind)) :
    NoneBase (some '(') argument := by
  obtain ⟨inner, rfl⟩ := hfront.exists_cons
  exact h.1 _ hread

theorem patched_plainLogarithms (memory before : Option Char) (text : List Char)
    (hmemory : text.head? = some 'l' → memory.any isWord = before.any isWord) :
    ArgumentsApart before text → ∀ before' : Option Char,
      (∀ c ∈ text.head?, c = 'd' ∨ c = 'l' → before'.any isWord = false → before.any isWord = false) →
      Patched .logarithms before before' text (plainLogarithmsFrom memory text) := by
  refine logarithm_induction (motive := fun before text text' => ArgumentsApart before text → ∀ before' : Option Char,
    (∀ c ∈ text.head?, c = 'd' ∨ c = 'l' → before'.any isWord = false → before.any isWord = false) →
      Patched .logarithms before before' text text') (fun _ _ _ _ => .nil) ?_ ?_ ?_ memory before text hmemory
  · intro before c rest rest' hread ih hapart before' hbefore
    exact .keep hread (hbefore c rfl) (ih hapart.2 _ fun _ _ _ => id)
  · intro before front base argument behind behind' hfront hread ih hapart before' hbefore
    have hnone : NoneBase (some '(') argument := hapart.at_opening hfront hread
    have hwritten : ", ".toList ++ base ++ ")".toList ++ behind' = ',' :: ' ' :: (base ++ ')' :: behind') := by simp
    have hkept : readAt true takeLogarithm (lastOf before front) ('(' :: (argument ++ ')' :: behind)) = none :=
      readAt_eq_none (takeLogarithm_of_ne (by decide))
    have hclosing : Patched .logarithms (lastOf (some '(') argument) (lastOf (some '(') argument) ([')'] ++ behind)
        ((", ".toList ++ base ++ ")".toList) ++ behind') :=
      .patch (IsLogarithm.closing hfront.isBaseChar) <| ih hapart.drop.2.drop.2 _
        fun _ _ _ _ => isWord_of_isPunctuation (by decide)
    rw [logarithm_append, ← hwritten]
    exact .patch (IsLogarithm.opening hfront) <| .keep hkept (fun hletter => absurd hletter (by decide)) <|
      .argument hnone hclosing
  · intro before front base argument behind behind' hfront hne hargument hends hread ih hapart before' hbefore
    have hnone : NoneBase (some '(') argument := hapart.at_opening hfront hread
    have hbehind : ArgumentsApart (lastOf before (front ++ argument)) behind := by
      rw [lastOf_append]
      exact hapart.drop.drop
    rw [← List.append_assoc]
    refine .patch (.word hfront hargument hnone) (ih hbehind _ fun c hc hletter => ?_)
    rw [hc] at hends
    rcases hletter with rfl | rfl <;> exact absurd (isArgumentChar_of_isBaseChar (by decide)) (Bool.eq_false_iff.mp hends)

end

/-! ### Inside of what is written -/

/-- Whether nothing is read at a place, neither a derivative nor a logarithm. -/
structure Quiet (before : Option Char) (text : List Char) : Prop where
  wrapped : takeWrapped text = none
  applied : readAt true takeApplied before text = none
  plain : readAt true takePlain before text = none
  logarithm : readAt true takeLogarithm before text = none

section
variable {before : Option Char} {c sign : Char} {part more : List Char}

theorem quiet_of_ne (hopen : c ≠ '(') (hd : c ≠ 'd') (hl : c ≠ 'l') (rest : List Char) : Quiet before (c :: rest) where
  wrapped := takeWrapped_of_ne hopen
  applied := readAt_eq_none (takeApplied_of_ne hd)
  plain := readAt_eq_none (takePlain_of_ne hd)
  logarithm := readAt_eq_none (takeLogarithm_of_ne hl)

/-- No derivative begins before a comma or a parenthesis that closes, if there is neither another parenthesis nor the
line of a fraction. -/
theorem quiet_before_sign (hsign : sign = ',' ∨ sign = ')') (hopen : '(' ∉ c :: part) (hslash : '/' ∉ c :: part)
    (hlogarithm : readAt true takeLogarithm before (c :: (part ++ sign :: more)) = none) :
    Quiet before (c :: (part ++ sign :: more)) where
  wrapped := takeWrapped_of_ne fun heq => hopen (heq ▸ List.mem_cons_self ..)
  applied := readAt_eq_none <| by
    cases hread : takeApplied (c :: (part ++ sign :: more)) with
    | none => rfl
    | some found =>
      obtain ⟨front, back, htext, hfront⟩ := opening_of_takeApplied hread
      have htext : c :: part ++ sign :: more = front ++ '(' :: back := htext
      refine (not_first_sign htext.symm ?_ hopen ?_).elim
      · exact not_mem_of_blanks_and_words hfront (by rcases hsign with rfl | rfl <;> decide)
          (by rcases hsign with rfl | rfl <;> exact isWord_of_isPunctuation (by decide))
      · rcases hsign with rfl | rfl <;> decide
  plain := readAt_eq_none <| by
    cases hread : takePlain (c :: (part ++ sign :: more)) with
    | none => rfl
    | some found =>
      obtain ⟨front, back, htext, hfront⟩ := line_of_takePlain hread
      have htext : c :: part ++ sign :: more = front ++ '/' :: back := htext
      refine (not_first_sign htext.symm ?_ hslash ?_).elim
      · exact not_mem_of_blanks_and_words hfront (by rcases hsign with rfl | rfl <;> decide)
          (by rcases hsign with rfl | rfl <;> exact isWord_of_isPunctuation (by decide))
      · rcases hsign with rfl | rfl <;> decide
  logarithm := hlogarithm

/-- Nor does one with its numerator in parentheses that would close before a comma. -/
theorem quiet_group (hclosing : ')' ∉ part) : Quiet before ('(' :: (part ++ ',' :: more)) where
  wrapped := by
    cases hread : takeWrapped ('(' :: (part ++ ',' :: more)) with
    | none => rfl
    | some found =>
      obtain ⟨front, back, htext, hfront⟩ := closing_of_takeWrapped hread
      refine (not_first_sign (List.cons.inj htext).2.symm (fun hmem => ?_) hclosing (by decide)).elim
      rcases hfront ',' hmem with h | h | h
      · revert h
        decide
      · rw [isWord_of_isPunctuation (by decide)] at h
        cases h
      · revert h
        decide
  applied := readAt_eq_none (takeApplied_of_ne (by decide))
  plain := readAt_eq_none (takePlain_of_ne (by decide))
  logarithm := readAt_eq_none (takeLogarithm_of_ne (by decide))

theorem not_mem_of_isArgumentChar {argument : List Char} (hargument : ∀ c ∈ argument, isArgumentChar c = true)
    (h : isArgumentChar sign = false) : sign ∉ argument := fun hmem => by
  have := hargument sign hmem
  rw [h] at this
  cases this

variable {p : Option Char → List Char → Prop} {base argument : List Char}

/-- Nothing is read in the name of the logarithm before a parenthesis. -/
theorem everywhere_name (hp : ∀ before c rest, Quiet before (c :: rest) → p before (c :: rest))
    (hmore : Everywhere p (some 'g') ('(' :: more)) : Everywhere p before ('l' :: 'o' :: 'g' :: '(' :: more) := by
  have hname : takeBase ('l' :: 'o' :: 'g' :: '(' :: more) = none := by
    simp [takeBase, expect, expectSpaced, trimLeft_cons_of_not_isBlank (show isBlank '(' = false by decide)]
  have hl : Quiet before ('l' :: 'o' :: 'g' :: '(' :: more) := {
    wrapped := takeWrapped_of_ne (by decide)
    applied := readAt_eq_none (takeApplied_of_ne (by decide))
    plain := readAt_eq_none (takePlain_of_ne (by decide))
    logarithm := readAt_eq_none (by simp [takeLogarithm, hname]) }
  exact ⟨hp _ _ _ hl, hp _ _ _ (quiet_of_ne (by decide) (by decide) (by decide) _),
    hp _ _ _ (quiet_of_ne (by decide) (by decide) (by decide) _), hmore⟩

/-- Nor in a base between a comma and the parenthesis that closes. -/
theorem everywhere_base (hp : ∀ before c rest, Quiet before (c :: rest) → p before (c :: rest))
    (hbase : ∀ c ∈ base, isBaseChar c = true) (hmore : Everywhere p (some ')') more) :
    Everywhere p before (',' :: ' ' :: (base ++ ')' :: more)) := by
  refine ⟨hp _ _ _ (quiet_of_ne (by decide) (by decide) (by decide) _),
    hp _ _ _ (quiet_of_ne (by decide) (by decide) (by decide) _), everywhere_append ?_
      ⟨hp _ _ _ (quiet_of_ne (by decide) (by decide) (by decide) _), hmore⟩⟩
  rintro shorter c longer rfl
  have hlonger : ∀ d ∈ c :: longer, isBaseChar d = true := fun d hd => hbase d (List.mem_append_right _ hd)
  have hargument : ∀ d ∈ c :: longer, isArgumentChar d = true := fun d hd => isArgumentChar_of_isBaseChar (hlonger d hd)
  refine hp _ _ _ (quiet_before_sign (.inr rfl) (not_mem_of_isArgumentChar hargument (isArgumentChar_of_mem (by simp)))
    (not_mem_of_isArgumentChar hargument (isArgumentChar_of_mem (by simp))) (readAt_eq_none ?_))
  have hline : (trimLeft (')' :: more)).head? ≠ some '_' := by
    rw [trimLeft_cons_of_not_isBlank (by decide)]
    simp
  have hends : (')' :: more).head?.any isBaseChar = false := show isBaseChar ')' = false by decide
  rw [takeLogarithm, takeBase_within_base hlonger hends hline]
  rfl

theorem IsLogarithm.everywhere {region written behind : List Char}
    (hp : ∀ before c rest, Quiet before (c :: rest) → p before (c :: rest)) (h : IsLogarithm region written behind)
    (hbehind : Everywhere p (lastOf before written) behind) : Everywhere p before (written ++ behind) := by
  cases h with
  | opening hfront => exact everywhere_name hp hbehind
  | @closing base _ hbase =>
    rw [lastOf_append] at hbehind
    rw [List.append_assoc]
    exact everywhere_base hp hbase hbehind
  | @word base front argument _ hfront hargument hnone =>
    have hlast : lastOf before (logarithm argument base) = some ')' := by
      rw [logarithm_eq]
      exact lastOf_append _ ('l' :: 'o' :: 'g' :: '(' :: (argument ++ [',', ' '] ++ base)) [')']
    rw [hlast] at hbehind
    have hclosing : ')' ∉ argument := not_mem_of_isArgumentChar hargument (isArgumentChar_of_mem (by simp))
    rw [logarithm_append]
    refine everywhere_name hp ⟨hp _ _ _ (quiet_group hclosing),
      everywhere_append ?_ (everywhere_base hp hfront.isBaseChar hbehind)⟩
    rintro shorter c longer rfl
    have hlonger : ∀ d ∈ c :: longer, isArgumentChar d = true := fun d hd => hargument d (List.mem_append_right _ hd)
    have hfirst : readAt true takeBase (lastOf (some '(') shorter) (c :: longer) = none := (Everywhere.drop hnone).1
    exact hp _ _ _ <| quiet_before_sign (.inl rfl) (not_mem_of_isArgumentChar hlonger (isArgumentChar_of_mem (by simp)))
      (not_mem_of_isArgumentChar hlonger (isArgumentChar_of_mem (by simp)))
      (takeLogarithm_before_sign (by decide) (by decide) (by decide) hfirst)

end

/-! ### Where characters are kept -/

section
variable {before before' last last' : Option Char} {text text' : List Char}

/-- A text without parentheses does not change what parenthesis closes a group. -/
theorem isSome_takeGroup_append {front : List Char} (hopen : '(' ∉ front) (hclosing : ')' ∉ front) (depth : Nat)
    (text : List Char) : (takeGroup depth (front ++ text)).isSome = (takeGroup depth text).isSome := by
  induction front with
  | nil => rfl
  | cons c front ih =>
    obtain ⟨hc, hfront⟩ := not_or.mp (List.mem_cons.not.mp hopen)
    obtain ⟨hc', hfront'⟩ := not_or.mp (List.mem_cons.not.mp hclosing)
    rw [List.cons_append, takeGroup_cons, if_neg (Ne.symm hc), if_neg (Ne.symm hc'), Option.isSome_map, ih hfront hfront']

/-- What stands before two texts does not change that a group that is closed in the one is closed in the other. -/
theorem isSome_takeGroup_cons
    (h : ∀ depth, (takeGroup depth text').isSome = true → (takeGroup depth text).isSome = true) (c : Char) (depth : Nat)
    (hread : (takeGroup depth (c :: text')).isSome = true) : (takeGroup depth (c :: text)).isSome = true := by
  rw [takeGroup_cons] at hread ⊢
  by_cases hopen : c = '('
  · rw [if_pos hopen, Option.isSome_map] at hread ⊢
    exact h _ hread
  · rw [if_neg hopen] at hread ⊢
    by_cases hclosing : c = ')'
    · rw [if_pos hclosing] at hread ⊢
      cases depth with
      | zero => rfl
      | succ depth =>
        simp only [Option.isSome_map] at hread ⊢
        exact h _ hread
    · rw [if_neg hclosing, Option.isSome_map] at hread ⊢
      exact h _ hread

/-- A group that is closed in the new text is closed in the old one. -/
theorem Patched.back_takeGroup (h : Patched .logarithms before before' text text') :
    ∀ depth, (takeGroup depth text').isSome = true → (takeGroup depth text).isSome = true := by
  induction h with
  | nil => exact fun depth hread => hread
  | keep hkept hword h ih => exact isSome_takeGroup_cons ih _
  | @patch _ _ region written text text' hpatch h ih =>
    intro depth hread
    have hopen : isArgumentChar '(' = false := isArgumentChar_of_mem (by simp)
    have hclosing : isArgumentChar ')' = false := isArgumentChar_of_mem (by simp)
    cases (show IsLogarithm region written text' from hpatch) with
    | @opening base _ more hfront =>
      rw [isSome_takeGroup_append (by decide) (by decide)] at hread
      rw [isSome_takeGroup_append (hfront.not_mem (by decide) hopen) (hfront.not_mem (by decide) hclosing)]
      exact ih depth hread
    | @word base front argument _ hfront hargument hnone =>
      have hbase : ∀ c ∈ base, isArgumentChar c = true := fun c hc => isArgumentChar_of_isBaseChar (hfront.isBaseChar c hc)
      have hargument₁ := not_mem_of_isArgumentChar hargument hopen
      have hargument₂ := not_mem_of_isArgumentChar hargument hclosing
      have hbase₁ := not_mem_of_isArgumentChar hbase hopen
      have hbase₂ := not_mem_of_isArgumentChar hbase hclosing
      have htext : logarithm argument base ++ text' =
          ['l', 'o', 'g'] ++ ('(' :: ((argument ++ ',' :: ' ' :: base) ++ ')' :: text')) := by
        rw [logarithm_append]
        simp
      rw [htext, isSome_takeGroup_append (by decide) (by decide), takeGroup_cons, if_pos rfl, Option.isSome_map,
        isSome_takeGroup_append (by simp [hargument₁, hbase₁]) (by simp [hargument₂, hbase₂]), takeGroup_cons,
        if_neg (by decide), if_pos rfl, Option.isSome_map] at hread
      rw [List.append_assoc, isSome_takeGroup_append (hfront.not_mem (by decide) hopen)
        (hfront.not_mem (by decide) hclosing), isSome_takeGroup_append hargument₁ hargument₂]
      exact ih depth hread
    | @closing base _ hbase =>
      have hbase' : ∀ c ∈ base, isArgumentChar c = true := fun c hc => isArgumentChar_of_isBaseChar (hbase c hc)
      have hbase₁ := not_mem_of_isArgumentChar hbase' hopen
      have hbase₂ := not_mem_of_isArgumentChar hbase' hclosing
      have htext : ", ".toList ++ base ++ ")".toList ++ text' = (',' :: ' ' :: base) ++ ')' :: text' := by simp
      rw [htext, isSome_takeGroup_append (by simp [hbase₁]) (by simp [hbase₂]), takeGroup_cons, if_neg (by decide),
        if_pos rfl] at hread
      rw [List.singleton_append, takeGroup_cons, if_neg (by decide), if_pos rfl]
      cases depth with
      | zero => rfl
      | succ depth =>
        simp only [Option.isSome_map] at hread ⊢
        exact ih depth hread

theorem IsOpening.isSome_takeArgument {base front : List Char} (h : IsOpening base front) (rest : List Char) :
    (takeArgument (front ++ rest)).isSome = true := by
  obtain ⟨inner, rfl⟩ := h.exists_cons
  exact takeArgument_of_isArgumentChar (isArgumentChar_of_isBaseChar (by decide)) _

theorem takeArgument_eq_none {c : Char} (hopen : c ≠ '(') (hc : isArgumentChar c = false) (rest : List Char) :
    takeArgument (c :: rest) = none := by
  rw [takeArgument_cons_of_ne hopen, List.takeWhile_cons_of_neg (by simp [hc])]
  rfl

/-- Where the new text has an argument, the old one has one, too. -/
theorem Patched.back_takeArgument (h : Patched .logarithms before before' text text')
    (hread : (takeArgument text').isSome = true) : (takeArgument text).isSome = true := by
  cases h with
  | nil => exact hread
  | @keep _ _ c text text' hkept hword h =>
    by_cases hopen : c = '('
    · subst hopen
      exact h.back_takeGroup 0 hread
    · cases hc : isArgumentChar c with
      | true => exact takeArgument_of_isArgumentChar hc text
      | false =>
        rw [takeArgument_eq_none hopen hc] at hread
        cases hread
  | @patch _ _ region written text text' hpatch h =>
    cases (show IsLogarithm region written text' from hpatch) with
    | opening hfront => exact hfront.isSome_takeArgument _
    | word hfront hargument hnone =>
      rw [List.append_assoc]
      exact hfront.isSome_takeArgument _
    | @closing base _ hbase =>
      rw [show ", ".toList ++ base ++ ")".toList ++ text' = ',' :: (' ' :: base ++ ")".toList ++ text') from rfl,
        takeArgument_eq_none (by decide) (isArgumentChar_of_mem (by simp))] at hread
      cases hread

/-- Where a base runs into the beginning of another logarithm, it goes on to the line of that one. -/
theorem takeLogarithm_of_opening {base front run : List Char} (hfront : IsOpening base front)
    (hrun : ∀ c ∈ run, isBaseChar c = true) (rest : List Char) :
    ∃ base' behind, (run ++ (front ++ rest)).takeWhile isBaseChar = base' ∧ base' ≠ [] ∧
      (run ++ (front ++ rest)).dropWhile isBaseChar = behind ∧ (takeArgument (trimLeft behind)).isSome = true := by
  obtain ⟨b₁, b₂, b₃, hb₁, -, -, rfl, -⟩ := hfront
  have htext : run ++ ('l' :: 'o' :: 'g' :: (b₁ ++ '_' :: (b₂ ++ (base ++ b₃))) ++ rest) =
      (run ++ ['l', 'o', 'g']) ++ (b₁ ++ '_' :: (b₂ ++ (base ++ b₃) ++ rest)) := by simp
  have hends : (b₁ ++ '_' :: (b₂ ++ (base ++ b₃) ++ rest)).head?.any isBaseChar = false :=
    head_behind_blanks isBaseChar_of_isBlank hb₁ fun _ => rfl
  have hwhole : ∀ c ∈ run ++ ['l', 'o', 'g'], isBaseChar c = true := fun c hc => by
    rcases List.mem_append.mp hc with hc | hc
    · exact hrun c hc
    · exact isBaseChar_of_mem_log c hc
  obtain ⟨htake, hdrop⟩ := takeWhile_ended hwhole hends
  rw [htext]
  refine ⟨_, _, htake, by simp, hdrop, ?_⟩
  rw [trimLeft_blanks hb₁ (by decide)]
  exact takeArgument_of_isArgumentChar (by decide) _

/-- Reads the line of a subscript behind the first letter of a logarithm. -/
def takeLine (text : List Char) : Option (List Char) :=
  (expect 'o' text).bind fun text => (expect 'g' text).bind (expectSpaced '_')

theorem transports_takeLine {r : Rewriting} : Transports r takeLine :=
  (transports_expect (by decide)).bind ((transports_expect (by decide)).bind (transports_expectSpaced (by decide)))

theorem isSome_takeLogarithm_cons : (takeLogarithm ('l' :: text)).isSome = true ↔
    ∃ middle, takeLine text = some middle ∧ (trimLeft middle).takeWhile isBaseChar ≠ [] ∧
      (takeArgument (trimLeft ((trimLeft middle).dropWhile isBaseChar))).isSome = true := by
  have hbase : takeBase ('l' :: text) = (takeLine text).bind fun text =>
      if ((trimLeft text).takeWhile isBaseChar).isEmpty then none
      else some ((trimLeft text).takeWhile isBaseChar, (trimLeft text).dropWhile isBaseChar) := by
    simp only [takeBase, takeLine, expect, if_true, Option.bind_some, Option.bind_assoc]
  rw [takeLogarithm, hbase]
  cases takeLine text with
  | none => simp
  | some middle =>
    simp only [Option.bind_some, Option.some.injEq, exists_eq_left']
    cases (trimLeft middle).takeWhile isBaseChar with
    | nil => simp
    | cons c base => simp

/-- Where a logarithm is read in the new text, one is read in the old one. -/
theorem Patched.back_takeLogarithm (h : Patched .logarithms (some 'l') (some 'l') text text')
    (hread : (takeLogarithm ('l' :: text')).isSome = true) : (takeLogarithm ('l' :: text)).isSome = true := by
  rw [isSome_takeLogarithm_cons] at hread ⊢
  obtain ⟨middle', hmiddle', hne, hargument⟩ := hread
  obtain ⟨middle, _, _, hmiddle, hgoes⟩ := transports_takeLine.back h hmiddle'
  obtain ⟨_, _, htrim⟩ := hgoes.patched.goes_trimLeft
  refine ⟨middle, hmiddle, ?_⟩
  rcases htrim.patched.run isBaseChar with
    ⟨hsame, _, _, hafter⟩ | ⟨run, region, written, rest, rest', hrun, hold, hnew, hpatch⟩
  · obtain ⟨_, _, htrim'⟩ := hafter.patched.goes_trimLeft
    rw [hsame]
    exact ⟨hne, htrim'.patched.back_takeArgument hargument⟩
  · cases (show IsLogarithm region written rest' from hpatch) with
    | opening hfront =>
      obtain ⟨base', behind, htake, hne', hdrop, hsome⟩ := takeLogarithm_of_opening hfront hrun rest
      rw [hold, htake, hdrop]
      exact ⟨hne', hsome⟩
    | @word _ front argument _ hfront =>
      obtain ⟨base', behind, htake, hne', hdrop, hsome⟩ := takeLogarithm_of_opening hfront hrun (argument ++ rest)
      rw [hold, List.append_assoc, htake, hdrop]
      exact ⟨hne', hsome⟩
    | @closing base _ hbase =>
      -- In the new text the base ends at a comma, and there is no argument.
      rw [show ", ".toList ++ base ++ ")".toList ++ rest' = ',' :: (' ' :: base ++ ")".toList ++ rest') from rfl] at hnew
      rw [hnew, (takeWhile_ended hrun rfl).2, trimLeft_cons_of_not_isBlank (by decide),
        takeArgument_eq_none (by decide) (isArgumentChar_of_mem (by simp))] at hargument
      cases hargument

/-! ### What is left -/

/-- One run of the search for logarithms leaves none for another. -/
theorem Patched.noneLogarithm (h : Patched .logarithms before before' text text') : NoneLogarithm before' text' := by
  refine h.everywhere (q := fun _ _ => True) (everywhere_of_forall fun _ _ _ => trivial) ?_
    fun hpatch _ _ hbehind => hpatch.everywhere (fun _ _ _ quiet => quiet.logarithm) hbehind
  intro before before' c text text' hkept _ hword hrest
  by_cases hc : c = 'l'
  · subst hc
    have hl : isWord 'l' = true := isWord_of_isIdentifierChar (by decide)
    have hkept : readAt true takeLogarithm before ('l' :: text) = none := hkept
    rw [readAt_word hl] at hkept ⊢
    cases hbefore' : before'.any isWord with
    | true => rfl
    | false =>
      rw [hword (.inr rfl) hbefore', if_neg Bool.false_ne_true] at hkept
      rw [if_neg Bool.false_ne_true]
      cases hread : takeLogarithm ('l' :: text') with
      | none => rfl
      | some found =>
        have := hrest.back_takeLogarithm (Option.isSome_iff_exists.mpr ⟨_, hread⟩)
        rw [hkept] at this
        cases this
  · exact readAt_eq_none (takeLogarithm_of_ne hc)

/-- A text in which no logarithm is read stays as it is. -/
theorem plainLogarithmsFrom_eq_self (memory before : Option Char) (text : List Char)
    (hmemory : text.head? = some 'l' → memory.any isWord = before.any isWord) :
    NoneLogarithm before text → plainLogarithmsFrom memory text = text := by
  refine logarithm_induction (motive := fun before text text' => NoneLogarithm before text → text' = text)
    (fun _ _ => rfl) ?_ ?_ ?_ memory before text hmemory
  · intro before c rest rest' _ ih hnone
    rw [ih hnone.2]
  · intro before front base argument behind behind' hfront hread _ hnone
    obtain ⟨inner, rfl⟩ := hfront.exists_cons
    rw [List.cons_append] at hread hnone
    rw [hnone.1] at hread
    cases hread
  · intro before front base argument behind behind' hfront _ _ _ hread _ hnone
    obtain ⟨inner, rfl⟩ := hfront.exists_cons
    rw [List.cons_append] at hread hnone
    rw [hnone.1] at hread
    cases hread

/-- What is written for a logarithm is no numerator: a parenthesis or a comma follows its first word. -/
theorem IsLogarithm.sign {region written behind : List Char} (h : IsLogarithm region written behind) :
    ∃ word sign more, written ++ behind = word ++ sign :: more ∧ (∀ c ∈ word, isWord c = true) ∧
      (sign = '(' ∨ sign = ',') := by
  have hname : ∀ c ∈ ['l', 'o', 'g'], isWord c = true := by
    intro c hc
    simp only [List.mem_cons, List.not_mem_nil, or_false] at hc
    rcases hc with rfl | rfl | rfl <;> exact isWord_of_isIdentifierChar (by decide)
  cases h with
  | @opening base _ more hfront => exact ⟨['l', 'o', 'g'], '(', more, rfl, hname, .inl rfl⟩
  | @word base front argument _ hfront hargument hnone =>
    exact ⟨['l', 'o', 'g'], '(', _, logarithm_append argument base behind, hname, .inl rfl⟩
  | @closing base _ hbase => exact ⟨[], ',', ' ' :: (base ++ (")".toList ++ behind)), by simp, by simp, .inr rfl⟩

/-- A derivative in its one form that is read in the new text stands in the old one. -/
theorem takePlain_kept {c : Char} {name rest' : List Char} (h : Patched .logarithms before before' (c :: text) (c :: text'))
    (hword : c = 'd' ∨ c = 'l' → before'.any isWord = false → before.any isWord = false)
    (hone : ∀ name rest, readAt true takePlain before (c :: text) = some (name, rest) → c :: text = derivative name ++ rest)
    (hread : readAt true takePlain before' (c :: text') = some (name, rest')) : c :: text' = derivative name ++ rest' := by
  obtain ⟨_, heq, hbefore', htake⟩ := of_readAt_plain hread
  obtain ⟨rfl, rfl⟩ := List.cons.inj heq
  rcases h.back_takePlain htake with ⟨rest, _, _, hread', hgoes⟩ | ⟨region, written, rest, rest', -, htext', hpatch⟩ |
    ⟨after, after', last, last', -, hafter', -, run, region, written, rest, rest', hrun, -, hnew, hpatch⟩
  · obtain ⟨between, htext, htext', -⟩ := hgoes.exists_between
    have hd : isWord 'd' = true := isWord_of_isIdentifierChar (by decide)
    have hform := hone name rest (by rw [readAt_word hd, hword (.inl rfl) hbefore']; exact hread')
    rw [htext] at hform
    rw [htext', List.append_cancel_right hform]
  · -- No logarithm begins with a differential.
    exfalso
    cases (show IsLogarithm region written rest' from hpatch) with
    | opening hfront => cases htext'
    | word hfront hargument hnone => cases htext'
    | closing hbase => cases htext'
  · exfalso
    obtain ⟨word, sign, more, hwritten, hwords, hsign⟩ := (show IsLogarithm region written rest' from hpatch).sign
    simp only [takePlain, Option.bind_eq_bind, Option.bind_eq_some_iff] at htake
    obtain ⟨r₁, h₁, ⟨found, r₂⟩, h₂, r₃, h₃, -⟩ := htake
    obtain rfl : text' = r₁ := (List.cons.inj (eq_cons_of_expect h₁)).2
    obtain rfl : text' = after' := (List.cons.inj hafter').2
    obtain ⟨-, -, rfl⟩ := takeName_eq_some_iff.mp h₂
    have hpunctuation : isWord sign = false := by
      rcases hsign with rfl | rfl <;> exact isWord_of_isPunctuation (by decide)
    rw [hnew, hwritten, List.dropWhile_append_of_pos hrun, dropWhile_words hwords hpunctuation] at h₃
    rcases hsign with rfl | rfl <;> cases h₃

theorem Patched.settled (h : Patched .logarithms none none text text') (hold : Settled text) : Settled text' where
  wrapped := h.everywhere hold.wrapped (fun hkept hnone hword hrest => takeWrapped_kept (.keep hkept hword hrest) hnone)
    fun hpatch _ _ hbehind => hpatch.everywhere (fun _ _ _ quiet => quiet.wrapped) hbehind
  applied := h.everywhere hold.applied
    (fun hkept hnone hword hrest => takeApplied_kept hword (.keep hkept hword hrest) hnone)
    fun hpatch _ _ hbehind => hpatch.everywhere (fun _ _ _ quiet => quiet.applied) hbehind
  plain := h.everywhere hold.plain
    (fun hkept hone hword hrest name rest' hread => takePlain_kept (.keep hkept hword hrest) hword hone hread)
    fun hpatch _ _ hbehind => hpatch.everywhere (fun _ _ _ quiet name rest hread => by
      rw [quiet.plain] at hread
      cases hread) hbehind

end

/-! ### Dashes -/

theorem isDash_of_isWord {c : Char} (h : isWord c = true) : isDash c = false := by
  cases hc : isDash c with
  | false => rfl
  | true =>
    rcases eq_of_isDash hc with rfl | rfl | rfl <;> rw [isWord_of_isPunctuation (by decide)] at h <;> cases h

theorem isDash_of_all {text : List Char} (h : text.all (fun c => !isDash c) = true) : ∀ c ∈ text, isDash c = false :=
  fun c hc => by simpa using List.all_eq_true.mp h c hc

theorem isDash_of_mem_plainMinus {text : List Char} : ∀ c ∈ plainMinus text, isDash c = false := by
  intro c hc
  obtain ⟨d, -, rfl⟩ := List.mem_map.mp hc
  cases hd : isDash d with
  | false => simp [hd]
  | true =>
    rw [if_pos rfl]
    decide

/-- A search for derivatives brings no dash into a text. -/
theorem isDash_of_mem_replaceFrom {atWord : Bool} {take : List Char → Option (List Char × List Char)}
    (reads : ReadsDerivatives take) (before : Option Char) (text : List Char) : (∀ c ∈ text, isDash c = false) →
      ∀ c ∈ replaceFrom (derivativeFinder atWord take) before text, isDash c = false := by
  refine search_induction reads (motive := fun _ text text' => (∀ c ∈ text, isDash c = false) →
    ∀ c ∈ text', isDash c = false) (fun _ h => h) ?_ ?_ before text
  · intro before d rest rest' _ ih hdash c hc
    rcases List.mem_cons.mp hc with rfl | hc
    · exact hdash c (List.mem_cons_self ..)
    · exact ih (fun e he => hdash e (List.mem_cons_of_mem _ he)) c hc
  · intro before region behind behind' name _ hread ih hdash c hc
    rcases List.mem_append.mp hc with hc | hc
    · have hname : isName name = true := by
        unfold readAt at hread
        split at hread
        · cases hread
        · exact reads.isName hread
      rw [derivative, List.mem_append, List.mem_cons] at hc
      rcases hc with (rfl | hc) | hc
      · decide
      · exact isDash_of_isWord (isWord_of_isName hname c hc)
      · exact isDash_of_all (by decide) c hc
    · exact ih (fun e he => hdash e (List.mem_append_right _ he)) c hc

theorem isDash_of_mem_canonicalText {text : List Char} : ∀ c ∈ canonicalText text, isDash c = false := by
  intro c hc
  rcases mem_plainLogarithms hc with hc | hc
  · exact isDash_of_mem_replaceFrom readsDerivatives_takePlain none _ (isDash_of_mem_replaceFrom
      readsDerivatives_takeApplied none _ (isDash_of_mem_replaceFrom readsDerivatives_takeWrapped none _
        isDash_of_mem_plainMinus)) c hc
  · exact isDash_of_all (by decide) c hc

/-! ### Canonical notation of canonical notation -/

/-- Whether the spellings that are replaced in a text stand apart: the derivatives that are found in it, and the bases of
logarithms from the arguments of others. -/
structure Clear (text : List Char) : Prop where
  derivatives : DerivativesApart (plainMinus text)
  arguments : ArgumentsApart none (plainText text)

instance (text : List Char) : Decidable (Clear text) :=
  decidable_of_iff (DerivativesApart (plainMinus text) ∧ ArgumentsApart none (plainText text))
    ⟨fun h => ⟨h.1, h.2⟩, fun h => ⟨h.derivatives, h.arguments⟩⟩

/-- A text in which nothing is replaced is its own canonical notation. -/
theorem canonicalText_eq_self {text : List Char} (dashes : ∀ c ∈ text, isDash c = false) (settled : Settled text)
    (logarithms : NoneLogarithm none text) : canonicalText text = text := calc
  canonicalText text
  _ = plainLogarithms (plainDerivatives (plainMinus text)) := rfl
  _ = plainLogarithms (plainDerivatives text) := by rw [plainMinus_eq_self dashes]
  _ = plainLogarithms text := by rw [settled.plainDerivatives]
  _ = text := plainLogarithmsFrom_eq_self none none text (fun _ => rfl) logarithms

/-- If what is replaced stands apart, nothing is left to be replaced in canonical notation. -/
theorem Clear.settled {text : List Char} (clear : Clear text) :
    Settled (canonicalText text) ∧ NoneLogarithm none (canonicalText text) := by
  have patched : Patched .logarithms none none (plainText text) (canonicalText text) :=
    patched_plainLogarithms none none (plainText text) (fun _ => rfl) clear.arguments none fun _ _ _ => id
  exact ⟨patched.settled (settled_plainDerivatives clear.derivatives), patched.noneLogarithm⟩

/-- If what is replaced stands apart, a text in canonical notation is its own. -/
theorem canonicalText_canonicalText {text : List Char} (clear : Clear text) :
    canonicalText (canonicalText text) = canonicalText text :=
  canonicalText_eq_self isDash_of_mem_canonicalText clear.settled.1 clear.settled.2

/-- An equation whose derivatives and logarithms stand apart is in canonical notation after one step. -/
theorem canonicalize_idempotent (equation : String) (clear : Clear equation.toList) :
    canonicalize (canonicalize equation) = canonicalize equation := by
  rw [canonicalize, canonicalize, String.toList_ofList, canonicalText_canonicalText clear]

/-- For one with derivatives of each spelling, and a logarithm. -/
theorem canonicalize_idempotent_spellings :
    Clear "(d y)/dt \u2212 log_2 (y) = d(x)/(d t) + d z / dt".toList ∧
      canonicalize "(d y)/dt \u2212 log_2 (y) = d(x)/(d t) + d z / dt" = "dy/dt - log(y, 2) = dx/dt + dz/dt" ∧
      canonicalize (canonicalize "(d y)/dt \u2212 log_2 (y) = d(x)/(d t) + d z / dt") =
        canonicalize "(d y)/dt \u2212 log_2 (y) = d(x)/(d t) + d z / dt" := by
  have clear : Clear "(d y)/dt \u2212 log_2 (y) = d(x)/(d t) + d z / dt".toList := by decide +kernel
  exact ⟨clear, by decide +kernel, canonicalize_idempotent _ clear⟩

/-- A logarithm in the argument of another is replaced by the second step only. -/
theorem canonicalize_nested : ¬ ∀ equation : String, canonicalize (canonicalize equation) = canonicalize equation := by
  intro idempotent
  have nested : canonicalize (canonicalize "log_2(log_3(x))") ≠ canonicalize "log_2(log_3(x))" := by decide +kernel
  exact nested (idempotent _)

end OdeSystem.Notation
