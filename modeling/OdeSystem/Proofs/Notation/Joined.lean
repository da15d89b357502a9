import OdeSystem.Expression
import OdeSystem.Proofs.Notation.Settled
import OdeSystem.Proofs.Notation.Starred

/-!
Normal forms of normal forms. A normal form is the canonical notation without its blanks, and with stars between
factors. Neither brings about a spelling that would be replaced: a reader that gets through the joined text has met no
star, and reads the same with the blanks. So the normal form of a text is its own, provided that its tokens stay apart
without the blanks, and that behind its numbers nothing stands that is kept only because no word begins there.
-/

namespace OdeSystem.Notation

open Text

/-! ### Places at which nothing is replaced -/

/-- Whether nothing is replaced at the beginning of a text: at most a derivative in its one form is read. -/
structure Still (text : List Char) : Prop where
  wrapped : takeWrapped text = none
  applied : takeApplied text = none
  plain : (takePlain text).all (fun found => decide (text = derivative found.1 ++ found.2)) = true
  logarithm : takeLogarithm text = none

instance (text : List Char) : Decidable (Still text) :=
  decidable_of_iff (takeWrapped text = none ∧ takeApplied text = none ∧
    (takePlain text).all (fun found => decide (text = derivative found.1 ++ found.2)) = true ∧ takeLogarithm text = none)
    ⟨fun h => ⟨h.1, h.2.1, h.2.2.1, h.2.2.2⟩, fun h => ⟨h.wrapped, h.applied, h.plain, h.logarithm⟩⟩

/-- Whether nothing is replaced at a place, given the character before it: inside of a word nothing is read. -/
def AtRest (before : Option Char) (text : List Char) : Prop :=
  (before.any isWord && text.head?.any isWord) = false → Still text

section
variable {before : Option Char} {c : Char} {text rest : List Char}

theorem ne_of_not_isWord {d : Char} (hc : isWord c = false) (hd : isIdentifierChar d = true) : c ≠ d := by
  rintro rfl
  rw [isWord_of_isIdentifierChar hd] at hc
  cases hc

/-- What begins with a word is read at a place unless a word goes on there. -/
theorem readAt_outside {β : Type} (take : List Char → Option β) (hne : isWord c = false → take (c :: rest) = none)
    (hplace : (before.any isWord && isWord c) = false) : readAt true take before (c :: rest) = take (c :: rest) := by
  cases hc : isWord c with
  | false => rw [readAt_eq_none (hne hc), hne hc]
  | true =>
    rw [hc, Bool.and_true] at hplace
    rw [readAt_word hc, hplace, if_neg Bool.false_ne_true]

theorem atRest_iff : AtRest before (c :: rest) ↔
    takeWrapped (c :: rest) = none ∧ readAt true takeApplied before (c :: rest) = none ∧
      (∀ name behind, readAt true takePlain before (c :: rest) = some (name, behind) →
        c :: rest = derivative name ++ behind) ∧ readAt true takeLogarithm before (c :: rest) = none := by
  cases hplace : before.any isWord && isWord c with
  | true =>
    obtain ⟨hbefore, hc⟩ := Bool.and_eq_true_iff.mp hplace
    have hopen : c ≠ '(' := by
      rintro rfl
      rw [isWord_of_isPunctuation (by decide)] at hc
      cases hc
    have hread {β : Type} (take : List Char → Option β) : readAt true take before (c :: rest) = none := by
      rw [readAt_word hc, hbefore, if_pos rfl]
    refine iff_of_true (fun hout => ?_) ⟨takeWrapped_of_ne hopen, hread _, fun name behind h => ?_, hread _⟩
    · have hout : (before.any isWord && isWord c) = false := hout
      rw [hplace] at hout
      cases hout
    · rw [hread] at h
      cases h
  | false =>
    rw [readAt_outside takeApplied (fun hc => takeApplied_of_ne (ne_of_not_isWord hc (by decide))) hplace,
      readAt_outside takePlain (fun hc => takePlain_of_ne (ne_of_not_isWord hc (by decide))) hplace,
      readAt_outside takeLogarithm (fun hc => takeLogarithm_of_ne (ne_of_not_isWord hc (by decide))) hplace]
    refine ⟨fun h => ?_, fun ⟨hwrapped, happlied, hplain, hlogarithm⟩ _ => ⟨hwrapped, happlied, ?_, hlogarithm⟩⟩
    · obtain ⟨hwrapped, happlied, hplain, hlogarithm⟩ := h hplace
      refine ⟨hwrapped, happlied, fun name behind hread => ?_, hlogarithm⟩
      rw [hread] at hplain
      exact of_decide_eq_true hplain
    · cases hread : takePlain (c :: rest) with
      | none => rfl
      | some found => exact decide_eq_true (hplain found.1 found.2 hread)

/-- A text in which all is at rest is settled, and no logarithm is read in it. -/
theorem atRest_everywhere_iff : Everywhere AtRest none text ↔ Settled text ∧ NoneLogarithm none text := by
  constructor
  · intro h
    exact ⟨⟨h.imp fun _ _ _ h => (atRest_iff.mp h).1, h.imp fun _ _ _ h => (atRest_iff.mp h).2.1,
      h.imp fun _ _ _ h => (atRest_iff.mp h).2.2.1⟩, h.imp fun _ _ _ h => (atRest_iff.mp h).2.2.2⟩
  · rintro ⟨settled, logarithms⟩
    exact (settled.wrapped.and (settled.applied.and (settled.plain.and logarithms))).imp fun _ _ _ h => atRest_iff.mpr h

end

/-! ### Joined texts -/

/-- A text without its blanks, and with stars at some places, given the character before it. No two characters have been
joined that could go on with one word. A star has been written for blanks, at a parenthesis, or behind a number where
nothing is replaced. -/
inductive Joined : Option Char → List Char → List Char → Prop
  | nil {before : Option Char} {text : List Char} (hblanks : allBlank text = true) : Joined before text []
  | ink {before : Option Char} {c : Char} {blanks text text' : List Char} (hblanks : allBlank blanks = true)
    (hc : isBlank c = false) (hgap : blanks ≠ [] → (before.any clings && clings c) = false)
    (rest : Joined (some c) text text') : Joined before (blanks ++ c :: text) (c :: text')
  | star {before : Option Char} {c : Char} {blanks text text' : List Char} (hblanks : allBlank blanks = true)
    (hc : isBlank c = false) (hplace : blanks = [] → c = '(' ∨ before = some ')' ∨
      (before.any fun d => isAsciiDigit d || d == '.') = true ∧ Still (c :: text))
    (rest : Joined (some c) text text') : Joined before (blanks ++ c :: text) ('*' :: c :: text')

/-- Where a reader has got to in a text and in the joined one: it has met no star. -/
structure Reached (text text' : List Char) (last : Option Char) (rest rest' : List Char) : Prop where
  front : ∃ front, text = front ++ rest ∧ text' = strip front ++ rest'
  joined : Joined last rest rest'

/-- What a reader reads in a joined text it reads in the text. -/
structure ReadsBack (read : List Char → Option (List Char)) : Prop where
  back : ∀ {before text text' rest'}, Joined before text text' → read text' = some rest' →
    ∃ rest last, read text = some rest ∧ Reached text text' last rest rest'

section
variable {before last last' : Option Char} {c sign : Char} {text text' middle middle' rest rest' : List Char}

theorem Reached.trans (h : Reached text text' last middle middle') (h' : Reached middle middle' last' rest rest') :
    Reached text text' last' rest rest' := by
  obtain ⟨⟨front, rfl, rfl⟩, -⟩ := h
  obtain ⟨⟨front', rfl, rfl⟩, hjoined⟩ := h'
  exact ⟨⟨front ++ front', by simp, by simp [strip_append]⟩, hjoined⟩

theorem Joined.trimLeft (h : Joined before text text') : trimLeft text' = text' := by
  cases h with
  | nil => rfl
  | ink hblanks hc hgap h => exact trimLeft_cons_of_not_isBlank hc
  | star => exact trimLeft_cons_of_not_isBlank (by decide)

theorem isBlank_of_clings (h : clings c = true) : isBlank c = false := by
  cases hc : isBlank c with
  | false => rfl
  | true =>
    have hseparator := isSeparator_of_isBlank hc
    have hdot : c ≠ '.' := ne_of_isBlank hc (by decide)
    simp [clings, isWord_of_isBlank hc, isNameChar_of_isSeparator hseparator, hdot] at h

/-- The first character of a joined text, if it is no star, is the first one behind the blanks. -/
theorem Joined.step (h : Joined before text (c :: text')) (hc : c ≠ '*') :
    ∃ rest, Text.trimLeft text = c :: rest ∧ Reached text (c :: text') (some c) rest text' ∧
      ((before.any clings && clings c) = true → text = c :: rest) := by
  cases h with
  | @ink _ _ blanks text text' hblanks hink hgap h =>
    refine ⟨text, trimLeft_blanks hblanks hink text, ⟨⟨blanks ++ [c], by simp, ?_⟩, h⟩, fun hclings => ?_⟩
    · rw [strip_append, strip_eq_nil_of_allBlank hblanks, strip_eq_self (by simpa using hink)]
      rfl
    · by_cases hnil : blanks = []
      · rw [hnil, List.nil_append]
      · rw [hgap hnil] at hclings
        cases hclings
  | star => exact absurd rfl hc

/-- A run of characters that could go on with a word is the same in the text, if no star follows it. -/
theorem Joined.run {p : Char → Bool} (hp : ∀ {c}, p c = true → clings c = true) (h : Joined before text text')
    (hbefore : before.any clings = true) (hends : (text'.dropWhile p).head? ≠ some '*') :
    text.takeWhile p = text'.takeWhile p ∧ ∃ last, Reached text text' last (text.dropWhile p) (text'.dropWhile p) := by
  have hblank {c : Char} (hc : isBlank c = true) : p c = false := by
    cases hpc : p c with
    | false => rfl
    | true =>
      rw [isBlank_of_clings (hp hpc)] at hc
      cases hc
  suffices htake : text.takeWhile p = text'.takeWhile p ∧ ∃ last, Joined last (text.dropWhile p) (text'.dropWhile p) by
    obtain ⟨htake, last, hdrop⟩ := htake
    have hink : ∀ d ∈ text.takeWhile p, isBlank d = false := fun d hd =>
      isBlank_of_clings (hp (List.mem_takeWhile_imp hd))
    refine ⟨htake, last, ⟨text.takeWhile p, List.takeWhile_append_dropWhile.symm, ?_⟩, hdrop⟩
    rw [strip_eq_self hink, htake, List.takeWhile_append_dropWhile]
  induction h with
  | @nil before text hblanks =>
    have hstop := takeWhile_of_head (head_behind_blanks hblank hblanks fun _ => (rfl : [].head?.any p = false))
    rw [List.append_nil] at hstop
    rw [hstop.1, hstop.2]
    exact ⟨rfl, before, .nil hblanks⟩
  | @ink before c blanks text text' hblanks hc hgap h ih =>
    cases hpc : p c with
    | true =>
      have hnil : blanks = [] := by
        by_contra hne
        have := hgap hne
        rw [hbefore, hp hpc] at this
        cases this
      rw [List.dropWhile_cons_of_pos hpc] at hends ⊢
      rw [hnil, List.nil_append, List.takeWhile_cons_of_pos hpc, List.takeWhile_cons_of_pos hpc,
        List.dropWhile_cons_of_pos hpc]
      obtain ⟨htake, hdrop⟩ := ih (hp hpc) hends
      exact ⟨congrArg (c :: ·) htake, hdrop⟩
    | false =>
      have hhead (rest : List Char) : (c :: rest).head?.any p = false := hpc
      have hstop := takeWhile_of_head (head_behind_blanks hblank hblanks fun _ => hhead text)
      have hstop' := takeWhile_of_head (hhead text')
      rw [hstop.1, hstop.2, hstop'.1, hstop'.2]
      exact ⟨rfl, before, .ink hblanks hc hgap h⟩
  | star =>
    have hstar : p '*' = false := by
      cases hpc : p '*' with
      | false => rfl
      | true => exact absurd (hp hpc) (by decide +kernel)
    rw [List.dropWhile_cons_of_neg (by simp [hstar])] at hends
    exact absurd rfl hends

/-! ### Reading derivatives -/

theorem ReadsBack.bind {read read' : List Char → Option (List Char)} (h : ReadsBack read) (h' : ReadsBack read') :
    ReadsBack fun text => (read text).bind read' where
  back hjoined hread := by
    obtain ⟨middle', hmiddle', hrest'⟩ := Option.bind_eq_some_iff.mp hread
    obtain ⟨middle, _, hmiddle, hreached⟩ := h.back hjoined hmiddle'
    obtain ⟨rest, last, hrest, hreached'⟩ := h'.back hreached.joined hrest'
    exact ⟨rest, last, Option.bind_eq_some_iff.mpr ⟨middle, hmiddle, hrest⟩, hreached.trans hreached'⟩

theorem Joined.back_expectSpaced (h : Joined before text text') (hsign : sign ≠ '*')
    (hread : expectSpaced sign text' = some rest') :
    ∃ rest, expectSpaced sign text = some rest ∧ Reached text text' (some sign) rest rest' := by
  rw [expectSpaced, h.trimLeft] at hread
  obtain rfl := eq_cons_of_expect hread
  obtain ⟨rest, htrim, hreached, -⟩ := h.step hsign
  exact ⟨rest, by simp [expectSpaced, htrim, expect], hreached⟩

theorem readsBack_expectSpaced (hsign : sign ≠ '*') : ReadsBack (expectSpaced sign) where
  back h hread := (h.back_expectSpaced hsign hread).imp fun _ h => ⟨_, h⟩

/-- A letter behind one that can go on with a word stands directly behind it. -/
theorem Joined.back_expect (h : Joined before text text') (hbefore : before.any clings = true)
    (hsign : clings sign = true) (hread : expect sign text' = some rest') :
    ∃ rest, expect sign text = some rest ∧ Reached text text' (some sign) rest rest' := by
  have hstar : sign ≠ '*' := by
    rintro rfl
    exact absurd hsign (by decide +kernel)
  obtain rfl := eq_cons_of_expect hread
  obtain ⟨rest, -, hreached, hdirect⟩ := h.step hstar
  rw [hbefore, hsign] at hdirect
  exact ⟨rest, by rw [hdirect rfl, expect, if_pos rfl], hreached⟩

theorem Joined.back_takeTime (h : Joined before text text') (hread : takeTime (Text.trimLeft text') = some rest') :
    ∃ rest t, (t = 't' ∨ t = 'T') ∧ takeTime (Text.trimLeft text) = some rest ∧ Reached text text' (some t) rest rest' := by
  rw [h.trimLeft] at hread
  cases text' with
  | nil => cases hread
  | cons t text' =>
    rw [takeTime_cons] at hread
    split at hread
    · rename_i ht
      cases hread
      obtain ⟨rest, htrim, hreached, -⟩ := h.step (by rcases ht with rfl | rfl <;> decide)
      exact ⟨rest, t, ht, by rw [htrim, takeTime_cons, if_pos ht], hreached⟩
    · cases hread

/-- Where the joined text goes on with no word behind the time, neither does the text. -/
theorem Joined.head {t : Char} (ht : t = 't' ∨ t = 'T') (h : Joined (some t) text text')
    (hhead : text'.head?.any isWord = false) : text.head?.any isWord = false := by
  cases h with
  | nil hblanks => exact List.append_nil text ▸ head_behind_blanks isWord_of_isBlank hblanks fun _ => rfl
  | ink hblanks => exact head_behind_blanks isWord_of_isBlank hblanks fun _ => hhead
  | star hblanks hc hplace =>
    refine head_behind_blanks isWord_of_isBlank hblanks fun hnil => ?_
    rcases hplace hnil with rfl | hbefore | ⟨hbefore, -⟩
    · exact isWord_of_isPunctuation (by decide)
    · rcases ht with rfl | rfl <;> cases hbefore
    · rcases ht with rfl | rfl <;> exact absurd hbefore (by decide)

theorem readsBack_takeDenominator : ReadsBack fun text => takeDenominator (Text.trimLeft text) where
  back {before text text' rest'} h hread := by
    rw [h.trimLeft] at hread
    cases text' with
    | nil => cases hread
    | cons c text' =>
      rw [takeDenominator_cons] at hread
      by_cases hopen : c = '('
      · rw [if_pos hopen] at hread
        obtain ⟨middle, htrim, hreached, -⟩ := h.step (by simp [hopen])
        obtain ⟨r₁', h₁', hread⟩ := Option.bind_eq_some_iff.mp hread
        obtain ⟨r₂', h₂', h₃'⟩ := Option.bind_eq_some_iff.mp hread
        obtain ⟨r₁, h₁, hreached₁⟩ := hreached.joined.back_expectSpaced (by decide) h₁'
        obtain ⟨r₂, t, -, h₂, hreached₂⟩ := hreached₁.joined.back_takeTime h₂'
        obtain ⟨r₃, h₃, hreached₃⟩ := hreached₂.joined.back_expectSpaced (by decide) h₃'
        refine ⟨r₃, _, ?_, hreached.trans (hreached₁.trans (hreached₂.trans hreached₃))⟩
        rw [htrim, takeDenominator_cons, if_pos hopen]
        exact Option.bind_eq_some_iff.mpr ⟨r₁, h₁, Option.bind_eq_some_iff.mpr ⟨r₂, h₂, h₃⟩⟩
      · rw [if_neg hopen] at hread
        by_cases hd : c = 'd'
        · rw [if_pos hd] at hread
          obtain ⟨middle, htrim, hreached, -⟩ := h.step (by simp [hd])
          obtain ⟨r₁', h₁', hread⟩ := Option.bind_eq_some_iff.mp hread
          split at hread
          · cases hread
          · rename_i hhead
            cases hread
            obtain ⟨r₁, t, ht, h₁, hreached₁⟩ := hreached.joined.back_takeTime h₁'
            have hhead := hreached₁.joined.head ht (by simpa using hhead)
            refine ⟨r₁, _, ?_, hreached.trans hreached₁⟩
            rw [htrim, takeDenominator_cons, if_neg hopen, if_pos hd]
            exact Option.bind_eq_some_iff.mpr ⟨r₁, h₁, by simp [hhead]⟩
        · rw [if_neg hd] at hread
          cases hread

theorem readsBack_takeOverTime : ReadsBack takeOverTime :=
  (readsBack_expectSpaced (by decide)).bind readsBack_takeDenominator

/-- A name that is not followed by a star is the same in the text. -/
theorem Joined.back_takeNameSpaced {name : List Char} (h : Joined before text text')
    (hread : takeNameSpaced text' = some (name, rest')) (hstar : rest'.head? ≠ some '*') :
    ∃ rest last, takeNameSpaced text = some (name, rest) ∧ Reached text text' last rest rest' := by
  rw [takeNameSpaced, h.trimLeft] at hread
  cases text' with
  | nil => cases hread
  | cons c text' =>
    rw [takeName] at hread
    split at hread
    · rename_i hstart
      cases hread
      have hword : isWord c = true := isWord_of_isNameStart hstart
      obtain ⟨middle, htrim, hreached, -⟩ := h.step (c := c) (by
        rintro rfl
        exact absurd hstart (by decide))
      obtain ⟨htake, last, hreached'⟩ := hreached.joined.run (p := isWord) (fun hc => by simp [clings, hc])
        (by simp [clings, hword]) hstar
      refine ⟨_, last, ?_, hreached.trans hreached'⟩
      rw [takeNameSpaced, htrim, takeName, if_pos hstart, htake]
    · cases hread

/-- What goes on with another sign goes on with no star. -/
theorem head_ne_of_expectSpaced (hsign : sign ≠ '*') (hread : expectSpaced sign text = some rest) :
    text.head? ≠ some '*' := by
  intro hhead
  cases text with
  | nil => cases hhead
  | cons c text =>
    rw [Option.some.inj hhead, expectSpaced, trimLeft_cons_of_not_isBlank (by decide)] at hread
    exact hsign (List.cons.inj (eq_cons_of_expect hread)).1.symm

theorem head_ne_of_takeNameSpaced {found : List Char × List Char} (hread : takeNameSpaced text = some found) :
    text.head? ≠ some '*' := by
  intro hhead
  cases text with
  | nil => cases hhead
  | cons c text =>
    rw [Option.some.inj hhead, takeNameSpaced, trimLeft_cons_of_not_isBlank (by decide), takeName,
      if_neg (by decide)] at hread
    cases hread

theorem head_ne_of_takeOverTime (hread : takeOverTime text = some rest) : text.head? ≠ some '*' := by
  obtain ⟨middle, hline, -⟩ := Option.bind_eq_some_iff.mp hread
  exact head_ne_of_expectSpaced (by decide) hline

theorem Joined.goes_trimLeft (h : Joined before text text') (hstar : text'.head? ≠ some '*') :
    Reached text text' before (Text.trimLeft text) text' := by
  cases h with
  | nil hblanks =>
    rw [trimLeft_eq_nil_iff.mpr hblanks]
    exact ⟨⟨text, by simp, by simp [strip_eq_nil_of_allBlank hblanks]⟩, .nil rfl⟩
  | @ink _ c blanks text text' hblanks hc hgap h =>
    rw [trimLeft_blanks hblanks hc]
    have hjoined : Joined before ([] ++ c :: text) (c :: text') := .ink rfl hc (fun hne => absurd rfl hne) h
    exact ⟨⟨blanks, rfl, by simp [strip_eq_nil_of_allBlank hblanks]⟩, hjoined⟩
  | star => exact absurd rfl hstar

/-- A parenthesis that may be there is read in the text if it is read in the joined one, where no star follows. -/
theorem Joined.goes_acceptSpaced (hsign : sign ≠ '*') (h : Joined before text text')
    (hstar : (acceptSpaced sign text').head? ≠ some '*') :
    ∃ last, Reached text text' last (acceptSpaced sign text) (acceptSpaced sign text') := by
  rw [acceptSpaced, h.trimLeft] at hstar
  rw [acceptSpaced, acceptSpaced, h.trimLeft]
  cases text' with
  | nil =>
    have hreached := h.goes_trimLeft hstar
    cases h with
    | nil hblanks =>
      rw [trimLeft_eq_nil_iff.mpr hblanks] at hreached ⊢
      exact ⟨before, hreached⟩
  | cons c text' =>
    by_cases hcs : c = sign
    · subst hcs
      obtain ⟨rest, htrim, hreached, -⟩ := h.step hsign
      have haccept (more : List Char) : accept c (c :: more) = more := by simp [accept, expect]
      rw [htrim, haccept, haccept]
      exact ⟨_, hreached⟩
    · have haccept (more : List Char) : accept sign (c :: more) = c :: more := by simp [accept, expect, hcs]
      rw [haccept] at hstar ⊢
      obtain ⟨rest, htrim, -⟩ := h.step (fun hc => hstar (congrArg some hc))
      have hreached := h.goes_trimLeft hstar
      rw [htrim] at hreached ⊢
      rw [haccept]
      exact ⟨_, hreached⟩

/-- A derivative that is read in the joined text is read in the text. -/
theorem Joined.back_takePlain {name : List Char} (h : Joined (some c) text text')
    (hread : takePlain (c :: text') = some (name, rest')) :
    ∃ rest last, takePlain (c :: text) = some (name, rest) ∧ Reached text text' last rest rest' := by
  simp only [takePlain, Option.bind_eq_bind, Option.bind_eq_some_iff] at hread ⊢
  obtain ⟨r₁', h₁', ⟨found, r₂'⟩, h₂', r₃', h₃', heq⟩ := hread
  cases heq
  obtain ⟨rfl, rfl⟩ := List.cons.inj (eq_cons_of_expect h₁')
  obtain ⟨r₂, _, h₂, hreached₂⟩ := h.back_takeNameSpaced h₂' (head_ne_of_takeOverTime h₃')
  obtain ⟨r₃, _, h₃, hreached₃⟩ := readsBack_takeOverTime.back hreached₂.joined h₃'
  exact ⟨r₃, _, ⟨text, by simp [expect], ⟨_, r₂⟩, h₂, r₃, h₃, rfl⟩, hreached₂.trans hreached₃⟩

theorem Joined.isSome_takeApplied (h : Joined (some c) text text') (hread : (takeApplied (c :: text')).isSome = true) :
    (takeApplied (c :: text)).isSome = true := by
  obtain ⟨found, hread⟩ := Option.isSome_iff_exists.mp hread
  simp only [takeApplied, Option.bind_eq_bind, Option.bind_eq_some_iff] at hread
  obtain ⟨r₁', h₁', r₂', h₂', ⟨name, r₃'⟩, h₃', r₄', h₄', r₅', h₅', -⟩ := hread
  obtain ⟨rfl, rfl⟩ := List.cons.inj (eq_cons_of_expect h₁')
  obtain ⟨r₂, h₂, hreached₂⟩ := h.back_expectSpaced (by decide) h₂'
  obtain ⟨r₃, _, h₃, hreached₃⟩ := hreached₂.joined.back_takeNameSpaced h₃' (head_ne_of_expectSpaced (by decide) h₄')
  obtain ⟨r₄, h₄, hreached₄⟩ := hreached₃.joined.back_expectSpaced (by decide) h₄'
  obtain ⟨r₅, _, h₅, -⟩ := readsBack_takeOverTime.back hreached₄.joined h₅'
  simp [takeApplied, expect, h₂, h₃, h₄, h₅]

theorem Joined.isSome_takeWrapped (h : Joined (some c) text text') (hread : (takeWrapped (c :: text')).isSome = true) :
    (takeWrapped (c :: text)).isSome = true := by
  obtain ⟨found, hread⟩ := Option.isSome_iff_exists.mp hread
  simp only [takeWrapped, Option.bind_eq_bind, Option.bind_eq_some_iff] at hread
  obtain ⟨r₁', h₁', r₂', h₂', ⟨name, r₃'⟩, h₃', r₄', h₄', r₅', h₅', -⟩ := hread
  obtain ⟨rfl, rfl⟩ := List.cons.inj (eq_cons_of_expect h₁')
  obtain ⟨r₂, h₂, hreached₂⟩ := h.back_expectSpaced (by decide) h₂'
  obtain ⟨_, hreached⟩ := hreached₂.joined.goes_acceptSpaced (by decide) (head_ne_of_takeNameSpaced h₃')
  obtain ⟨r₃, _, h₃, hreached₃⟩ := hreached.joined.back_takeNameSpaced h₃' (head_ne_of_expectSpaced (by decide) h₄')
  obtain ⟨r₄, h₄, hreached₄⟩ := hreached₃.joined.back_expectSpaced (by decide) h₄'
  obtain ⟨_, hreached₅⟩ := hreached₄.joined.goes_acceptSpaced (by decide) (head_ne_of_takeOverTime h₅')
  obtain ⟨r₅, _, h₅, -⟩ := readsBack_takeOverTime.back hreached₅.joined h₅'
  simp [takeWrapped, expect, h₂, h₃, h₄, h₅]

/-! ### Reading logarithms -/

/-- A group that is closed in the joined text is closed in the text. -/
theorem Joined.isSome_takeGroup (h : Joined before text text') :
    ∀ depth, (takeGroup depth text').isSome = true → (takeGroup depth text).isSome = true := by
  induction h with
  | nil => exact fun depth hread => by cases depth <;> cases hread
  | ink hblanks hc hgap h ih =>
    intro depth hread
    rw [takeGroup_run hblanks, Option.isSome_map]
    exact isSome_takeGroup_cons ih _ depth hread
  | star hblanks hc hplace h ih =>
    intro depth hread
    rw [takeGroup_cons, if_neg (by decide), if_neg (by decide), Option.isSome_map] at hread
    rw [takeGroup_run hblanks, Option.isSome_map]
    exact isSome_takeGroup_cons ih _ depth hread

theorem takeArgument_star (rest : List Char) : takeArgument ('*' :: rest) = none :=
  takeArgument_eq_none (by decide) (isArgumentChar_of_isPunctuation (by decide) (by decide) (by decide)) rest

theorem Joined.isSome_takeArgument (h : Joined before text text') (hread : (takeArgument text').isSome = true) :
    (takeArgument (Text.trimLeft text)).isSome = true := by
  cases text' with
  | nil => cases hread
  | cons c text' =>
    have hstar : c ≠ '*' := by
      rintro rfl
      rw [takeArgument_star] at hread
      cases hread
    obtain ⟨rest, htrim, hreached, -⟩ := h.step hstar
    rw [htrim]
    by_cases hopen : c = '('
    · subst hopen
      exact hreached.joined.isSome_takeGroup 0 hread
    · cases hc : isArgumentChar c with
      | true => exact takeArgument_of_isArgumentChar hc rest
      | false =>
        rw [takeArgument_eq_none hopen hc] at hread
        cases hread

theorem clings_of_isBaseChar (hc : isBaseChar c = true) : clings c = true := by
  have hargument := isArgumentChar_of_isBaseChar hc
  rw [isArgumentChar, Bool.or_eq_true] at hargument
  rcases hargument with h | h <;> simp [clings, h]

/-- Where a logarithm is read in the joined text, one is read in the text. -/
theorem Joined.isSome_takeLogarithm (h : Joined (some c) text text')
    (hread : (takeLogarithm (c :: text')).isSome = true) : (takeLogarithm (c :: text)).isSome = true := by
  by_cases hl : c = 'l'
  · subst hl
    rw [isSome_takeLogarithm_cons] at hread ⊢
    obtain ⟨middle', hline', hne, hargument⟩ := hread
    obtain ⟨r₁', h₁', hline'⟩ := Option.bind_eq_some_iff.mp hline'
    obtain ⟨r₂', h₂', h₃'⟩ := Option.bind_eq_some_iff.mp hline'
    obtain ⟨r₁, h₁, hreached₁⟩ := h.back_expect (by decide +kernel) (by decide +kernel) h₁'
    obtain ⟨r₂, h₂, hreached₂⟩ := hreached₁.joined.back_expect (by decide +kernel) (by decide +kernel) h₂'
    obtain ⟨r₃, h₃, hreached₃⟩ := hreached₂.joined.back_expectSpaced (by decide) h₃'
    rw [hreached₃.joined.trimLeft] at hne hargument
    have hstar : middle'.head? ≠ some '*' := by
      intro hhead
      cases middle' with
      | nil => cases hhead
      | cons d middle' =>
        rw [Option.some.inj hhead] at hne
        exact hne rfl
    have hends : (middle'.dropWhile isBaseChar).head? ≠ some '*' := by
      intro hhead
      generalize middle'.dropWhile isBaseChar = behind at hargument hhead
      cases behind with
      | nil => cases hhead
      | cons d behind =>
        rw [Option.some.inj hhead, trimLeft_cons_of_not_isBlank (by decide), takeArgument_star] at hargument
        cases hargument
    obtain ⟨htake, last, hbehind⟩ :=
      (hreached₃.joined.goes_trimLeft hstar).joined.run clings_of_isBaseChar (by decide +kernel) hends
    rw [hbehind.joined.trimLeft] at hargument
    refine ⟨r₃, ?_, htake ▸ hne, hbehind.joined.isSome_takeArgument hargument⟩
    exact Option.bind_eq_some_iff.mpr ⟨r₁, h₁, Option.bind_eq_some_iff.mpr ⟨r₂, h₂, h₃⟩⟩
  · rw [takeLogarithm_of_ne hl] at hread
    cases hread

/-! ### What is at rest -/

theorem isBlank_of_mem_derivative {name : List Char} (hname : isName name = true) :
    ∀ d ∈ derivative name, isBlank d = false := by
  intro d hd
  rw [derivative, List.mem_append, List.mem_cons] at hd
  rcases hd with (rfl | hd) | hd
  · decide
  · exact isBlank_of_isWord (isWord_of_isName hname d hd)
  · simp only [List.mem_cons, List.not_mem_nil, or_false] at hd
    rcases hd with rfl | rfl | rfl <;> decide

/-- What is at rest in a text is so in the joined one. -/
theorem Joined.still (h : Joined (some c) text text') (hink : isBlank c = false) (still : Still (c :: text)) :
    Still (c :: text') where
  wrapped := Option.not_isSome_iff_eq_none.mp
    (mt h.isSome_takeWrapped (Option.not_isSome_iff_eq_none.mpr still.wrapped))
  applied := Option.not_isSome_iff_eq_none.mp
    (mt h.isSome_takeApplied (Option.not_isSome_iff_eq_none.mpr still.applied))
  plain := by
    cases hread : takePlain (c :: text') with
    | none => rfl
    | some found =>
      obtain ⟨name, rest'⟩ := found
      obtain ⟨rest, _, hread', ⟨front, hfront, hfront'⟩, -⟩ := h.back_takePlain hread
      have hplain := still.plain
      rw [hread'] at hplain
      have hform : c :: text = derivative name ++ rest := of_decide_eq_true hplain
      rw [hfront, ← List.cons_append] at hform
      have hform : c :: front = derivative name := List.append_cancel_right hform
      have hstrip : strip (c :: front) = c :: strip front := by
        rw [← List.singleton_append, strip_append, strip_eq_self (by simpa using hink), List.singleton_append]
      refine decide_eq_true ?_
      rw [hfront', ← List.cons_append, ← hstrip, hform,
        strip_eq_self (isBlank_of_mem_derivative (readsDerivatives_takePlain.isName hread))]
  logarithm := Option.not_isSome_iff_eq_none.mp
    (mt h.isSome_takeLogarithm (Option.not_isSome_iff_eq_none.mpr still.logarithm))

theorem still_star (rest : List Char) : Still ('*' :: rest) where
  wrapped := takeWrapped_of_ne (by decide)
  applied := takeApplied_of_ne (by decide)
  plain := by
    rw [takePlain_of_ne (by decide)]
    rfl
  logarithm := takeLogarithm_of_ne (by decide)

/-- If all is at rest in a text, all is in the joined one: behind a star a word begins only where one has begun before, or
where nothing is replaced. -/
theorem Joined.atRest (h : Joined before text text') : Everywhere AtRest before text → Everywhere AtRest before text' := by
  have behind_blanks {before : Option Char} {c : Char} {blanks text : List Char} (hblanks : allBlank blanks = true)
      (hne : blanks ≠ []) (hrest : Everywhere AtRest before (blanks ++ c :: text)) : Still (c :: text) := by
    obtain ⟨inner, d, rfl⟩ := (List.eq_nil_or_concat' blanks).resolve_left hne
    have hd : isBlank d = true := List.all_eq_true.mp hblanks d (by simp)
    have hplace := hrest.drop.1
    rw [lastOf_append] at hplace
    exact hplace (by simp [lastOf, isWord_of_isBlank hd])
  induction h with
  | nil => exact fun _ => trivial
  | @ink before c blanks text text' hblanks hc hgap h ih =>
    intro hrest
    refine ⟨fun hplace => h.still hc ?_, ih hrest.drop.2⟩
    by_cases hnil : blanks = []
    · subst hnil
      exact hrest.1 hplace
    · exact behind_blanks hblanks hnil hrest
  | @star before c blanks text text' hblanks hc hplace h ih =>
    intro hrest
    refine ⟨fun _ => still_star _, fun _ => h.still hc ?_, ih hrest.drop.2⟩
    by_cases hnil : blanks = []
    · have hstart := hplace hnil
      subst hnil
      rcases hstart with rfl | rfl | ⟨-, still⟩
      · exact hrest.1 (by simp [isWord_of_isPunctuation (show isPunctuation '(' = true by decide)])
      · exact hrest.1 (by simp [isWord_of_isPunctuation (show isPunctuation ')' = true by decide)])
      · exact still
    · exact behind_blanks hblanks hnil hrest

end

/-! ### Normal forms -/

/-- Whether nothing is replaced behind the numbers among tokens. -/
def StillBehindNumbers : List Token → Prop
  | [] => True
  | .number _ :: rest => Still (textOf rest) ∧ StillBehindNumbers rest
  | _ :: rest => StillBehindNumbers rest

instance StillBehindNumbers.decidable : ∀ tokens, Decidable (StillBehindNumbers tokens)
  | [] => inferInstanceAs (Decidable True)
  | token :: rest =>
    have := StillBehindNumbers.decidable rest
    match token with
    | .number _ => inferInstanceAs (Decidable (Still (textOf rest) ∧ StillBehindNumbers rest))
    | .name _ | .space _ | .symbol _ => inferInstanceAs (Decidable (StillBehindNumbers rest))

/-- The last token before a place, if any, and the last character of it. -/
inductive EndsWith : Option Token → Option Char → Prop
  | start : EndsWith none none
  | name {f : List Char} {before : Option Char} : EndsWith (some (.name f)) before
  | number {digits : List Char} {before : Option Char}
    (hbefore : (before.any fun d => isAsciiDigit d || d == '.') = true) : EndsWith (some (.number digits)) before
  | symbol {c : Char} : EndsWith (some (.symbol c)) (some c)

section
variable {isFunction : String → Bool} {token : Token} {list rest : List Token} {previous : Option Token}
  {before : Option Char} {c : Char} {inner behind text text' : List Char}

theorem StillBehindNumbers.tail (h : StillBehindNumbers (token :: rest)) : StillBehindNumbers rest := by
  cases token with
  | number => exact h.2
  | name => exact h
  | space => exact h
  | symbol => exact h

theorem StillBehindNumbers.drop (h : StillBehindNumbers (list ++ rest)) : StillBehindNumbers rest := by
  induction list with
  | nil => exact h
  | cons token list ih => exact ih h.tail

theorem TokensApart.drop (h : TokensApart isFunction (list ++ rest)) : TokensApart isFunction rest := by
  induction list with
  | nil => exact h
  | cons token list ih => exact ih h.tail

theorem IsToken.endsWith (h : IsToken token c inner behind) (hink : token.isSpace = false) :
    EndsWith (some token) (lastOf (some c) inner) := by
  cases h with
  | space => cases hink
  | name => exact .name
  | symbol => exact .symbol
  | number hc hname hbegins htext parts =>
    obtain ⟨front, d, hlast⟩ := (List.eq_nil_or_concat' (c :: inner)).resolve_left (by simp)
    have hbefore : lastOf (some c) inner = some d := by
      rw [show lastOf (some c) inner = lastOf none (c :: inner) from rfl, hlast, lastOf_append]
      rfl
    rw [hbefore]
    exact .number (by simpa using parts.last (htext.symm.trans hlast))

/-- The characters of a token stay together. -/
theorem Joined.append (hinner : ∀ d ∈ inner, isBlank d = false) (h : Joined (lastOf before inner) text text') :
    Joined before (inner ++ text) (inner ++ text') := by
  induction inner generalizing before with
  | nil => exact h
  | cons d inner ih =>
    exact @Joined.ink _ d [] _ _ rfl (hinner d (List.mem_cons_self ..)) (fun hne => absurd rfl hne)
      (ih (fun e he => hinner e (List.mem_cons_of_mem _ he)) h)

/-- Between tokens that are no factors blanks have stood that no word could go on over. -/
theorem TokensApart.gap {p : Token} {blanks : List Char}
    (apart : TokensApart isFunction (p :: .space blanks :: token :: rest)) (hends : EndsWith (some p) before)
    (htoken : IsToken token c inner behind) (hink : token.isSpace = false)
    (hfactors : areFactors isFunction true p token = false) : (before.any clings && clings c) = false := by
  rw [Bool.and_eq_false_iff]
  rcases apart.not_operands hfactors with hp | hoperand
  · cases hends with
    | name => cases hp
    | number => cases hp
    | symbol => exact .inl apart.not_stray.1
  · cases htoken with
    | space => cases hink
    | name => cases hoperand
    | number => cases hoperand
    | symbol => exact .inr apart.not_stray.2

/-- Factors without blanks between meet at a parenthesis, or behind a number. -/
theorem place_of_areFactors {p : Token} (still : StillBehindNumbers (p :: token :: rest)) (hends : EndsWith (some p) before)
    (htoken : IsToken token c inner behind) (htext : textOf rest = behind)
    (hfactors : areFactors isFunction false p token = true) : c = '(' ∨ before = some ')' ∨
      (before.any fun d => isAsciiDigit d || d == '.') = true ∧ Still (c :: (inner ++ behind)) := by
  cases hends with
  | @number digits before hbefore =>
    refine .inr (.inr ⟨hbefore, ?_⟩)
    have hstill := still.1
    rwa [textOf_cons, htoken.text, htext] at hstill
  | @symbol d =>
    refine .inr (.inl ?_)
    by_contra hd
    rw [areFactors_symbol_left (fun heq => hd (congrArg some heq))] at hfactors
    cases hfactors
  | name =>
    cases htoken with
    | space => simp [areFactors] at hfactors
    | name => simp [areFactors] at hfactors
    | number => simp [areFactors] at hfactors
    | symbol =>
      refine .inl ?_
      by_contra hc
      rw [areFactors_symbol_right hc] at hfactors
      cases hfactors

/-- Whether the starred tokens of a text join it behind blanks, whatever token stands before them. -/
def Joins (isFunction : String → Bool) (text : List Char) (list : List Token) : Prop :=
  ∀ {previous : Option Token} {before : Option Char} {blanks : Option (List Char)}, EndsWith previous before →
    (∀ run ∈ blanks, IsRun run) → (blanks.isSome = true → text.head?.any isBlank = false) →
    TokensApart isFunction (previous.toList ++ ((blanks.map Token.space).toList ++ list)) →
    StillBehindNumbers (previous.toList ++ ((blanks.map Token.space).toList ++ list)) →
    Joined before (blanks.getD [] ++ text) (textOf (starredTokens isFunction previous blanks.isSome list))

theorem allBlank_getD {blanks : Option (List Char)} (hblanks : ∀ run ∈ blanks, IsRun run) :
    allBlank (blanks.getD []) = true := by
  cases blanks with
  | none => rfl
  | some run => exact (hblanks run rfl).2

theorem Joins.space (ih : Joins isFunction behind list) (htoken : IsToken token c inner behind)
    (hspace : token.isSpace = true) : Joins isFunction (c :: (inner ++ behind)) (token :: list) := by
  intro previous before blanks hends hblanks hhead apart still
  cases htoken with
  | space hc hinner hmore =>
    cases blanks with
    | some run =>
      have := hhead rfl
      simp [hc] at this
    | none =>
      rw [starredTokens_cons_space rfl]
      refine @ih previous before (some (c :: inner)) hends (fun run hrun => ?_) (fun _ => hmore) apart still
      obtain rfl := Option.some.inj hrun
      exact ⟨by simp, by simpa [allBlank, hc] using hinner⟩
  | name => cases hspace
  | number => cases hspace
  | symbol => cases hspace

theorem Joins.ink (ih : Joins isFunction behind list) (htoken : IsToken token c inner behind)
    (hspace : token.isSpace = false) (hlist : textOf list = behind) :
    Joins isFunction (c :: (inner ++ behind)) (token :: list) := by
  intro previous before blanks hends hblanks _ apart still
  have hink := htoken.ink hspace
  have hc : isBlank c = false := hink c (List.mem_cons_self ..)
  have hrest : Joined (some c) (inner ++ behind) (inner ++ textOf (starredTokens isFunction (some token) false list)) :=
    .append (fun d hd => hink d (List.mem_cons_of_mem _ hd)) <|
      @ih (some token) _ none (htoken.endsWith hspace) (by simp) (by simp) apart.drop.drop still.drop.drop
  rw [starredTokens_cons_ink hspace]
  split
  · rename_i hfactors
    rw [List.singleton_append, textOf_cons, textOf_cons, htoken.text]
    refine .star (allBlank_getD hblanks) hc (fun hnil => ?_) hrest
    cases blanks with
    | some run => exact absurd hnil (hblanks run rfl).1
    | none =>
      cases previous with
      | none => cases hfactors
      | some p => exact place_of_areFactors still hends htoken hlist hfactors
  · rename_i hfactors
    rw [List.nil_append, textOf_cons, htoken.text]
    refine .ink (allBlank_getD hblanks) hc (fun hne => ?_) hrest
    cases blanks with
    | none => exact absurd rfl hne
    | some run =>
      cases previous with
      | none =>
        cases hends
        rfl
      | some p => exact apart.gap hends htoken hspace (Bool.eq_false_iff.mpr hfactors)

/-- The starred tokens of a text join it. -/
theorem joins_tokens (text : List Char) : Joins isFunction text (tokens text) := by
  refine token_induction (motive := Joins isFunction) ?_ ?_ text
  · intro previous before blanks _ hblanks _ _ _
    refine .nil ?_
    rw [List.append_nil]
    exact allBlank_getD hblanks
  · intro c inner behind token htoken ih
    cases hspace : token.isSpace with
    | true => exact Joins.space ih htoken hspace
    | false => exact Joins.ink ih htoken hspace (textOf_tokens behind)

theorem Joined.mem (h : Joined before text text') : ∀ d ∈ text', d ∈ text ∨ d = '*' := by
  induction h with
  | nil => simp
  | ink hblanks hc hgap h ih =>
    intro d hd
    rcases List.mem_cons.mp hd with rfl | hd
    · exact .inl (by simp)
    · exact (ih d hd).imp_left fun hd => by simp [hd]
  | star hblanks hc hplace h ih =>
    intro d hd
    simp only [List.mem_cons] at hd
    rcases hd with rfl | rfl | hd
    · exact .inr rfl
    · exact .inl (by simp)
    · exact (ih d hd).imp_left fun hd => by simp [hd]

/-- Whether what stands in a text stays separate in its normal form: the spellings that are replaced, the tokens without
the blanks, and the numbers from what is kept only because it stands behind them. -/
structure Separate (isFunction : String → Bool) (text : List Char) : Prop where
  spellings : Clear text
  tokens : TokensApart isFunction (tokens (canonicalText text))
  numbers : StillBehindNumbers (Notation.tokens (canonicalText text))

instance (text : List Char) : Decidable (Separate isFunction text) :=
  decidable_of_iff (Clear text ∧ TokensApart isFunction (tokens (canonicalText text)) ∧
    StillBehindNumbers (tokens (canonicalText text)))
    ⟨fun h => ⟨h.1, h.2.1, h.2.2⟩, fun h => ⟨h.spellings, h.tokens, h.numbers⟩⟩

/-- The normal form joins the canonical notation. -/
theorem Separate.joined (separate : Separate isFunction text) :
    Joined none (canonicalText text) (normalText isFunction text) := by
  rw [normalText, strip_insertStars]
  exact @joins_tokens isFunction (canonicalText text) none none none .start (by simp) (by simp) separate.tokens
    separate.numbers

theorem Separate.canonicalText_normalText (separate : Separate isFunction text) :
    canonicalText (normalText isFunction text) = normalText isFunction text := by
  obtain ⟨settled, logarithms⟩ :=
    atRest_everywhere_iff.mp (separate.joined.atRest (atRest_everywhere_iff.mpr separate.spellings.settled))
  refine canonicalText_eq_self (fun d hd => ?_) settled logarithms
  rcases separate.joined.mem d hd with hd | rfl
  · exact isDash_of_mem_canonicalText d hd
  · decide

/-- The normal form of a text is its own. -/
theorem Separate.normalText_normalText (separate : Separate isFunction text) :
    normalText isFunction (normalText isFunction text) = normalText isFunction text := calc
  normalText isFunction (normalText isFunction text)
  _ = strip (insertStars isFunction (canonicalText (normalText isFunction text))) := rfl
  _ = strip (insertStars isFunction (normalText isFunction text)) := by rw [separate.canonicalText_normalText]
  _ = normalText isFunction text := separate.tokens.insertStars_strip

end

/-- An equation is in its normal form after one step if what stands in it stays separate. -/
theorem normalize_idempotent (isFunction : String → Bool) (equation : String)
    (separate : Separate isFunction equation.toList) :
    normalize isFunction (normalize isFunction equation) = normalize isFunction equation := by
  rw [normalize, normalize, String.toList_ofList, separate.normalText_normalText]

/-- For one with a derivative and a logarithm in other spellings, and with products of numbers, names and groups. -/
theorem normalize_idempotent_products :
    Separate knownFunctions.contains "d x / dt = 2x (y + 1) \u2212 sin(3 y) log_2 (x)".toList ∧
      normalize knownFunctions.contains "d x / dt = 2x (y + 1) \u2212 sin(3 y) log_2 (x)" =
        "dx/dt=2*x*(y+1)-sin(3*y)*log(x,2)" ∧
      normalize knownFunctions.contains (normalize knownFunctions.contains
        "d x / dt = 2x (y + 1) \u2212 sin(3 y) log_2 (x)") =
        normalize knownFunctions.contains "d x / dt = 2x (y + 1) \u2212 sin(3 y) log_2 (x)" := by
  have separate : Separate knownFunctions.contains "d x / dt = 2x (y + 1) \u2212 sin(3 y) log_2 (x)".toList := by
    decide +kernel
  exact ⟨separate, by decide +kernel, normalize_idempotent _ _ separate⟩

/-- Without the blank between them a number and a point become one number, which the second step multiplies with what
follows. -/
theorem normalize_point : ¬ ∀ (isFunction : String → Bool) (equation : String),
    normalize isFunction (normalize isFunction equation) = normalize isFunction equation := by
  intro idempotent
  have point : normalize knownFunctions.contains (normalize knownFunctions.contains "2 . x") ≠
      normalize knownFunctions.contains "2 . x" := by decide +kernel
  exact point (idempotent _ _)

end OdeSystem.Notation
