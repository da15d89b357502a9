import Mathlib.Data.List.Basic
import OdeSystem.Proofs.Text.Blank

/-!
Texts in another layout: the same characters in the same order, but any run of blanks may be another one, of other
blanks and of another length. Where the one text has a blank the other has one as well, so all that does not look into
runs of blanks sees the same in both.
-/

namespace OdeSystem.Text

/-- Whether a text is a run of blanks. -/
def IsRun (text : List Char) : Prop := text ≠ [] ∧ allBlank text = true

/-- Texts that differ in their runs of blanks only. -/
inductive Respaced : List Char → List Char → Prop
  | nil : Respaced [] []
  | ink {c : Char} {text text' : List Char} (ink : isBlank c = false) (rest : Respaced text text') :
    Respaced (c :: text) (c :: text')
  | blanks {run run' text text' : List Char} (isRun : IsRun run) (isRun' : IsRun run') (rest : Respaced text text') :
    Respaced (run ++ text) (run' ++ text')

/-- Lists of texts that differ in their runs of blanks only. -/
abbrev RespacedTexts : List String → List String → Prop :=
  List.Forall₂ fun text text' => Respaced text.toList text'.toList

theorem ne_of_isBlank {c d : Char} (hc : isBlank c = true) (hd : isBlank d = false) : c ≠ d := by
  rintro rfl
  rw [hc] at hd
  cases hd

theorem isRun_singleton {c : Char} (hc : isBlank c = true) : IsRun [c] := ⟨by simp, by simp [allBlank, hc]⟩

theorem isRun_cons {c : Char} (hc : isBlank c = true) (rest : List Char) : IsRun (c :: rest.takeWhile isBlank) := by
  refine ⟨by simp, ?_⟩
  rw [allBlank, List.all_cons, hc, List.all_takeWhile, Bool.and_self]

theorem IsRun.reverse {run : List Char} (h : IsRun run) : IsRun run.reverse :=
  ⟨by simpa using h.1, by simpa [allBlank] using h.2⟩

theorem IsRun.trimLeft_append {run : List Char} (h : IsRun run) (text : List Char) :
    trimLeft (run ++ text) = trimLeft text :=
  trimLeft_append_of_eq_nil (trimLeft_eq_nil_iff.mpr h.2) text

theorem IsRun.length_lt {run : List Char} (h : IsRun run) (text : List Char) : text.length < (run ++ text).length := by
  have := List.length_pos_iff.mpr h.1
  rw [List.length_append]
  omega

theorem length_trimLeft_le (text : List Char) : (trimLeft text).length ≤ text.length :=
  (List.dropWhile_suffix _).length_le

/-- Any two runs of blanks are of two layouts. -/
theorem IsRun.respaced {run run' : List Char} (h : IsRun run) (h' : IsRun run') : Respaced run run' := by
  have hboth := Respaced.blanks h h' .nil
  rwa [List.append_nil, List.append_nil] at hboth

theorem IsRun.exists_cons {run : List Char} (h : IsRun run) :
    ∃ c rest, run = c :: rest ∧ isBlank c = true ∧ allBlank rest = true := by
  obtain ⟨hne, hblank⟩ := h
  cases run with
  | nil => exact absurd rfl hne
  | cons c rest =>
    simp only [allBlank, List.all_cons, Bool.and_eq_true] at hblank
    exact ⟨c, rest, rfl, hblank.1, hblank.2⟩

namespace Respaced
variable {text text' more more' : List Char} {c : Char}

/-! ### The relation -/

protected theorem refl (text : List Char) : Respaced text text := by
  induction text with
  | nil => exact .nil
  | cons c rest ih =>
    cases hc : isBlank c with
    | false => exact .ink hc ih
    | true => exact .blanks (isRun_singleton hc) (isRun_singleton hc) ih

protected theorem symm (h : Respaced text text') : Respaced text' text := by
  induction h with
  | nil => exact .nil
  | ink hc _ ih => exact .ink hc ih
  | blanks hrun hrun' _ ih => exact .blanks hrun' hrun ih

theorem append (h : Respaced text text') (hmore : Respaced more more') : Respaced (text ++ more) (text' ++ more') := by
  induction h with
  | nil => exact hmore
  | ink hc _ ih => exact .ink hc ih
  | blanks hrun hrun' _ ih =>
    rw [List.append_assoc, List.append_assoc]
    exact .blanks hrun hrun' ih

theorem cons (c : Char) (h : Respaced text text') : Respaced (c :: text) (c :: text') := (Respaced.refl [c]).append h

theorem reverse (h : Respaced text text') : Respaced text.reverse text'.reverse := by
  induction h with
  | nil => exact .nil
  | @ink c text text' _ _ ih =>
    rw [List.reverse_cons, List.reverse_cons]
    exact ih.append (.refl [c])
  | blanks hrun hrun' _ ih =>
    rw [List.reverse_append, List.reverse_append]
    exact ih.append (hrun.reverse.respaced hrun'.reverse)

/-- Behind a character that is no blank the layout goes on. -/
theorem cons_left (h : Respaced (c :: text) text') (hc : isBlank c = false) :
    ∃ rest, text' = c :: rest ∧ Respaced text rest := by
  generalize hcons : c :: text = whole at h
  cases h with
  | nil => cases hcons
  | ink _ hrest =>
    cases hcons
    exact ⟨_, rfl, hrest⟩
  | blanks hrun =>
    obtain ⟨d, rest, rfl, hd, -⟩ := hrun.exists_cons
    rw [(List.cons.inj hcons).1, hd] at hc
    cases hc

/-! ### Parts of texts -/

theorem trimLeft (h : Respaced text text') : Respaced (trimLeft text) (trimLeft text') := by
  induction h with
  | nil => exact .nil
  | ink hc hrest =>
    rw [trimLeft_cons_of_not_isBlank hc, trimLeft_cons_of_not_isBlank hc]
    exact .ink hc hrest
  | blanks hrun hrun' _ ih => rwa [hrun.trimLeft_append, hrun'.trimLeft_append]

/-- The blanks before the one text are blanks before the other. -/
theorem leading (h : Respaced text text') : Respaced (text.takeWhile isBlank) (text'.takeWhile isBlank) := by
  cases h with
  | nil => exact .nil
  | ink hc =>
    rw [List.takeWhile_cons_of_neg (by simp [hc]), List.takeWhile_cons_of_neg (by simp [hc])]
    exact .nil
  | @blanks run run' text text' hrun hrun' _ =>
    have hleading {run : List Char} (h : IsRun run) (text : List Char) : IsRun ((run ++ text).takeWhile isBlank) := by
      obtain ⟨c, rest, rfl, hc, -⟩ := h.exists_cons
      rw [List.cons_append, List.takeWhile_cons_of_pos hc]
      exact isRun_cons hc _
    exact (hleading hrun text).respaced (hleading hrun' text')

theorem trim (h : Respaced text text') : Respaced (trim text) (trim text') := h.trimLeft.reverse.trimLeft.reverse

theorem isEmpty_eq (h : Respaced text text') : text.isEmpty = text'.isEmpty := by
  cases h with
  | nil => rfl
  | ink => rfl
  | blanks hrun hrun' =>
    obtain ⟨_, _, rfl, -⟩ := hrun.exists_cons
    obtain ⟨_, _, rfl, -⟩ := hrun'.exists_cons
    rfl

theorem allBlank_eq (h : Respaced text text') : allBlank text = allBlank text' := by
  have hiff : Text.trimLeft text = [] ↔ Text.trimLeft text' = [] := by
    rw [← List.isEmpty_iff, ← List.isEmpty_iff, h.trimLeft.isEmpty_eq]
  rw [Bool.eq_iff_iff, ← trimLeft_eq_nil_iff, ← trimLeft_eq_nil_iff, hiff]

theorem strip_eq (h : Respaced text text') : strip text = strip text' := by
  induction h with
  | nil => rfl
  | @ink c text text' _ _ ih =>
    rw [← List.singleton_append, strip_append, ih, ← strip_append, List.singleton_append]
  | blanks hrun hrun' _ ih =>
    rw [strip_append, strip_append, strip_eq_nil_of_allBlank hrun.2, strip_eq_nil_of_allBlank hrun'.2, ih]

/-- A text of characters that are no blanks has no other layout. -/
theorem eq_of_ink (ink : ∀ c ∈ text, isBlank c = false) (ink' : ∀ c ∈ text', isBlank c = false)
    (h : Respaced text text') : text = text' := by
  rw [← strip_eq_self ink, ← strip_eq_self ink', h.strip_eq]

/-- Whether a text begins with certain characters, none of them blank, is the same in any layout. -/
theorem isPrefixOf_eq (h : Respaced text text') (word : List Char) (ink : word.any isBlank = false) :
    word.isPrefixOf text = word.isPrefixOf text' := by
  induction word generalizing text text' with
  | nil => rfl
  | cons d word ih =>
    obtain ⟨hd, hword⟩ := Bool.or_eq_false_iff.mp (List.any_cons.symm.trans ink)
    cases h with
    | nil => rfl
    | ink _ hrest =>
      rw [List.isPrefixOf_cons_cons, List.isPrefixOf_cons_cons, ih hrest hword]
    | blanks hrun hrun' =>
      obtain ⟨c, _, rfl, hc, -⟩ := hrun.exists_cons
      obtain ⟨c', _, rfl, hc', -⟩ := hrun'.exists_cons
      rw [List.cons_append, List.cons_append, List.isPrefixOf_cons_cons, List.isPrefixOf_cons_cons,
        beq_false_of_ne (ne_of_isBlank hc hd).symm, beq_false_of_ne (ne_of_isBlank hc' hd).symm, Bool.false_and,
        Bool.false_and]

theorem isSuffixOf_eq (h : Respaced text text') (word : List Char) (ink : word.any isBlank = false) :
    word.isSuffixOf text = word.isSuffixOf text' :=
  h.reverse.isPrefixOf_eq word.reverse (List.any_reverse.trans ink)

section
variable {p : Char → Bool} (hp : ∀ {c}, isBlank c = true → p c = false)
include hp

/-- A text begins alike in any layout, as far as characters that are no blanks go. -/
theorem any_head?_eq (h : Respaced text text') : text.head?.any p = text'.head?.any p := by
  cases h with
  | nil => rfl
  | ink => rfl
  | blanks hrun hrun' =>
    obtain ⟨c, _, rfl, hc, -⟩ := hrun.exists_cons
    obtain ⟨d, _, rfl, hd, -⟩ := hrun'.exists_cons
    simp [hp hc, hp hd]

/-- A run of characters that are no blanks is the same in any layout. -/
theorem span (h : Respaced text text') :
    text.takeWhile p = text'.takeWhile p ∧ Respaced (text.dropWhile p) (text'.dropWhile p) := by
  induction h with
  | nil => exact ⟨rfl, .nil⟩
  | @ink c text text' hc hrest ih =>
    cases hpc : p c with
    | true => simpa [hpc] using ih
    | false => simpa [hpc] using hrest.cons c
  | @blanks run run' text text' hrun hrun' hrest =>
    have hstop {run : List Char} (h : IsRun run) (text : List Char) :
        (run ++ text).takeWhile p = [] ∧ (run ++ text).dropWhile p = run ++ text := by
      obtain ⟨c, rest, rfl, hc, -⟩ := h.exists_cons
      simp [hp hc]
    rw [(hstop hrun text).1, (hstop hrun text).2, (hstop hrun' text').1, (hstop hrun' text').2]
    exact ⟨rfl, .blanks hrun hrun' hrest⟩

end

theorem map {f : Char → Char} (hf : ∀ c, isBlank (f c) = isBlank c) (h : Respaced text text') :
    Respaced (text.map f) (text'.map f) := by
  induction h with
  | nil => exact .nil
  | @ink c _ _ hc _ ih => exact .ink ((hf c).trans hc) ih
  | @blanks run run' _ _ hrun hrun' _ ih =>
    have hmap {run : List Char} (h : IsRun run) : IsRun (run.map f) :=
      ⟨by simpa using h.1, by simpa [allBlank, hf] using h.2⟩
    rw [List.map_append, List.map_append]
    exact .blanks (hmap hrun) (hmap hrun') ih

/-! ### Texts in two parts -/

theorem trimLeft_append_cons (hc : isBlank c = false) (front rest : List Char) :
    Text.trimLeft (front ++ c :: rest) = Text.trimLeft front ++ c :: rest := by
  by_cases hfront : Text.trimLeft front = []
  · rw [trimLeft_append_of_eq_nil hfront, hfront, trimLeft_cons_of_not_isBlank hc, List.nil_append]
  · rw [trimLeft_append_of_ne_nil hfront]

/-- What two texts have in front of parts that begin with no blank can be taken away. -/
theorem cancel_left {front front' rest rest' : List Char} {c' : Char} (hfront : Respaced front front')
    (hc : isBlank c = false) (hc' : isBlank c' = false)
    (h : Respaced (front ++ c :: rest) (front' ++ c' :: rest')) : Respaced (c :: rest) (c' :: rest') := by
  -- A run of blanks may go on behind the one that is taken away, so it is taken away to its end.
  suffices both : (Respaced (front ++ c :: rest) (front' ++ c' :: rest') → Respaced (c :: rest) (c' :: rest')) ∧
      (Respaced (Text.trimLeft front ++ c :: rest) (Text.trimLeft front' ++ c' :: rest') →
        Respaced (c :: rest) (c' :: rest')) from both.1 h
  clear h
  induction hfront with
  | nil => exact ⟨id, id⟩
  | @ink d text text' hd _ ih =>
    have hink (h : Respaced (d :: text ++ c :: rest) (d :: text' ++ c' :: rest')) :
        Respaced (c :: rest) (c' :: rest') := by
      obtain ⟨_, heq, hrest⟩ := h.cons_left hd
      obtain rfl := (List.cons.inj heq).2
      exact ih.1 hrest
    rw [trimLeft_cons_of_not_isBlank hd, trimLeft_cons_of_not_isBlank hd]
    exact ⟨hink, hink⟩
  | blanks hrun hrun' _ ih =>
    rw [hrun.trimLeft_append, hrun'.trimLeft_append]
    refine ⟨fun h => ih.2 ?_, ih.2⟩
    have htrim := h.trimLeft
    rwa [List.append_assoc, List.append_assoc, hrun.trimLeft_append, hrun'.trimLeft_append,
      trimLeft_append_cons hc, trimLeft_append_cons hc'] at htrim

/-- What two texts have behind parts that end with no blank can be taken away, and these end alike. -/
theorem cancel_right {front front' rest rest' : List Char} {c' : Char} (hrest : Respaced rest rest')
    (hc : isBlank c = false) (hc' : isBlank c' = false)
    (h : Respaced (front ++ c :: rest) (front' ++ c' :: rest')) : Respaced front front' ∧ c = c' := by
  have hreverse := h.reverse
  rw [List.reverse_append, List.reverse_append, List.reverse_cons, List.reverse_cons, List.append_assoc,
    List.append_assoc, List.singleton_append, List.singleton_append] at hreverse
  obtain ⟨_, heq, hfront⟩ := (cancel_left hrest.reverse hc hc' hreverse).cons_left hc
  obtain ⟨hlast, rfl⟩ := List.cons.inj heq
  have hturned := hfront.reverse
  rw [List.reverse_reverse, List.reverse_reverse] at hturned
  exact ⟨hturned, hlast.symm⟩

/-- Up to the first blank a text is the same in any layout. -/
theorem exists_ink_append (h : Respaced text text') :
    ∃ word rest rest', text = word ++ rest ∧ text' = word ++ rest' ∧ Respaced rest rest' ∧
      (∀ c ∈ rest.head?, isBlank c = true) ∧ ∀ c ∈ rest'.head?, isBlank c = true := by
  have hspan := h.span (p := fun c => !isBlank c) (by simp)
  have hstop (text : List Char) : ∀ c ∈ (text.dropWhile fun c => !isBlank c).head?, isBlank c = true := by
    intro c hc
    by_contra hink
    have := List.head?_dropWhile_not (fun c => !isBlank c) text
    rw [hc] at this
    simp_all
  refine ⟨text.takeWhile fun c => !isBlank c, text.dropWhile fun c => !isBlank c, text'.dropWhile fun c => !isBlank c,
    List.takeWhile_append_dropWhile.symm, ?_, hspan.2, hstop text, hstop text'⟩
  rw [hspan.1]
  exact List.takeWhile_append_dropWhile.symm

end Respaced

/-! ### Layouts by computation -/

/-- The text with every run of blanks made a single space. -/
def squeeze : List Char → List Char
  | [] => []
  | c :: rest =>
    if isBlank c then if rest.head?.any isBlank then squeeze rest else ' ' :: squeeze rest else c :: squeeze rest

section
variable {text text' : List Char}

theorem squeeze_cons_of_isBlank {c : Char} (h : isBlank c = true) (text : List Char) :
    squeeze (c :: text) = ' ' :: squeeze (trimLeft text) := by
  induction text generalizing c with
  | nil => simp [squeeze, h, trimLeft]
  | cons d rest ih =>
    cases hd : isBlank d with
    | false => simp [squeeze, h, hd, trimLeft_cons_of_not_isBlank hd]
    | true =>
      rw [trimLeft_cons_of_isBlank hd, ← ih hd, squeeze]
      simp [h, hd]

theorem squeeze_cons_of_not_isBlank {c : Char} (h : isBlank c = false) (text : List Char) :
    squeeze (c :: text) = c :: squeeze text := by
  rw [squeeze, if_neg (by simp [h])]

theorem squeeze_ne_nil (c : Char) (rest : List Char) : squeeze (c :: rest) ≠ [] := by
  cases hc : isBlank c with
  | true => simp [squeeze_cons_of_isBlank hc]
  | false => simp [squeeze_cons_of_not_isBlank hc]

theorem IsRun.squeeze_append {run : List Char} (h : IsRun run) (text : List Char) :
    squeeze (run ++ text) = ' ' :: squeeze (trimLeft text) := by
  obtain ⟨c, rest, rfl, hc, hrest⟩ := h.exists_cons
  rw [List.cons_append, squeeze_cons_of_isBlank hc, trimLeft_append_of_eq_nil (trimLeft_eq_nil_iff.mpr hrest)]

theorem Respaced.squeeze_eq (h : Respaced text text') : squeeze text = squeeze text' := by
  -- A run may go on in what follows it, so the induction is on the text behind its first blanks as well.
  suffices both : squeeze text = squeeze text' ∧ squeeze (Text.trimLeft text) = squeeze (Text.trimLeft text') from
    both.1
  induction h with
  | nil => exact ⟨rfl, rfl⟩
  | ink hc _ ih =>
    rw [trimLeft_cons_of_not_isBlank hc, trimLeft_cons_of_not_isBlank hc, squeeze_cons_of_not_isBlank hc,
      squeeze_cons_of_not_isBlank hc, ih.1]
    exact ⟨rfl, rfl⟩
  | blanks hrun hrun' _ ih =>
    rw [hrun.squeeze_append, hrun'.squeeze_append, hrun.trimLeft_append, hrun'.trimLeft_append, ih.2]
    exact ⟨rfl, rfl⟩

theorem respaced_of_squeeze_eq (h : squeeze text = squeeze text') : Respaced text text' := by
  have hspace : isBlank ' ' = true := by decide
  induction hn : text.length using Nat.strongRecOn generalizing text text' with
  | ind n ih =>
    cases text with
    | nil =>
      cases text' with
      | nil => exact .nil
      | cons c' rest' => exact absurd h.symm (squeeze_ne_nil c' rest')
    | cons c rest =>
      cases text' with
      | nil => exact absurd h (squeeze_ne_nil c rest)
      | cons c' rest' =>
        cases hc : isBlank c <;> cases hc' : isBlank c'
        · rw [squeeze_cons_of_not_isBlank hc, squeeze_cons_of_not_isBlank hc'] at h
          obtain ⟨rfl, hrest⟩ := List.cons.inj h
          exact .ink hc (ih rest.length (by rw [← hn]; simp) hrest rfl)
        · rw [squeeze_cons_of_not_isBlank hc, squeeze_cons_of_isBlank hc'] at h
          exact absurd (List.cons.inj h).1.symm (ne_of_isBlank hspace hc)
        · rw [squeeze_cons_of_isBlank hc, squeeze_cons_of_not_isBlank hc'] at h
          exact absurd (List.cons.inj h).1 (ne_of_isBlank hspace hc')
        · rw [squeeze_cons_of_isBlank hc, squeeze_cons_of_isBlank hc'] at h
          have hlength : (trimLeft rest).length < n := by
            have := length_trimLeft_le rest
            rw [← hn, List.length_cons]
            omega
          rw [← @List.takeWhile_append_dropWhile _ isBlank rest, ← @List.takeWhile_append_dropWhile _ isBlank rest']
          exact .blanks (isRun_cons hc rest) (isRun_cons hc' rest') (ih _ hlength (List.cons.inj h).2 rfl)

/-- Texts are in two layouts exactly if they are the same with every run of blanks made a single space. -/
theorem respaced_iff : Respaced text text' ↔ squeeze text = squeeze text' :=
  ⟨Respaced.squeeze_eq, respaced_of_squeeze_eq⟩

instance : Decidable (Respaced text text') := decidable_of_iff _ respaced_iff.symm

end

end OdeSystem.Text
