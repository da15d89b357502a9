import OdeSystem.Proofs.Notation.Blind
import OdeSystem.Proofs.Notation.Patch

/-!
What the searches for derivatives leave behind. Each of them is a rewriting, so nothing that one of them looks for comes
into being by what it or another one writes: after the search for numerators in parentheses there are none, and neither
are there later on. What the last search would find in the end are derivatives in their one form.
-/

namespace OdeSystem.Notation

open Text

/-! ### Searches as rewritings -/

/-- What is read at a place, given the character before it, if a derivative can begin there. -/
def readAt {β : Type} (atWord : Bool) (take : List Char → Option β) (before : Option Char)
    (text : List Char) : Option β :=
  if atWord && !atBoundary before text then none else take text

section
variable {β : Type} {take : List Char → Option β} {before : Option Char} {c : Char} {text : List Char}

theorem readAt_eq_none {atWord : Bool} (h : take text = none) : readAt atWord take before text = none := by
  unfold readAt
  split
  · rfl
  · exact h

theorem readAt_eq_none_iff : readAt true take before text = none ↔ (atBoundary before text = true → take text = none) := by
  cases hword : atBoundary before text <;> simp [readAt, hword]

theorem readAt_word (hc : isWord c = true) :
    readAt true take before (c :: text) = if before.any isWord then none else take (c :: text) := by
  cases hbefore : before.any isWord <;> simp [readAt, atBoundary, hbefore, hc]

theorem of_readAt_word (hc : isWord c = true) {found : β} (h : readAt true take before (c :: text) = some found) :
    before.any isWord = false ∧ take (c :: text) = some found := by
  rw [readAt_word hc] at h
  split at h
  · cases h
  · rename_i hbefore
    exact ⟨by simpa using hbefore, h⟩

end

/-- A reader of derivatives: it begins with a character that is no blank, stops behind one, and gives a name. -/
structure ReadsDerivatives (take : List Char → Option (List Char × List Char)) : Prop where
  ink : ∀ {c rest found}, take (c :: rest) = some found → isBlank c = false
  isName : ∀ {text name behind}, take text = some (name, behind) → isName name = true
  stops : ∀ {text name behind}, take text = some (name, behind) → StopsAt text behind

theorem readsDerivatives_takeWrapped : ReadsDerivatives takeWrapped where
  ink {c rest found} h := by
    simp only [takeWrapped, Option.bind_eq_bind, Option.bind_eq_some_iff] at h
    obtain ⟨_, h, -⟩ := h
    rw [(List.cons.inj (eq_cons_of_expect h)).1]
    decide
  isName {text name behind} h := by
    simp only [takeWrapped, Option.bind_eq_bind, Option.bind_eq_some_iff] at h
    obtain ⟨_, -, _, -, ⟨found, _⟩, hname, _, -, _, -, heq⟩ := h
    cases heq
    exact isName_of_takeName hname
  stops := blind_takeWrapped.stops

theorem readsDerivatives_takeApplied : ReadsDerivatives takeApplied where
  ink {c rest found} h := by
    simp only [takeApplied, Option.bind_eq_bind, Option.bind_eq_some_iff] at h
    obtain ⟨_, h, -⟩ := h
    rw [(List.cons.inj (eq_cons_of_expect h)).1]
    decide
  isName {text name behind} h := by
    simp only [takeApplied, Option.bind_eq_bind, Option.bind_eq_some_iff] at h
    obtain ⟨_, -, _, -, ⟨found, _⟩, hname, _, -, _, -, heq⟩ := h
    cases heq
    exact isName_of_takeName hname
  stops := blind_takeApplied.stops

theorem readsDerivatives_takePlain : ReadsDerivatives takePlain where
  ink {c rest found} h := by
    simp only [takePlain, Option.bind_eq_bind, Option.bind_eq_some_iff] at h
    obtain ⟨_, h, -⟩ := h
    rw [(List.cons.inj (eq_cons_of_expect h)).1]
    decide
  isName {text name behind} h := by
    simp only [takePlain, Option.bind_eq_bind, Option.bind_eq_some_iff] at h
    obtain ⟨_, -, ⟨found, _⟩, hname, _, -, heq⟩ := h
    cases heq
    exact isName_of_takeName hname
  stops := blind_takePlain.stops

/-- A search keeps what it does not find, and writes the one form for what it does. -/
def Rewriting.search (atWord : Bool) {take : List Char → Option (List Char × List Char)} (reads : ReadsDerivatives take) :
    Rewriting where
  kept before text := readAt atWord take before text = none
  patch before region written rest _ := ∃ name, written = derivative name ∧ region ≠ [] ∧ notOfTime name = true ∧
    readAt atWord take before (region ++ rest) = some (name, rest)
  isPatch := by
    rintro before region written rest rest' ⟨name, rfl, hne, htime, hread⟩
    obtain ⟨c, region, rfl⟩ := List.exists_cons_of_ne_nil hne
    unfold readAt at hread
    split at hread
    · cases hread
    · exact .derivative (reads.ink hread) (reads.isName hread) htime

theorem lastOf_derivative (before : Option Char) (name : List Char) : lastOf before (derivative name) = some 't' := by
  rw [derivative, lastOf_append]
  rfl

section
variable {atWord : Bool} {take : List Char → Option (List Char × List Char)} {before : Option Char} {text : List Char}

theorem derivativeFinder_eq (c : Char) (rest : List Char) :
    derivativeFinder atWord take before c rest =
      (readAt atWord take before (c :: rest)).map fun found => (derivative found.1, rest.length - found.2.length) := by
  unfold derivativeFinder readAt
  split <;> rfl

/-- Whether all that is read in a text is a derivative of something else than time. -/
def TimeIsUndifferentiated (atWord : Bool) (take : List Char → Option (List Char × List Char)) :
    Option Char → List Char → Prop :=
  Everywhere fun before text => (readAt atWord take before text).all fun found => notOfTime found.1

/-- A search follows a text from one find to the next: what holds of a text and its result follows from what is kept and
from what is written. -/
theorem search_induction (reads : ReadsDerivatives take) {motive : Option Char → List Char → List Char → Prop}
    (nil : ∀ before, motive before [] [])
    (kept : ∀ before c rest rest', readAt atWord take before (c :: rest) = none → motive (some c) rest rest' →
      motive before (c :: rest) (c :: rest'))
    (found : ∀ before region behind behind' name, region ≠ [] →
      readAt atWord take before (region ++ behind) = some (name, behind) → motive (lastOf before region) behind behind' →
      motive before (region ++ behind) (derivative name ++ behind'))
    (before : Option Char) (text : List Char) :
    motive before text (replaceFrom (derivativeFinder atWord take) before text) := by
  refine @pieces_induction _ _ (replaceRule (derivativeFinder atWord take)) (fun before text =>
    motive before text (replaceFrom (derivativeFinder atWord take) before text)) nil (fun before c rest ih => ?_) before text
  rw [replaceFrom, pieces_cons]
  unfold replaceRule at ih ⊢
  rw [derivativeFinder_eq] at ih ⊢
  cases hread : readAt atWord take before (c :: rest) with
  | none =>
    rw [hread] at ih
    exact kept before c rest _ hread ih
  | some read =>
    obtain ⟨name, behind⟩ := read
    have htake : take (c :: rest) = some (name, behind) := by
      unfold readAt at hread
      split at hread
      · cases hread
      · exact hread
    obtain ⟨front, last, htext, -⟩ := reads.stops htake
    have hcut : c :: rest = (front ++ [last]) ++ behind := by simpa using htext
    obtain ⟨hdrop, hregion, -⟩ := cut_append (by simp) hcut
    have hlast : (front ++ [last]).getLast? = lastOf before (front ++ [last]) := by
      obtain ⟨d, more, hfront⟩ := List.exists_cons_of_ne_nil (show front ++ [last] ≠ [] by simp)
      rw [hfront, lastOf_cons_eq_getLast?]
    rw [hread] at ih
    simp only [Option.map_some, hdrop, hregion, hlast] at ih ⊢
    rw [hcut] at hread ⊢
    exact found before (front ++ [last]) behind _ name (by simp) hread ih

instance (before : Option Char) (text : List Char) : Decidable (TimeIsUndifferentiated atWord take before text) :=
  inferInstanceAs (Decidable (Everywhere _ before text))

theorem patched_replaceFrom (reads : ReadsDerivatives take) (before : Option Char) (text : List Char) :
    TimeIsUndifferentiated atWord take before text → ∀ before' : Option Char,
      (before'.any isWord = false → before.any isWord = false) →
      Patched (.search atWord reads) before before' text (replaceFrom (derivativeFinder atWord take) before text) := by
  refine search_induction reads (motive := fun before text text' => TimeIsUndifferentiated atWord take before text →
    ∀ before' : Option Char, (before'.any isWord = false → before.any isWord = false) →
      Patched (.search atWord reads) before before' text text') (fun _ _ _ _ => .nil) ?_ ?_ before text
  · intro before c rest rest' hread ih htime before' hbefore
    exact .keep hread (fun _ => hbefore) (ih htime.2 _ id)
  · intro before region behind behind' name hne hread ih htime before' hbefore
    have hname : notOfTime name = true := by
      obtain ⟨c, region, rfl⟩ := List.exists_cons_of_ne_nil hne
      have hfirst : (readAt atWord take before (c :: region ++ behind)).all (fun found => notOfTime found.1) = true :=
        htime.1
      rwa [hread] at hfirst
    refine .patch ⟨name, rfl, hne, hname, hread⟩ (ih htime.drop _ fun hword => ?_)
    rw [lastOf_derivative, Option.any_some, isWord_of_isIdentifierChar (by decide)] at hword
    cases hword

/-- A search that finds nothing but derivatives in their one form leaves a text as it is. -/
theorem replaceFrom_eq_of_everywhere (reads : ReadsDerivatives take) (before : Option Char) (text : List Char) :
    Everywhere (fun before text => ∀ name behind, readAt atWord take before text = some (name, behind) →
      text = derivative name ++ behind) before text → replaceFrom (derivativeFinder atWord take) before text = text := by
  refine search_induction reads (motive := fun before text text' => Everywhere (fun before text => ∀ name behind,
    readAt atWord take before text = some (name, behind) → text = derivative name ++ behind) before text → text' = text)
    (fun _ _ => rfl) ?_ ?_ before text
  · intro before c rest rest' _ ih hone
    rw [ih hone.2]
  · intro before region behind behind' name hne hread ih hone
    have hregion : region ++ behind = derivative name ++ behind := by
      obtain ⟨c, region, rfl⟩ := List.exists_cons_of_ne_nil hne
      exact hone.1 name behind hread
    rw [ih hone.drop, hregion]

end

/-! ### Nothing new is found -/

/-- A place in the one form of a derivative at which a differential can begin: its own, or that of time. -/
theorem split_derivative {name shorter longer : List Char} (hname : isName name = true)
    (h : derivative name = shorter ++ 'd' :: longer) (before : Option Char) :
    (shorter = [] ∧ longer = name ++ ['/', 'd', 't']) ∨ (lastOf before shorter).any isWord = true ∨
      (lastOf before shorter = some '/' ∧ longer = ['t']) := by
  have hwords : ∀ c ∈ 'd' :: name, isWord c = true := fun c hc => by
    rcases List.mem_cons.mp hc with rfl | hc
    · exact isWord_of_isIdentifierChar (by decide)
    · exact isWord_of_isName hname c hc
  rw [derivative] at h
  rcases List.append_eq_append_iff.mp h with ⟨between, rfl, htail⟩ | ⟨between, hfront, htail⟩
  · -- Behind the name there is one differential, that of time.
    rcases between with _ | ⟨c, _ | ⟨c', between⟩⟩
    · cases htail
    · cases htail
      exact .inr (.inr ⟨by rw [lastOf_append]; rfl, rfl⟩)
    · exfalso
      simp only [List.cons_append, List.cons.injEq] at htail
      obtain ⟨-, -, htail⟩ := htail
      cases between with
      | nil => cases htail
      | cons d between => simp at htail
  · rcases List.eq_nil_or_concat' shorter with rfl | ⟨inner, c, rfl⟩
    · refine .inl ⟨rfl, ?_⟩
      rw [List.nil_append] at h
      exact (List.cons.inj h).2.symm
    · refine .inr (.inl ?_)
      rw [lastOf_append]
      exact hwords c (by rw [hfront]; simp)

/-- No derivative with its numerator in parentheses is read in a text. -/
def NoneWrapped : Option Char → List Char → Prop := Everywhere fun _ text => takeWrapped text = none

/-- No derivative with its variable in parentheses is read in a text. -/
def NoneApplied : Option Char → List Char → Prop :=
  Everywhere fun before text => readAt true takeApplied before text = none

/-- All derivatives without parentheses in their numerators that are read in a text are in their one form. -/
def OneForm : Option Char → List Char → Prop :=
  Everywhere fun before text => ∀ name behind, readAt true takePlain before text = some (name, behind) →
    text = derivative name ++ behind

section
variable {r : Rewriting} {before before' : Option Char} {c : Char} {text text' name shorter longer : List Char}

theorem takeWrapped_of_ne (hc : c ≠ '(') : takeWrapped (c :: text) = none := by simp [takeWrapped, expect, hc]

theorem takeApplied_of_ne (hc : c ≠ 'd') : takeApplied (c :: text) = none := by simp [takeApplied, expect, hc]

theorem takePlain_of_ne (hc : c ≠ 'd') : takePlain (c :: text) = none := by simp [takePlain, expect, hc]

theorem takeWrapped_kept (h : Patched r before before' (c :: text) (c :: text')) (hold : takeWrapped (c :: text) = none) :
    takeWrapped (c :: text') = none := by
  cases hread : takeWrapped (c :: text') with
  | none => rfl
  | some found =>
    obtain ⟨rest, _, _, hread', -⟩ := h.back_takeWrapped hread
    rw [hold] at hread'
    cases hread'

theorem takeApplied_kept (hword : c = 'd' ∨ c = 'l' → before'.any isWord = false → before.any isWord = false)
    (h : Patched r before before' (c :: text) (c :: text')) (hold : readAt true takeApplied before (c :: text) = none) :
    readAt true takeApplied before' (c :: text') = none := by
  by_cases hc : c = 'd'
  · subst hc
    have hd : isWord 'd' = true := isWord_of_isIdentifierChar (by decide)
    rw [readAt_word hd] at hold ⊢
    cases hbefore' : before'.any isWord with
    | true => rfl
    | false =>
      rw [hword (.inl rfl) hbefore', if_neg Bool.false_ne_true] at hold
      rw [if_neg Bool.false_ne_true]
      cases hread : takeApplied ('d' :: text') with
      | none => rfl
      | some found =>
        obtain ⟨rest, _, _, hread', -⟩ := h.back_takeApplied hread
        rw [hold] at hread'
        cases hread'
  · exact readAt_eq_none (takeApplied_of_ne hc)

/-- In the one form of a derivative no other begins that has parentheses. -/
theorem takeWrapped_inside (hname : isName name = true) (hsplit : derivative name = shorter ++ c :: longer) :
    takeWrapped (c :: (longer ++ text)) = none := by
  have hopen : '(' ∉ derivative name := by
    have hinner : '(' ∉ name := not_mem_of_words (isWord_of_isName hname) (isWord_of_isPunctuation (by decide))
    simp [derivative, hinner]
  have hc : c ≠ '(' := by
    rintro rfl
    exact hopen (by rw [hsplit]; simp)
  exact takeWrapped_of_ne hc

theorem takeApplied_inside (hname : isName name = true) (hsplit : derivative name = shorter ++ c :: longer) :
    readAt true takeApplied (lastOf before shorter) (c :: (longer ++ text)) = none := by
  by_cases hc : c = 'd'
  · subst hc
    have hopen : isWord '(' = false := isWord_of_isPunctuation (by decide)
    have hd : isWord 'd' = true := isWord_of_isIdentifierChar (by decide)
    rcases split_derivative hname hsplit before with ⟨rfl, rfl⟩ | hword | ⟨-, rfl⟩
    · refine readAt_eq_none ?_
      cases name with
      | nil => cases hname
      | cons e name =>
        have he : isWord e = true := isWord_of_isName hname e (List.mem_cons_self ..)
        simp [takeApplied, expect, expectSpaced_word he hopen]
    · rw [readAt_word hd, if_pos hword]
    · have ht : isWord 't' = true := isWord_of_isIdentifierChar (by decide)
      refine readAt_eq_none ?_
      simp [takeApplied, expect, expectSpaced_word ht hopen]
  · exact readAt_eq_none (takeApplied_of_ne hc)

/-- If neither its last word nor a fraction goes on behind it, nothing but itself is read in the one form of a
derivative. -/
theorem takePlain_inside (hname : isName name = true) (hhead : text.head?.any isWord = false)
    (hover : takeOverTime text = none) (hsplit : derivative name = shorter ++ c :: longer) {found behind : List Char}
    (hread : readAt true takePlain (lastOf before shorter) (c :: (longer ++ text)) = some (found, behind)) :
    c :: (longer ++ text) = derivative found ++ behind := by
  have hd : isWord 'd' = true := isWord_of_isIdentifierChar (by decide)
  by_cases hc : c = 'd'
  · subst hc
    rw [readAt_word hd] at hread
    split at hread
    · cases hread
    · rename_i hbefore
      rcases split_derivative hname hsplit before with ⟨rfl, rfl⟩ | hword | ⟨-, rfl⟩
      · have hslash : isWord '/' = false := isWord_of_isPunctuation (by decide)
        have htake : takeNameSpaced (name ++ ['/', 'd', 't'] ++ text) = some (name, '/' :: 'd' :: 't' :: text) := by
          rw [List.append_assoc, takeNameSpaced, trimLeft_of_isName hname]
          exact takeName_of_isName hname hslash
        have htime : takeOverTime ('/' :: 'd' :: 't' :: text) = some text := by
          simp [takeOverTime, expectSpaced, trimLeft_cons_of_not_isBlank (show isBlank '/' = false by decide), expect,
            trimLeft_cons_of_not_isBlank (show isBlank 'd' = false by decide), takeDenominator_cons,
            trimLeft_cons_of_not_isBlank (show isBlank 't' = false by decide), takeTime_cons, hhead]
        simp only [takePlain, expect, if_true, Option.bind_eq_bind, Option.bind_some, htake, htime] at hread
        cases hread
        simp [derivative]
      · rw [hword] at hbefore
        cases hbefore rfl
      · have ht : isName ['t'] = true := by decide
        have htake : takeNameSpaced (['t'] ++ text) = some (['t'], text) := by
          rw [takeNameSpaced, trimLeft_of_isName ht]
          exact takeName_of_isName ht hhead
        rw [List.singleton_append] at htake hread
        simp [takePlain, expect, htake, hover] at hread
  · rw [readAt_eq_none (takePlain_of_ne hc)] at hread
    cases hread

end

/-! ### After a search -/

section
variable {before before' : Option Char} {text text' : List Char} {atWord : Bool}
  {take : List Char → Option (List Char × List Char)} {reads : ReadsDerivatives take}

theorem isName_of_search {region written rest rest' : List Char}
    (h : (Rewriting.search atWord reads).patch before region written rest rest') :
    ∃ name, written = derivative name ∧ isName name = true := by
  obtain ⟨name, rfl, -, -, hread⟩ := h
  unfold readAt at hread
  split at hread
  · cases hread
  · exact ⟨name, rfl, reads.isName hread⟩

/-- What a search keeps of the first kind of spellings is what it finds of them itself, or what had been there. -/
theorem Patched.noneWrapped (h : Patched (.search atWord reads) before before' text text')
    (hold : Everywhere (fun before text => readAt atWord take before text = none → takeWrapped text = none) before text) :
    NoneWrapped before' text' := by
  refine h.everywhere hold (fun hkept hnone hword h => takeWrapped_kept (.keep hkept hword h) (hnone hkept)) ?_
  intro before before' region written rest rest' hpatch _ _ hrest
  obtain ⟨name, rfl, hname⟩ := isName_of_search hpatch
  exact everywhere_append (fun shorter c longer hsplit => takeWrapped_inside hname hsplit) hrest

theorem Patched.noneApplied (h : Patched (.search atWord reads) before before' text text')
    (hold : Everywhere (fun before text => readAt atWord take before text = none →
      readAt true takeApplied before text = none) before text) : NoneApplied before' text' := by
  refine h.everywhere hold (fun hkept hnone hword h => takeApplied_kept hword (.keep hkept hword h) (hnone hkept)) ?_
  intro before before' region written rest rest' hpatch _ _ hrest
  obtain ⟨name, rfl, hname⟩ := isName_of_search hpatch
  exact everywhere_append (fun shorter c longer hsplit => takeApplied_inside hname hsplit) hrest

/-- Whether a text goes on a word or a fraction that ends before it. -/
def goesOn (text : List Char) : Bool := text.head?.any isWord || (takeOverTime text).isSome

/-- Reads a derivative behind a differential sign that stands alone, with blanks between. -/
def takeAlone (text : List Char) : Option (List Char × List Char) :=
  (expect 'd' text).bind fun rest => if rest.head?.any isBlank then takePlain (trimLeft rest) else none

/-- Whether the derivatives without parentheses in their numerators that are read in a text stand apart: they are not
of time, no word and no fraction goes on behind them, and no differential sign stands alone before them. -/
structure StandApart (before : Option Char) (text : List Char) : Prop where
  time : TimeIsUndifferentiated true takePlain before text
  behind : Everywhere (fun before text => (readAt true takePlain before text).all fun found => !goesOn found.2) before text
  alone : Everywhere (fun before text => readAt true takeAlone before text = none) before text

instance (before : Option Char) (text : List Char) : Decidable (StandApart before text) :=
  decidable_of_iff (TimeIsUndifferentiated true takePlain before text ∧
    Everywhere (fun before text => (readAt true takePlain before text).all fun found => !goesOn found.2) before text ∧
    Everywhere (fun before text => readAt true takeAlone before text = none) before text)
    ⟨fun h => ⟨h.1, h.2.1, h.2.2⟩, fun h => ⟨h.time, h.behind, h.alone⟩⟩

theorem of_readAt_plain {found : List Char × List Char} (h : readAt true takePlain before text = some found) :
    ∃ rest, text = 'd' :: rest ∧ before.any isWord = false ∧ takePlain text = some found := by
  have hd : isWord 'd' = true := isWord_of_isIdentifierChar (by decide)
  cases text with
  | nil =>
    unfold readAt at h
    split at h <;> cases h
  | cons c rest =>
    by_cases hc : c = 'd'
    · subst hc
      obtain ⟨hbefore, htake⟩ := of_readAt_word hd h
      exact ⟨rest, rfl, hbefore, htake⟩
    · rw [readAt_eq_none (takePlain_of_ne hc)] at h
      cases h

/-- Where the old text goes on with no word, neither does the new one. -/
theorem Patched.head_of_plain (h : Patched (.search true readsDerivatives_takePlain) before before' text text')
    (hhead : text.head?.any isWord = false) : text'.head?.any isWord = false := by
  cases h with
  | nil => rfl
  | keep => exact hhead
  | patch hpatch h =>
    obtain ⟨name, rfl, hne, -, hread⟩ := hpatch
    obtain ⟨rest, htext, -, -⟩ := of_readAt_plain hread
    rw [htext] at hhead
    exact absurd (isWord_of_isIdentifierChar (by decide)) (Bool.eq_false_iff.mp hhead)

/-- A text that begins with more than what is left without its leading blanks begins with a blank. -/
theorem head_isBlank_of_trimLeft {front : List Char} (htext : text = front ++ trimLeft text) (hne : front ≠ []) :
    text.head?.any isBlank = true := by
  cases text with
  | nil =>
    rw [List.nil_eq_append_iff] at htext
    exact absurd htext.1 hne
  | cons c text =>
    by_contra hc
    have hsame : trimLeft (c :: text) = c :: text := trimLeft_cons_of_not_isBlank (by simpa using hc)
    rw [hsame] at htext
    exact hne (List.self_eq_append_left.mp htext)

/-- A derivative behind blanks is read behind a differential sign that stands alone. -/
theorem takeAlone_of_takePlain {front : List Char} {found : List Char × List Char} (htext : text = front ++ trimLeft text)
    (hne : front ≠ []) (h : takePlain (trimLeft text) = some found) : takeAlone ('d' :: text) = some found := by
  simp only [takeAlone, expect, if_true, Option.bind_some, head_isBlank_of_trimLeft htext hne, h]

/-- Where the old text does not go on over time, neither does the new one. -/
theorem Patched.takeOverTime_eq_none {r : Rewriting} (h : Patched r before before' text text')
    (hover : takeOverTime text = none) : takeOverTime text' = none := by
  cases hread : takeOverTime text' with
  | none => rfl
  | some _ =>
    obtain ⟨_, _, _, hread', -⟩ := transports_takeOverTime.back h hread
    rw [hover] at hread'
    cases hread'

/-- A differential sign that the last search keeps begins no derivative afterwards: what would be found would have been
found before, or the name behind the sign runs into another derivative and the sign stands alone. -/
theorem Patched.differential_kept
    (h : Patched (.search true readsDerivatives_takePlain) before before' ('d' :: text) ('d' :: text'))
    (hkept : takePlain ('d' :: text) = none) (halone : takeAlone ('d' :: text) = none) : takePlain ('d' :: text') = none := by
  cases htake : takePlain ('d' :: text') with
  | none => rfl
  | some found =>
    exfalso
    rcases h.back_takePlain htake with ⟨rest, _, _, hread, -⟩ | ⟨region, written, rest, rest', htext, -, hpatch⟩ |
      ⟨after, after', last, last', hafter, -, hgoes, word, region, written, rest, rest', hwords, htrim, -, hpatch⟩
    · rw [hkept] at hread
      cases hread
    · obtain ⟨_, -, -, -, hread⟩ := hpatch
      obtain ⟨_, -, -, htake'⟩ := of_readAt_plain hread
      rw [← htext, hkept] at htake'
      cases htake'
    · obtain ⟨-, rfl⟩ := List.cons.inj hafter
      obtain ⟨_, -, -, -, hread⟩ := hpatch
      obtain ⟨between, hbetween, -, rfl⟩ := hgoes.exists_between
      obtain ⟨_, -, hlast, htake'⟩ := of_readAt_plain hread
      obtain rfl : word = [] := by
        rcases List.eq_nil_or_concat' word with rfl | ⟨inner, e, rfl⟩
        · rfl
        · rw [lastOf_append, show lastOf _ [e] = some e from rfl, Option.any_some, hwords e (by simp)] at hlast
          cases hlast
      rw [List.nil_append] at htrim
      have hblank : between ≠ [] := by
        rintro rfl
        exact Bool.false_ne_true (hlast.symm.trans (isWord_of_isIdentifierChar (by decide)))
      rw [takeAlone_of_takePlain hbetween hblank (htrim ▸ htake')] at halone
      cases halone

/-- After the last search all that it would find is in the one form. -/
theorem Patched.oneForm (h : Patched (.search true readsDerivatives_takePlain) before before' text text')
    (apart : StandApart before text) : OneForm before' text' := by
  have hd : isWord 'd' = true := isWord_of_isIdentifierChar (by decide)
  refine h.everywhere (apart.behind.and apart.alone) ?_ ?_
  · -- Nothing is found where a character is kept.
    intro before before' c text text' hkept hapart hword hrest name behind hread
    obtain ⟨_, htext', hbefore', htake⟩ := of_readAt_plain hread
    obtain ⟨rfl, rfl⟩ := List.cons.inj htext'
    have hbefore := hword (.inl rfl) hbefore'
    have hnone : takePlain ('d' :: text) = none := by
      have hsearch : readAt true takePlain before ('d' :: text) = none := hkept
      rwa [readAt_word hd, if_neg (by simp [hbefore])] at hsearch
    have halone : takeAlone ('d' :: text) = none := by
      have hplace := hapart.2
      rwa [readAt_word hd, if_neg (by simp [hbefore])] at hplace
    have hpatched : Patched (.search true readsDerivatives_takePlain) before before' ('d' :: text) ('d' :: text') :=
      .keep hkept hword hrest
    rw [hpatched.differential_kept hnone halone] at htake
    cases htake
  · intro before before' region written rest rest' hpatch hold hrest hone
    obtain ⟨found, rfl, hname⟩ := isName_of_search hpatch
    obtain ⟨found', hsame, hne, -, hread'⟩ := hpatch
    have hbehind : (readAt true takePlain before (region ++ rest)).all (fun found => !goesOn found.2) = true := by
      obtain ⟨d, region, rfl⟩ := List.exists_cons_of_ne_nil hne
      exact hold.1.1
    rw [hread', Option.all_some, Bool.not_eq_true', goesOn, Bool.or_eq_false_iff, Option.isSome_eq_false_iff,
      Option.isNone_iff_eq_none] at hbehind
    exact everywhere_append (fun shorter c longer hsplit name behind hread =>
      takePlain_inside hname (hrest.head_of_plain hbehind.1) (hrest.takeOverTime_eq_none hbehind.2) hsplit hread) hone

end

/-! ### All searches -/

/-- Whether the searches for derivatives have nothing to do in a text. -/
structure Settled (text : List Char) : Prop where
  wrapped : NoneWrapped none text
  applied : NoneApplied none text
  plain : OneForm none text

/-- Whether the derivatives that are found in a text, one kind of spelling after the other, stand apart: the first two
kinds are of something else than time, and the last one stands apart from what had been written before. -/
structure DerivativesApart (text : List Char) : Prop where
  wrapped : TimeIsUndifferentiated false takeWrapped none text
  applied : TimeIsUndifferentiated true takeApplied none (replaceAll (derivativeFinder false takeWrapped) text)
  plain : StandApart none
    (replaceAll (derivativeFinder true takeApplied) (replaceAll (derivativeFinder false takeWrapped) text))

instance (text : List Char) : Decidable (DerivativesApart text) :=
  decidable_of_iff (TimeIsUndifferentiated false takeWrapped none text ∧
    TimeIsUndifferentiated true takeApplied none (replaceAll (derivativeFinder false takeWrapped) text) ∧
    StandApart none (replaceAll (derivativeFinder true takeApplied) (replaceAll (derivativeFinder false takeWrapped) text)))
    ⟨fun h => ⟨h.1, h.2.1, h.2.2⟩, fun h => ⟨h.wrapped, h.applied, h.plain⟩⟩

theorem Settled.plainDerivatives {text : List Char} (h : Settled text) : plainDerivatives text = text := by
  have hwrapped : replaceAll (derivativeFinder false takeWrapped) text = text :=
    replaceFrom_eq_of_everywhere readsDerivatives_takeWrapped none text <|
      h.wrapped.imp fun before c rest hnone name behind hread => by
        rw [readAt_eq_none hnone] at hread
        cases hread
  have happlied : replaceAll (derivativeFinder true takeApplied) text = text :=
    replaceFrom_eq_of_everywhere readsDerivatives_takeApplied none text <|
      h.applied.imp fun before c rest hnone name behind hread => by
        rw [hnone] at hread
        cases hread
  rw [Notation.plainDerivatives, hwrapped, happlied]
  exact replaceFrom_eq_of_everywhere readsDerivatives_takePlain none text h.plain

/-- One run of the searches leaves nothing for another to do. -/
theorem settled_plainDerivatives {text : List Char} (apart : DerivativesApart text) :
    Settled (plainDerivatives text) := by
  have first := patched_replaceFrom readsDerivatives_takeWrapped none text apart.wrapped none id
  have second := patched_replaceFrom readsDerivatives_takeApplied none _ apart.applied none id
  have third := patched_replaceFrom readsDerivatives_takePlain none _ apart.plain.time none id
  have wrapped := first.noneWrapped (everywhere_of_forall fun _ _ _ hread => hread)
  have applied := second.noneApplied (everywhere_of_forall fun _ _ _ hread => hread)
  exact {
    wrapped := third.noneWrapped <| (second.noneWrapped <| wrapped.imp fun _ _ _ hnone _ => hnone).imp
      fun _ _ _ hnone _ => hnone
    applied := third.noneApplied <| applied.imp fun _ _ _ hnone _ => hnone
    plain := third.oneForm apart.plain }

theorem plainDerivatives_idempotent {text : List Char} (apart : DerivativesApart text) :
    plainDerivatives (plainDerivatives text) = plainDerivatives text :=
  (settled_plainDerivatives apart).plainDerivatives

end OdeSystem.Notation
