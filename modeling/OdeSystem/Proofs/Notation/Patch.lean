import OdeSystem.Proofs.Notation.Spelling

/-!
Texts in which parts have been replaced. A rewriting keeps characters and replaces regions; what it writes for a region
is a derivative in its one form, the beginning of a logarithm, or its base. None of these can become part of a
derivative that begins outside of it, but for one case: the name of a derivative without parentheses may run into
another derivative. So whatever is read in the new text is read in the old one at the same place.
-/

namespace OdeSystem.Notation

open Text

/-! ### Places -/

/-- Whether something holds at each place of a text: of the character before it, and the rest of the text from it. -/
def Everywhere (p : Option Char → List Char → Prop) : Option Char → List Char → Prop
  | _, [] => True
  | before, c :: rest => p before (c :: rest) ∧ Everywhere p (some c) rest

instance Everywhere.decidable {p : Option Char → List Char → Prop} [∀ before text, Decidable (p before text)] :
    ∀ before text, Decidable (Everywhere p before text)
  | _, [] => inferInstanceAs (Decidable True)
  | before, c :: rest =>
    have := Everywhere.decidable (p := p) (some c) rest
    inferInstanceAs (Decidable (p before (c :: rest) ∧ Everywhere p (some c) rest))

/-- The last character of a text, or what stands before it. -/
def lastOf : Option Char → List Char → Option Char
  | before, [] => before
  | _, c :: rest => lastOf (some c) rest

theorem lastOf_append (before : Option Char) (xs ys : List Char) :
    lastOf before (xs ++ ys) = lastOf (lastOf before xs) ys := by
  induction xs generalizing before with
  | nil => rfl
  | cons c xs ih => exact ih (some c)

theorem lastOf_cons_eq_getLast? (before : Option Char) (c : Char) (rest : List Char) :
    lastOf before (c :: rest) = (c :: rest).getLast? := by
  induction rest generalizing before c with
  | nil => rfl
  | cons d rest ih => exact ih (some c) d

section
variable {p q : Option Char → List Char → Prop} {before : Option Char} {text : List Char}

theorem Everywhere.imp (h : Everywhere p before text)
    (himp : ∀ before c rest, p before (c :: rest) → q before (c :: rest)) : Everywhere q before text := by
  induction text generalizing before with
  | nil => trivial
  | cons c rest ih => exact ⟨himp _ _ _ h.1, ih h.2⟩

theorem Everywhere.and (hp : Everywhere p before text) (hq : Everywhere q before text) :
    Everywhere (fun before text => p before text ∧ q before text) before text := by
  induction text generalizing before with
  | nil => trivial
  | cons c rest ih => exact ⟨⟨hp.1, hq.1⟩, ih hp.2 hq.2⟩

theorem everywhere_of_forall (h : ∀ before c rest, p before (c :: rest)) : Everywhere p before text := by
  induction text generalizing before with
  | nil => trivial
  | cons c rest ih => exact ⟨h _ _ _, ih⟩

theorem everywhere_iff : Everywhere p before text ↔
    ∀ shorter c longer, text = shorter ++ c :: longer → p (lastOf before shorter) (c :: longer) := by
  induction text generalizing before with
  | nil => simp [Everywhere]
  | cons d rest ih =>
    rw [Everywhere, ih]
    refine ⟨fun ⟨hfirst, hrest⟩ shorter c longer heq => ?_, fun h => ⟨h [] d rest rfl, fun shorter c longer heq => ?_⟩⟩
    · cases shorter with
      | nil =>
        obtain ⟨rfl, rfl⟩ := List.cons.inj heq
        exact hfirst
      | cons e shorter =>
        obtain ⟨rfl, rfl⟩ := List.cons.inj heq
        exact hrest shorter c longer rfl
    · exact h (d :: shorter) c longer (congrArg (d :: ·) heq)

theorem Everywhere.drop {front rest : List Char} (h : Everywhere p before (front ++ rest)) :
    Everywhere p (lastOf before front) rest := by
  induction front generalizing before with
  | nil => exact h
  | cons c front ih => exact ih h.2

theorem everywhere_append {front rest : List Char}
    (hfront : ∀ shorter c longer, front = shorter ++ c :: longer → p (lastOf before shorter) (c :: (longer ++ rest)))
    (hrest : Everywhere p (lastOf before front) rest) : Everywhere p before (front ++ rest) := by
  induction front generalizing before with
  | nil => exact hrest
  | cons c front ih =>
    refine ⟨hfront [] c front rfl, ih (fun shorter d longer heq => ?_) hrest⟩
    exact hfront (c :: shorter) d longer (congrArg (c :: ·) heq)

end

/-! ### Patches -/

/-- Whether a derivative is of something else than time. -/
def notOfTime (name : List Char) : Bool := name != ['t'] && name != ['T']

/-- What may be written for a region, given what follows: a derivative, the beginning of a logarithm, or its base in
the place of the parenthesis that closed its argument. No region begins with a blank. -/
inductive IsPatch : List Char → List Char → List Char → Prop
  | derivative {c : Char} {region name behind : List Char} (hc : isBlank c = false) (hname : isName name = true)
    (htime : notOfTime name = true) : IsPatch (c :: region) (derivative name) behind
  | logarithm {c : Char} {region tail behind : List Char} (hc : isBlank c = false)
    (hopen : (tail ++ behind).head? = some '(') : IsPatch (c :: region) ('l' :: 'o' :: 'g' :: tail) behind
  | base {tail behind : List Char} : IsPatch [')'] (',' :: tail) behind

/-- What a rewriting keeps, given the character before it and the rest of the text from it, and what it writes for a
region, given the character before it and what follows in the old text and in the new one. -/
structure Rewriting where
  kept : Option Char → List Char → Prop
  patch : Option Char → List Char → List Char → List Char → List Char → Prop
  isPatch : ∀ {before region written behind behind'}, patch before region written behind behind' →
    IsPatch region written behind'

/-- A text and what a rewriting makes of it, with the characters before both. Where a derivative or a logarithm can
begin in the new text, it can begin in the old one. -/
inductive Patched (r : Rewriting) : Option Char → Option Char → List Char → List Char → Prop
  | nil {before before' : Option Char} : Patched r before before' [] []
  | keep {before before' : Option Char} {c : Char} {text text' : List Char} (hkept : r.kept before (c :: text))
    (hword : c = 'd' ∨ c = 'l' → before'.any isWord = false → before.any isWord = false)
    (h : Patched r (some c) (some c) text text') : Patched r before before' (c :: text) (c :: text')
  | patch {before before' : Option Char} {region written text text' : List Char}
    (hpatch : r.patch before region written text text')
    (h : Patched r (lastOf before region) (lastOf before' written) text text') :
    Patched r before before' (region ++ text) (written ++ text')

/-- From one place of a text and its rewriting to a later one, over characters that are kept. -/
inductive Goes (r : Rewriting) : Option Char → Option Char → List Char → List Char →
    Option Char → Option Char → List Char → List Char → Prop
  | here {before before' : Option Char} {text text' : List Char} (h : Patched r before before' text text') :
    Goes r before before' text text' before before' text text'
  | cons {before before' last last' : Option Char} {c : Char} {text text' rest rest' : List Char}
    (h : Goes r (some c) (some c) text text' last last' rest rest') :
    Goes r before before' (c :: text) (c :: text') last last' rest rest'

section
variable {r : Rewriting} {before before' last last' : Option Char}
  {text text' rest rest' middle middle' : List Char}

theorem Goes.patched (h : Goes r before before' text text' last last' rest rest') : Patched r last last' rest rest' := by
  induction h with
  | here h => exact h
  | cons h ih => exact ih

theorem Goes.trans {inner inner' : Option Char} (h : Goes r before before' text text' inner inner' middle middle')
    (h' : Goes r inner inner' middle middle' last last' rest rest') :
    Goes r before before' text text' last last' rest rest' := by
  induction h with
  | here h => exact h'
  | cons h ih => exact .cons (ih h')

theorem Goes.exists_between (h : Goes r before before' text text' last last' rest rest') :
    ∃ between, text = between ++ rest ∧ text' = between ++ rest' ∧ last = lastOf before between := by
  induction h with
  | here h => exact ⟨[], rfl, rfl, rfl⟩
  | @cons _ _ _ _ c _ _ _ _ h ih =>
    obtain ⟨between, rfl, rfl, rfl⟩ := ih
    exact ⟨c :: between, rfl, rfl, rfl⟩

theorem IsPatch.first {region written behind : List Char} (h : IsPatch region written behind) :
    (∃ c rest, region = c :: rest ∧ isBlank c = false) ∧
      ∃ c rest, written = c :: rest ∧ (c = 'd' ∨ c = 'l' ∨ c = ',') := by
  cases h with
  | derivative hc hname htime => exact ⟨⟨_, _, rfl, hc⟩, _, _, rfl, .inl rfl⟩
  | logarithm hc hopen => exact ⟨⟨_, _, rfl, hc⟩, _, _, rfl, .inr (.inl rfl)⟩
  | base => exact ⟨⟨_, _, rfl, by decide⟩, _, _, rfl, .inr (.inr rfl)⟩

/-- What a reader reads at a place of the new text it reads at that place of the old one. -/
structure Transports (r : Rewriting) (read : List Char → Option (List Char)) : Prop where
  back : ∀ {before before' : Option Char} {text text' rest' : List Char}, Patched r before before' text text' →
    read text' = some rest' →
      ∃ rest last last', read text = some rest ∧ Goes r before before' text text' last last' rest rest'

theorem Transports.bind {read read' : List Char → Option (List Char)} (h : Transports r read) (h' : Transports r read') :
    Transports r fun text => (read text).bind read' where
  back hpatched hread := by
    obtain ⟨middle', hmiddle', hrest'⟩ := Option.bind_eq_some_iff.mp hread
    obtain ⟨middle, _, _, hmiddle, hgoes⟩ := h.back hpatched hmiddle'
    obtain ⟨rest, _, _, hrest, hgoes'⟩ := h'.back hgoes.patched hrest'
    exact ⟨rest, _, _, Option.bind_eq_some_iff.mpr ⟨_, hmiddle, hrest⟩, hgoes.trans hgoes'⟩

/-- Blanks are kept, for no patch begins with one. -/
theorem Patched.goes_trimLeft (h : Patched r before before' text text') :
    ∃ last last', Goes r before before' text text' last last' (trimLeft text) (trimLeft text') := by
  induction h with
  | nil => exact ⟨_, _, .here .nil⟩
  | @keep before before' c text text' hkept hword h ih =>
    cases hc : isBlank c with
    | true =>
      rw [trimLeft_cons_of_isBlank hc, trimLeft_cons_of_isBlank hc]
      obtain ⟨last, last', hgoes⟩ := ih
      exact ⟨last, last', hgoes.cons⟩
    | false =>
      rw [trimLeft_cons_of_not_isBlank hc, trimLeft_cons_of_not_isBlank hc]
      exact ⟨_, _, .here (.keep hkept hword h)⟩
  | @patch before before' region written text text' hpatch h ih =>
    obtain ⟨⟨c, more, hregion, hc⟩, d, more', hwritten, hd⟩ := (r.isPatch hpatch).first
    have hink : isBlank d = false := by rcases hd with rfl | rfl | rfl <;> decide
    have htext : trimLeft (region ++ text) = region ++ text := by
      rw [hregion, List.cons_append, trimLeft_cons_of_not_isBlank hc]
    have htext' : trimLeft (written ++ text') = written ++ text' := by
      rw [hwritten, List.cons_append, trimLeft_cons_of_not_isBlank hink]
    rw [htext, htext']
    exact ⟨_, _, .here (.patch hpatch h)⟩

theorem Transports.trimLeft {read : List Char → Option (List Char)} (h : Transports r read) :
    Transports r fun text => read (trimLeft text) where
  back hpatched hread := by
    obtain ⟨_, _, htrim⟩ := hpatched.goes_trimLeft
    obtain ⟨rest, _, _, hrest, hgoes⟩ := h.back htrim.patched hread
    exact ⟨rest, _, _, hrest, htrim.trans hgoes⟩

/-- No patch begins with a sign that readers look for. -/
theorem transports_expect {c : Char} (hc : c ≠ 'd' ∧ c ≠ 'l' ∧ c ≠ ',') : Transports r (expect c) where
  back hpatched hread := by
    cases hpatched with
    | nil => cases hread
    | @keep _ _ d text text' hkept hword h =>
      simp only [expect] at hread ⊢
      split at hread
      · rename_i heq
        cases hread
        exact ⟨text, _, _, if_pos heq, .cons (.here h)⟩
      · cases hread
    | patch hpatch h =>
      obtain ⟨-, d, more, rfl, hd⟩ := (r.isPatch hpatch).first
      have hne : d ≠ c := by
        rcases hd with rfl | rfl | rfl
        · exact Ne.symm hc.1
        · exact Ne.symm hc.2.1
        · exact Ne.symm hc.2.2
      simp [expect, hne] at hread

theorem transports_expectSpaced {c : Char} (hc : c ≠ 'd' ∧ c ≠ 'l' ∧ c ≠ ',') : Transports r (expectSpaced c) :=
  (transports_expect hc).trimLeft

theorem transports_takeTime : Transports r takeTime where
  back hpatched hread := by
    cases hpatched with
    | nil => cases hread
    | @keep _ _ d text text' hkept hword h =>
      rw [takeTime_cons] at hread ⊢
      split at hread
      · rename_i heq
        cases hread
        exact ⟨text, _, _, if_pos heq, .cons (.here h)⟩
      · cases hread
    | patch hpatch h =>
      obtain ⟨-, d, more, rfl, hd⟩ := (r.isPatch hpatch).first
      rcases hd with rfl | rfl | rfl <;> cases hread

/-! ### Words -/

/-- A run of characters of a kind that is kept up to a patch, so that the patch may go on with it. -/
def RunsInto (r : Rewriting) (p : Char → Bool) (before : Option Char) (text text' : List Char) : Prop :=
  ∃ run region written rest rest', (∀ c ∈ run, p c = true) ∧ text = run ++ (region ++ rest) ∧
    text' = run ++ (written ++ rest') ∧ r.patch (lastOf before run) region written rest rest'

/-- The word of a patch ends at a line, an opening parenthesis or a comma. -/
theorem IsPatch.sign {region written behind : List Char} (h : IsPatch region written behind) :
    ∃ word sign more, written ++ behind = word ++ sign :: more ∧ (∀ c ∈ word, isWord c = true) ∧
      (sign = '/' ∨ sign = '(' ∨ sign = ',') := by
  cases h with
  | @derivative c region name _ hc hname htime =>
    refine ⟨'d' :: name, '/', ['d', 't'] ++ behind, by simp [Notation.derivative], fun c hc => ?_, .inl rfl⟩
    rcases List.mem_cons.mp hc with rfl | hc
    · exact isWord_of_isIdentifierChar (by decide)
    · exact isWord_of_isName hname c hc
  | @logarithm c region tail _ hc hopen =>
    obtain ⟨more, hmore⟩ : ∃ more, tail ++ behind = '(' :: more := by
      cases htail : tail ++ behind with
      | nil => simp [htail] at hopen
      | cons d more => exact ⟨more, by simpa [htail] using hopen⟩
    refine ⟨['l', 'o', 'g'], '(', more, by simp [hmore], fun c hc => ?_, .inr (.inl rfl)⟩
    simp only [List.mem_cons, List.not_mem_nil, or_false] at hc
    rcases hc with rfl | rfl | rfl <;> exact isWord_of_isIdentifierChar (by decide)
  | @base tail => exact ⟨[], ',', tail ++ behind, rfl, by simp, .inr (.inr rfl)⟩

theorem dropWhile_words {word : List Char} (hword : ∀ c ∈ word, isWord c = true) {sign : Char}
    (hsign : isWord sign = false) (more : List Char) : (word ++ sign :: more).dropWhile isWord = sign :: more := by
  rw [List.dropWhile_append_of_pos hword, List.dropWhile_cons_of_neg (by simp [hsign])]

theorem RunsInto.sign (h : RunsInto r isWord before text text') :
    ∃ sign more, text'.dropWhile isWord = sign :: more ∧ (sign = '/' ∨ sign = '(' ∨ sign = ',') := by
  obtain ⟨word, region, written, rest, rest', hword, -, rfl, hpatch⟩ := h
  obtain ⟨inner, sign, more, hwritten, hinner, hsign⟩ := (r.isPatch hpatch).sign
  have hpunctuation : isWord sign = false := by
    rcases hsign with rfl | rfl | rfl <;> exact isWord_of_isPunctuation (by decide)
  refine ⟨sign, more, ?_, hsign⟩
  rw [hwritten, List.dropWhile_append_of_pos hword, dropWhile_words hinner hpunctuation]

/-- A run of characters in the new text is one of the old text, unless it runs into a patch. -/
theorem Patched.run (p : Char → Bool) (h : Patched r before before' text text') :
    (text.takeWhile p = text'.takeWhile p ∧
      ∃ last last', Goes r before before' text text' last last' (text.dropWhile p) (text'.dropWhile p)) ∨
    RunsInto r p before text text' := by
  induction h with
  | nil => exact .inl ⟨rfl, _, _, .here .nil⟩
  | @keep before before' c text text' hkept hword h ih =>
    cases hc : p c with
    | false =>
      rw [List.takeWhile_cons_of_neg (by simp [hc]), List.takeWhile_cons_of_neg (by simp [hc]),
        List.dropWhile_cons_of_neg (by simp [hc]), List.dropWhile_cons_of_neg (by simp [hc])]
      exact .inl ⟨rfl, _, _, .here (.keep hkept hword h)⟩
    | true =>
      rcases ih with ⟨hsame, last, last', hgoes⟩ | ⟨run, region, written, rest, rest', hrun, rfl, rfl, hpatch⟩
      · rw [List.takeWhile_cons_of_pos hc, List.takeWhile_cons_of_pos hc, List.dropWhile_cons_of_pos hc,
          List.dropWhile_cons_of_pos hc, hsame]
        exact .inl ⟨rfl, last, last', hgoes.cons⟩
      · refine .inr ⟨c :: run, region, written, rest, rest', fun d hd => ?_, rfl, rfl, hpatch⟩
        rcases List.mem_cons.mp hd with rfl | hd
        · exact hc
        · exact hrun d hd
  | @patch before before' region written text text' hpatch h ih =>
    exact .inr ⟨[], region, written, text, text', by simp, rfl, rfl, hpatch⟩

theorem takeName_eq_some_iff {name : List Char} :
    takeName text = some (name, rest) ↔
      text.head?.any isNameStart = true ∧ name = text.takeWhile isWord ∧ rest = text.dropWhile isWord := by
  cases text with
  | nil => simp [takeName]
  | cons c text =>
    simp only [takeName, List.head?_cons, Option.any_some]
    by_cases hc : isNameStart c = true
    · have hword : isWord c = true := isWord_of_isNameStart hc
      rw [if_pos hc, List.takeWhile_cons_of_pos hword, List.dropWhile_cons_of_pos hword]
      simp [hc, eq_comm]
    · rw [if_neg hc]
      simp [hc]

/-- A name of the new text is one of the old text, unless it runs into a patch. -/
theorem Patched.back_takeName {name : List Char} (h : Patched r before before' text text')
    (hread : takeName text' = some (name, rest')) :
    (∃ rest last last', takeName text = some (name, rest) ∧
      Goes r before before' text text' last last' rest rest') ∨
    RunsInto r isWord before text text' := by
  obtain ⟨hstart, rfl, rfl⟩ := takeName_eq_some_iff.mp hread
  rcases h.run isWord with ⟨hsame, last, last', hgoes⟩ | hruns
  · refine .inl ⟨_, last, last', takeName_eq_some_iff.mpr ⟨?_, hsame.symm, rfl⟩, hgoes⟩
    -- The words are the same, and they are not empty.
    cases text' with
    | nil => cases hstart
    | cons c text' =>
      have hword : isWord c = true := isWord_of_isNameStart hstart
      rw [List.takeWhile_cons_of_pos hword] at hsame
      cases text with
      | nil => cases hsame
      | cons d text =>
        rw [List.takeWhile_cons] at hsame
        split at hsame
        · rw [(List.cons.inj hsame).1]
          exact hstart
        · cases hsame
  · exact .inr hruns

theorem RunsInto.not_closed {name : List Char} (h : RunsInto r isWord before text text')
    (hread : takeName text' = some (name, rest')) : expectSpaced ')' rest' = none := by
  obtain ⟨sign, more, hdrop, hsign⟩ := h.sign
  obtain ⟨-, -, rfl⟩ := takeName_eq_some_iff.mp hread
  rw [hdrop]
  rcases hsign with rfl | rfl | rfl <;> rfl

/-- A name that is closed by a parenthesis is one of the old text. -/
theorem Patched.back_takeNameClosed {name : List Char} (h : Patched r before before' text text')
    (hname : takeNameSpaced text' = some (name, middle')) (hclose : expectSpaced ')' middle' = some rest') :
    ∃ middle rest last last', takeNameSpaced text = some (name, middle) ∧ expectSpaced ')' middle = some rest ∧
      Goes r before before' text text' last last' rest rest' := by
  obtain ⟨_, _, htrim⟩ := h.goes_trimLeft
  rcases htrim.patched.back_takeName hname with ⟨middle, _, _, hmiddle, hgoes⟩ | hruns
  · obtain ⟨rest, _, _, hrest, hgoes'⟩ := (transports_expectSpaced (by decide)).back hgoes.patched hclose
    exact ⟨middle, rest, _, _, hmiddle, hrest, htrim.trans (hgoes.trans hgoes')⟩
  · rw [hruns.not_closed hname] at hclose
    cases hclose

/-! ### Derivatives -/

/-- The first letter of a differential is kept, or it is that of another derivative, which goes on with its name. -/
theorem Patched.back_expect (h : Patched r before before' text text') (hread : expect 'd' text' = some rest') :
    (∃ rest last last', expect 'd' text = some rest ∧ Goes r before before' text text' last last' rest rest') ∨
    ∃ name more, isName name = true ∧ rest' = name ++ '/' :: more := by
  cases h with
  | nil => cases hread
  | @keep _ _ c text text' hkept hword h =>
    simp only [expect] at hread ⊢
    split at hread
    · rename_i heq
      cases hread
      exact .inl ⟨text, _, _, if_pos heq, .cons (.here h)⟩
    · cases hread
  | patch hpatch h =>
    cases r.isPatch hpatch with
    | @derivative c region name _ hc hname htime =>
      obtain rfl : name ++ ['/', 'd', 't'] ++ _ = rest' := by simpa [Notation.derivative, expect] using hread
      exact .inr ⟨name, _, hname, List.append_assoc ..⟩
    | logarithm => cases hread
    | base => cases hread

theorem expectSpaced_word {c sign : Char} (hc : isWord c = true) (hsign : isWord sign = false) (rest : List Char) :
    expectSpaced sign (c :: rest) = none := by
  simp [expectSpaced, trimLeft_cons_of_not_isBlank (isBlank_of_isWord hc), expect, ne_of_isWord hc hsign]

theorem trimLeft_of_isName {name : List Char} (hname : isName name = true) (more : List Char) :
    trimLeft (name ++ more) = name ++ more := by
  cases name with
  | nil => cases hname
  | cons c name =>
    exact trimLeft_cons_of_not_isBlank (isBlank_of_isWord (isWord_of_isName hname c (List.mem_cons_self ..)))

/-- A name is no time that is followed by a parenthesis. -/
theorem takeTime_name_closed {name more : List Char} (hname : isName name = true) :
    ((takeTime (trimLeft (name ++ '/' :: more))).bind (expectSpaced ')')) = none := by
  have hwords := isWord_of_isName hname
  rw [trimLeft_of_isName hname]
  cases name with
  | nil => cases hname
  | cons c name =>
    rw [List.cons_append, takeTime_cons]
    split
    · cases name with
      | nil => rfl
      | cons d name =>
        exact expectSpaced_word (hwords d (by simp)) (isWord_of_isPunctuation (by decide)) _
    · rfl

/-- A denominator in parentheses is kept, for no time stands in a derivative. -/
theorem transports_wrappedTime : Transports r fun text =>
    (expectSpaced 'd' text).bind fun text => (takeTime (trimLeft text)).bind (expectSpaced ')') where
  back hpatched hread := by
    obtain ⟨middle', hmiddle', hrest'⟩ := Option.bind_eq_some_iff.mp hread
    obtain ⟨_, _, htrim⟩ := hpatched.goes_trimLeft
    rcases htrim.patched.back_expect hmiddle' with ⟨middle, _, _, hmiddle, hgoes⟩ | ⟨name, more, hname, rfl⟩
    · obtain ⟨rest, _, _, hrest, hgoes'⟩ :=
        ((transports_takeTime.trimLeft).bind (transports_expectSpaced (by decide))).back hgoes.patched hrest'
      exact ⟨rest, _, _, Option.bind_eq_some_iff.mpr ⟨middle, hmiddle, hrest⟩, htrim.trans (hgoes.trans hgoes')⟩
    · rw [takeTime_name_closed hname] at hrest'
      cases hrest'

/-- The one form of a derivative is no denominator. -/
theorem takeDenominator_derivative {name : List Char} (hname : isName name = true) (htime : notOfTime name = true)
    (more : List Char) : takeDenominator (derivative name ++ more) = none := by
  have hwords := isWord_of_isName hname
  have htext : derivative name ++ more = 'd' :: (name ++ ('/' :: 'd' :: 't' :: more)) := by simp [derivative]
  rw [htext, takeDenominator_cons, if_neg (by decide), if_pos rfl, trimLeft_of_isName hname]
  cases name with
  | nil => cases hname
  | cons c name =>
    rw [List.cons_append, takeTime_cons]
    split
    · rename_i hc
      cases name with
      | nil => rcases hc with rfl | rfl <;> cases htime
      | cons d name =>
        have hd : isWord d = true := hwords d (by simp)
        simp [hd]
    · rfl

/-- Where the new text goes on with no word, neither does the old one. -/
theorem Patched.head (h : Patched r before before' text text') (hhead : text'.head?.any isWord = false) :
    text.head?.any isWord = false := by
  cases h with
  | nil => rfl
  | keep => exact hhead
  | patch hpatch h =>
    cases r.isPatch hpatch with
    | derivative =>
      rw [show (Notation.derivative _ ++ _).head?.any isWord = isWord 'd' from rfl,
        isWord_of_isIdentifierChar (by decide)] at hhead
      cases hhead
    | logarithm =>
      rw [show (('l' :: 'o' :: 'g' :: _) ++ _).head?.any isWord = isWord 'l' from rfl,
        isWord_of_isIdentifierChar (by decide)] at hhead
      cases hhead
    | base => exact isWord_of_isPunctuation (by decide)

theorem transports_takeDenominator : Transports r takeDenominator where
  back hpatched hread := by
    cases hpatched with
    | nil => cases hread
    | @keep _ _ c text text' hkept hword h =>
      rw [takeDenominator_cons] at hread ⊢
      by_cases hopen : c = '('
      · rw [if_pos hopen] at hread ⊢
        obtain ⟨rest, _, _, hrest, hgoes⟩ := transports_wrappedTime.back h hread
        exact ⟨rest, _, _, hrest, hgoes.cons⟩
      · rw [if_neg hopen] at hread ⊢
        by_cases hd : c = 'd'
        · rw [if_pos hd] at hread ⊢
          obtain ⟨middle', htime', hrest'⟩ := Option.bind_eq_some_iff.mp hread
          obtain ⟨middle, _, _, htime, hgoes⟩ := transports_takeTime.trimLeft.back h htime'
          split at hrest'
          · cases hrest'
          · rename_i hword'
            cases hrest'
            have hhead := hgoes.patched.head (by simpa using hword')
            exact ⟨middle, _, _, Option.bind_eq_some_iff.mpr ⟨middle, htime, by simp [hhead]⟩, hgoes.cons⟩
        · rw [if_neg hd] at hread
          cases hread
    | patch hpatch h =>
      cases r.isPatch hpatch with
      | derivative hc hname htime =>
        rw [takeDenominator_derivative hname htime] at hread
        cases hread
      | logarithm => cases hread
      | base => cases hread

theorem transports_takeOverTime : Transports r takeOverTime :=
  (transports_expectSpaced (by decide)).bind transports_takeDenominator.trimLeft

/-- A parenthesis that may be there is kept, unless a patch begins behind the blanks. -/
theorem Patched.goes_acceptSpaced {c : Char} (hc : c ≠ 'd' ∧ c ≠ 'l' ∧ c ≠ ',') (h : Patched r before before' text text') :
    (∃ last last', Goes r before before' text text' last last' (acceptSpaced c text) (acceptSpaced c text')) ∨
    ∃ inner region written rest rest', acceptSpaced c text' = written ++ rest' ∧
      r.patch inner region written rest rest' := by
  obtain ⟨last, last', htrim⟩ := h.goes_trimLeft
  unfold acceptSpaced
  generalize hold : trimLeft text = trimmed, hnew : trimLeft text' = trimmed' at htrim
  cases htrim.patched with
  | nil => exact .inl ⟨_, _, htrim⟩
  | @keep _ _ d rest rest' hkept hword h =>
    by_cases hd : d = c
    · have haccept (text : List Char) : accept c (d :: text) = text := by simp [accept, expect, hd]
      rw [haccept, haccept]
      exact .inl ⟨_, _, htrim.trans (.cons (.here h))⟩
    · have haccept (text : List Char) : accept c (d :: text) = d :: text := by simp [accept, expect, hd]
      rw [haccept, haccept]
      exact .inl ⟨_, _, htrim⟩
  | @patch _ _ region written rest rest' hpatch h =>
    obtain ⟨-, d, more, hwritten, hd⟩ := (r.isPatch hpatch).first
    have hne : d ≠ c := by
      rcases hd with rfl | rfl | rfl
      · exact Ne.symm hc.1
      · exact Ne.symm hc.2.1
      · exact Ne.symm hc.2.2
    have haccept : accept c (written ++ rest') = written ++ rest' := by simp [hwritten, accept, expect, hne]
    exact .inr ⟨last, region, written, rest, rest', haccept, hpatch⟩

/-- What is read as a derivative with its variable in parentheses is read so in the old text. -/
theorem Patched.back_takeApplied {name : List Char} (h : Patched r before before' text text')
    (hread : takeApplied text' = some (name, rest')) :
    ∃ rest last last', takeApplied text = some (name, rest) ∧
      Goes r before before' text text' last last' rest rest' := by
  simp only [takeApplied, Option.bind_eq_bind, Option.bind_eq_some_iff] at hread ⊢
  obtain ⟨r₁', h₁', r₂', h₂', ⟨found, r₃'⟩, h₃', r₄', h₄', r₅', h₅', heq⟩ := hread
  cases heq
  rcases h.back_expect h₁' with ⟨r₁, _, _, h₁, hgoes₁⟩ | ⟨inner, more, hinner, rfl⟩
  · obtain ⟨r₂, _, _, h₂, hgoes₂⟩ := (transports_expectSpaced (by decide)).back hgoes₁.patched h₂'
    obtain ⟨r₃, r₄, _, _, h₃, h₄, hgoes₄⟩ := hgoes₂.patched.back_takeNameClosed h₃' h₄'
    obtain ⟨r₅, _, _, h₅, hgoes₅⟩ := transports_takeOverTime.back hgoes₄.patched h₅'
    exact ⟨r₅, _, _, ⟨r₁, h₁, r₂, h₂, ⟨_, r₃⟩, h₃, r₄, h₄, r₅, h₅, rfl⟩,
      hgoes₁.trans (hgoes₂.trans (hgoes₄.trans hgoes₅))⟩
  · -- Behind the first letter of another derivative its name goes on.
    cases inner with
    | nil => cases hinner
    | cons c inner =>
      have hc : isWord c = true := isWord_of_isName hinner c (List.mem_cons_self ..)
      rw [List.cons_append, expectSpaced_word hc (isWord_of_isPunctuation (by decide))] at h₂'
      cases h₂'

/-- At a patch no name that is closed by a parenthesis begins. -/
theorem not_closed_of_patch {region written name : List Char} (hpatch : r.patch before region written rest rest')
    (hname : takeNameSpaced (written ++ rest') = some (name, middle')) : expectSpaced ')' middle' = none := by
  obtain ⟨-, c, more, hwritten, hc⟩ := (r.isPatch hpatch).first
  have hink : isBlank c = false := by rcases hc with rfl | rfl | rfl <;> decide
  have htrim : trimLeft (written ++ rest') = written ++ rest' := by
    rw [hwritten, List.cons_append, trimLeft_cons_of_not_isBlank hink]
  have hruns : RunsInto r isWord before (region ++ rest) (written ++ rest') :=
    ⟨[], region, written, rest, rest', by simp, rfl, rfl, hpatch⟩
  rw [takeNameSpaced, htrim] at hname
  exact hruns.not_closed hname

/-- Nor does the line of a fraction. -/
theorem takeOverTime_patch {region written : List Char} (hpatch : r.patch before region written rest rest') :
    takeOverTime (written ++ rest') = none := by
  obtain ⟨-, c, more, rfl, hc⟩ := (r.isPatch hpatch).first
  rcases hc with rfl | rfl | rfl <;> rfl

/-- Nor does one that is closed go on with the name of another derivative. -/
theorem not_closed_of_isName {inner more name : List Char} (hinner : isName inner = true)
    (hname : takeNameSpaced (acceptSpaced '(' (inner ++ '/' :: more)) = some (name, rest)) :
    expectSpaced ')' rest = none := by
  have haccept : acceptSpaced '(' (inner ++ '/' :: more) = inner ++ '/' :: more := by
    cases inner with
    | nil => cases hinner
    | cons c inner =>
      have hc : isWord c = true := isWord_of_isName hinner c (List.mem_cons_self ..)
      have hopen : isWord '(' = false := isWord_of_isPunctuation (by decide)
      have hnone := expectSpaced_word hc hopen (inner ++ '/' :: more)
      rw [expectSpaced] at hnone
      rw [List.cons_append, acceptSpaced, accept, hnone, trimLeft_cons_of_not_isBlank (isBlank_of_isWord hc)]
      rfl
  rw [haccept, takeNameSpaced, trimLeft_of_isName hinner] at hname
  obtain ⟨-, -, rfl⟩ := takeName_eq_some_iff.mp hname
  rw [dropWhile_words (isWord_of_isName hinner) (isWord_of_isPunctuation (by decide))]
  rfl

/-- What is read as a derivative with its numerator in parentheses is read so in the old text. -/
theorem Patched.back_takeWrapped {name : List Char} (h : Patched r before before' text text')
    (hread : takeWrapped text' = some (name, rest')) :
    ∃ rest last last', takeWrapped text = some (name, rest) ∧
      Goes r before before' text text' last last' rest rest' := by
  simp only [takeWrapped, Option.bind_eq_bind, Option.bind_eq_some_iff] at hread ⊢
  obtain ⟨r₁', h₁', r₂', h₂', ⟨found, r₃'⟩, h₃', r₄', h₄', r₅', h₅', heq⟩ := hread
  cases heq
  obtain ⟨r₁, _, _, h₁, hgoes₁⟩ := (transports_expect (by decide)).back h h₁'
  obtain ⟨_, _, htrim⟩ := hgoes₁.patched.goes_trimLeft
  rcases htrim.patched.back_expect h₂' with ⟨r₂, _, _, h₂, hgoes₂⟩ | ⟨inner, more, hinner, rfl⟩
  · rcases hgoes₂.patched.goes_acceptSpaced (c := '(') (by decide) with
      ⟨_, _, hgoes₃⟩ | ⟨_, region, written, rest, rest', haccept, hpatch⟩
    · obtain ⟨r₃, r₄, _, _, h₃, h₄, hgoes₄⟩ := hgoes₃.patched.back_takeNameClosed h₃' h₄'
      rcases hgoes₄.patched.goes_acceptSpaced (c := ')') (by decide) with
        ⟨_, _, hgoes₅⟩ | ⟨_, region, written, rest, rest', haccept, hpatch⟩
      · obtain ⟨r₆, _, _, h₆, hgoes₆⟩ := transports_takeOverTime.back hgoes₅.patched h₅'
        exact ⟨r₆, _, _, ⟨r₁, h₁, r₂, h₂, ⟨_, r₃⟩, h₃, r₄, h₄, r₆, h₆, rfl⟩,
          hgoes₁.trans (htrim.trans (hgoes₂.trans (hgoes₃.trans (hgoes₄.trans (hgoes₅.trans hgoes₆)))))⟩
      · rw [haccept, takeOverTime_patch hpatch] at h₅'
        cases h₅'
    · rw [haccept] at h₃'
      rw [not_closed_of_patch hpatch h₃'] at h₄'
      cases h₄'
  · rw [not_closed_of_isName hinner h₃'] at h₄'
    cases h₄'

/-- What is read as a derivative without parentheses in its numerator is read so in the old text, unless it begins with
a patch, or its name runs into one. -/
theorem Patched.back_takePlain {name : List Char} (h : Patched r before before' text text')
    (hread : takePlain text' = some (name, rest')) :
    (∃ rest last last', takePlain text = some (name, rest) ∧
      Goes r before before' text text' last last' rest rest') ∨
    (∃ region written rest rest', text = region ++ rest ∧ text' = written ++ rest' ∧
      r.patch before region written rest rest') ∨
    ∃ after after' last last', text = 'd' :: after ∧ text' = 'd' :: after' ∧
      Goes r (some 'd') (some 'd') after after' last last' (trimLeft after) (trimLeft after') ∧
      RunsInto r isWord last (trimLeft after) (trimLeft after') := by
  simp only [takePlain, Option.bind_eq_bind, Option.bind_eq_some_iff] at hread ⊢
  obtain ⟨r₁', h₁', ⟨found, r₂'⟩, h₂', r₃', h₃', heq⟩ := hread
  cases heq
  cases h with
  | nil => cases h₁'
  | @keep _ _ c text text' hkept hword h =>
    obtain ⟨rfl, rfl⟩ := List.cons.inj (eq_cons_of_expect h₁')
    obtain ⟨last, last', htrim⟩ := h.goes_trimLeft
    rcases htrim.patched.back_takeName h₂' with ⟨r₂, _, _, h₂, hgoes₂⟩ | hruns
    · obtain ⟨r₃, _, _, h₃, hgoes₃⟩ := transports_takeOverTime.back hgoes₂.patched h₃'
      exact .inl ⟨r₃, _, _, ⟨text, by simp [expect], ⟨_, r₂⟩, h₂, r₃, h₃, rfl⟩, .cons (htrim.trans (hgoes₂.trans hgoes₃))⟩
    · exact .inr (.inr ⟨text, text', last, last', rfl, rfl, htrim, hruns⟩)
  | @patch _ _ region written text text' hpatch h => exact .inr (.inl ⟨region, written, text, text', rfl, rfl, hpatch⟩)

/-! ### Every place of the new text -/

/-- What holds everywhere in the new text: it is enough to see it where characters are kept, and inside of what has been
written. -/
theorem Patched.everywhere {p q : Option Char → List Char → Prop} (h : Patched r before before' text text')
    (hold : Everywhere q before text)
    (keep : ∀ {before before' c text text'}, r.kept before (c :: text) → q before (c :: text) →
      (c = 'd' ∨ c = 'l' → before'.any isWord = false → before.any isWord = false) →
      Patched r (some c) (some c) text text' → p before' (c :: text'))
    (patch : ∀ {before before' region written text text'}, r.patch before region written text text' →
      Everywhere q before (region ++ text) → Patched r (lastOf before region) (lastOf before' written) text text' →
      Everywhere p (lastOf before' written) text' → Everywhere p before' (written ++ text')) :
    Everywhere p before' text' := by
  induction h with
  | nil => trivial
  | keep hkept hword h ih => exact ⟨keep hkept hold.1 hword h, ih hold.2⟩
  | patch hpatch h ih => exact patch hpatch hold h (ih hold.drop)

end

end OdeSystem.Notation
