import OdeSystem.Notation.Sides
import OdeSystem.Proofs.Notation.Logarithm
import OdeSystem.Proofs.Text.Respaced

/-!
Recognisers are blind to layout. Each of them takes blanks where it allows any, and stops behind a character that is
none; so in another layout it finds the same, and leaves the same in another layout. As with the sides of equations, it
is enough to see this of a few readers and of the ways in which they are put together.
-/

namespace OdeSystem.Notation

open Text

/-! ### Readers -/

/-- Whether a reader of a text has stopped with a certain rest, behind a character that is no blank. -/
def StopsAt (text rest : List Char) : Prop := ∃ front c, text = front ++ c :: rest ∧ isBlank c = false

/-- A reader that skips something, and does so in any layout. -/
structure BlindSkip (read : List Char → Option (List Char)) : Prop where
  stops : ∀ {text rest}, read text = some rest → StopsAt text rest
  same : ∀ {text text'}, Respaced text text' → Option.Rel Respaced (read text) (read text')

/-- A reader that takes something, and the same, or something related, in any layout. -/
structure BlindTake {β : Type} (related : β → β → Prop) (read : List Char → Option (β × List Char)) : Prop where
  stops : ∀ {text found rest}, read text = some (found, rest) → StopsAt text rest
  same : ∀ {text text'}, Respaced text text' →
    Option.Rel (fun x y => related x.1 y.1 ∧ Respaced x.2 y.2) (read text) (read text')

section
variable {text middle rest : List Char} {c : Char}

theorem StopsAt.trans (h : StopsAt text middle) (h' : StopsAt middle rest) : StopsAt text rest := by
  obtain ⟨front, c, rfl, -⟩ := h
  obtain ⟨front', c', rfl, hc'⟩ := h'
  exact ⟨front ++ c :: front', c', by simp, hc'⟩

theorem StopsAt.append (more : List Char) (h : StopsAt text rest) : StopsAt (more ++ text) rest := by
  obtain ⟨front, c, rfl, hc⟩ := h
  exact ⟨more ++ front, c, by simp, hc⟩

theorem StopsAt.of_trimLeft (h : StopsAt (trimLeft text) rest) : StopsAt text rest := by
  obtain ⟨leading, -, htext⟩ := exists_blanks_append_trimLeft text
  exact htext ▸ h.append leading

theorem StopsAt.of_accept (h : StopsAt (accept c text) rest) : StopsAt text rest := by
  unfold accept at h
  cases hread : expect c text with
  | none => rwa [hread] at h
  | some behind =>
    rw [hread] at h
    exact eq_cons_of_expect hread ▸ h.append [c]

/-- A piece from the front of a text, by its length but for the first character, and what follows it. -/
theorem cut_append {front : List Char} (hne : front ≠ []) (h : c :: text = front ++ rest) :
    text.drop (text.length - rest.length) = rest ∧ (c :: text).take (text.length - rest.length + 1) = front ∧
      (c :: text).length - rest.length = text.length - rest.length + 1 := by
  obtain ⟨d, inner, rfl⟩ := List.exists_cons_of_ne_nil hne
  rw [List.cons_append] at h
  obtain ⟨rfl, rfl⟩ := List.cons.inj h
  have hlength : (inner ++ rest).length - rest.length = inner.length := by simp
  rw [hlength, List.drop_left, List.take_succ_cons, List.take_left, List.length_cons, List.length_append]
  exact ⟨rfl, rfl, by omega⟩

end

/-! ### Ways to put readers together -/

section
variable {α α' β β' : Type} {r : α → α' → Prop} {s : β → β' → Prop}

theorem rel_bind {x : Option α} {y : Option α'} {f : α → Option β} {g : α' → Option β'} (h : Option.Rel r x y)
    (hf : ∀ a b, r a b → Option.Rel s (f a) (g b)) : Option.Rel s (x.bind f) (y.bind g) := by
  cases h with
  | some hab => exact hf _ _ hab
  | none => exact .none

theorem rel_map {x : Option α} {y : Option α'} {f : α → β} {g : α' → β'} (h : Option.Rel r x y)
    (hf : ∀ a b, r a b → s (f a) (g b)) : Option.Rel s (x.map f) (y.map g) := by
  cases h with
  | some hab => exact .some (hf _ _ hab)
  | none => exact .none

theorem rel_or {x x' : Option α} {y y' : Option α'} (h : Option.Rel r x y) (h' : Option.Rel r x' y') :
    Option.Rel r (x.or x') (y.or y') := by
  cases h with
  | some hab => exact .some hab
  | none => exact h'

end

section
variable {β : Type} {related : β → β → Prop} {skip skip' : List Char → Option (List Char)}
  {take : List Char → Option (β × List Char)}

theorem BlindTake.mono {related' : β → β → Prop} (h : BlindTake related take)
    (weaker : ∀ a b, related a b → related' a b) : BlindTake related' take where
  stops := h.stops
  same {text text'} htext := by
    have hread := h.same htext
    generalize take text = x at hread
    generalize take text' = y at hread
    cases hread with
    | some hfound => exact .some ⟨weaker _ _ hfound.1, hfound.2⟩
    | none => exact .none

theorem BlindSkip.bind (h : BlindSkip skip) (h' : BlindSkip skip') : BlindSkip fun text => (skip text).bind skip' where
  stops hread := by
    obtain ⟨middle, hskip, hskip'⟩ := Option.bind_eq_some_iff.mp hread
    exact (h.stops hskip).trans (h'.stops hskip')
  same htext := rel_bind (h.same htext) fun _ _ => h'.same

theorem BlindSkip.bind_take (h : BlindSkip skip) (h' : BlindTake related take) :
    BlindTake related fun text => (skip text).bind take where
  stops hread := by
    obtain ⟨middle, hskip, htake⟩ := Option.bind_eq_some_iff.mp hread
    exact (h.stops hskip).trans (h'.stops htake)
  same htext := rel_bind (h.same htext) fun _ _ => h'.same

theorem BlindTake.bind_skip (h : BlindTake related take) (h' : BlindSkip skip) :
    BlindTake related fun text =>
      (take text).bind fun found => (skip found.2).bind fun rest => some (found.1, rest) where
  stops hread := by
    obtain ⟨found, htake, hread⟩ := Option.bind_eq_some_iff.mp hread
    obtain ⟨rest, hskip, hfound⟩ := Option.bind_eq_some_iff.mp hread
    cases hfound
    exact (h.stops htake).trans (h'.stops hskip)
  same htext := rel_bind (h.same htext) fun _ _ hfound =>
    rel_bind (h'.same hfound.2) fun _ _ hrest => .some ⟨hfound.1, hrest⟩

theorem BlindSkip.or (h : BlindSkip skip) (h' : BlindSkip skip') :
    BlindSkip fun text => (skip text).or (skip' text) where
  stops hread := by
    rcases Option.or_eq_some_iff.mp hread with hread | ⟨-, hread⟩
    · exact h.stops hread
    · exact h'.stops hread
  same htext := rel_or (h.same htext) (h'.same htext)

theorem BlindTake.or {take' : List Char → Option (β × List Char)} (h : BlindTake related take)
    (h' : BlindTake related take') : BlindTake related fun text => (take text).or (take' text) where
  stops hread := by
    rcases Option.or_eq_some_iff.mp hread with hread | ⟨-, hread⟩
    · exact h.stops hread
    · exact h'.stops hread
  same htext := rel_or (h.same htext) (h'.same htext)

theorem BlindSkip.trimLeft (h : BlindSkip skip) : BlindSkip fun text => skip (trimLeft text) where
  stops hread := (h.stops hread).of_trimLeft
  same htext := h.same htext.trimLeft

theorem BlindTake.trimLeft (h : BlindTake related take) : BlindTake related fun text => take (trimLeft text) where
  stops hread := (h.stops hread).of_trimLeft
  same htext := h.same htext.trimLeft

/-- A reader that begins with no blank is followed from a first character on. -/
theorem BlindTake.of_cons (nil : take [] = none)
    (blank : ∀ c rest, isBlank c = true → take (c :: rest) = none)
    (stops : ∀ {c rest found behind}, take (c :: rest) = some (found, behind) → StopsAt (c :: rest) behind)
    (same : ∀ {c rest rest'}, isBlank c = false → Respaced rest rest' →
      Option.Rel (fun x y => related x.1 y.1 ∧ Respaced x.2 y.2) (take (c :: rest)) (take (c :: rest'))) :
    BlindTake related take where
  stops {text found rest} hread := by
    cases text with
    | nil =>
      rw [nil] at hread
      cases hread
    | cons c text => exact stops hread
  same htext := by
    cases htext with
    | nil =>
      rw [nil]
      exact .none
    | ink hc hrest => exact same hc hrest
    | blanks hrun hrun' =>
      obtain ⟨c, _, rfl, hc, -⟩ := hrun.exists_cons
      obtain ⟨d, _, rfl, hd, -⟩ := hrun'.exists_cons
      rw [List.cons_append, List.cons_append, blank c _ hc, blank d _ hd]
      exact .none

theorem isWord_of_isBlank {c : Char} (h : isBlank c = true) : isWord c = false :=
  isWord_of_isSeparator (isSeparator_of_isBlank h)

theorem blind_expect {c : Char} (hc : isBlank c = false) : BlindSkip (expect c) where
  stops hread := ⟨[], c, eq_cons_of_expect hread, hc⟩
  same htext := by
    cases htext with
    | nil => exact .none
    | ink _ hrest =>
      simp only [expect]
      split
      · exact .some hrest
      · exact .none
    | blanks hrun hrun' =>
      obtain ⟨d, _, rfl, hd, -⟩ := hrun.exists_cons
      obtain ⟨d', _, rfl, hd', -⟩ := hrun'.exists_cons
      simp only [List.cons_append, expect, ne_of_isBlank hd hc, ne_of_isBlank hd' hc, ↓reduceIte]
      exact .none

theorem blind_expectSpaced {c : Char} (hc : isBlank c = false) : BlindSkip (expectSpaced c) :=
  (blind_expect hc).trimLeft

theorem respaced_accept {c : Char} (hc : isBlank c = false) {text text' : List Char} (h : Respaced text text') :
    Respaced (accept c text) (accept c text') := by
  have hread := (blind_expect hc).same h
  unfold accept
  generalize expect c text = x at hread
  generalize expect c text' = y at hread
  cases hread with
  | some hrest => exact hrest
  | none => exact h

theorem BlindSkip.accept {c : Char} (h : BlindSkip skip) (hc : isBlank c = false) :
    BlindSkip fun text => skip (accept c text) where
  stops hread := (h.stops hread).of_accept
  same htext := h.same (respaced_accept hc htext)

theorem BlindTake.accept {c : Char} (h : BlindTake related take) (hc : isBlank c = false) :
    BlindTake related fun text => take (accept c text) where
  stops hread := (h.stops hread).of_accept
  same htext := h.same (respaced_accept hc htext)

/-- A word of characters that are no blanks is the same in any layout. -/
theorem blind_word {p : Char → Bool} (hp : ∀ {c}, isBlank c = true → p c = false) :
    BlindTake Eq fun text =>
      if (text.takeWhile p).isEmpty then none else some (text.takeWhile p, text.dropWhile p) where
  stops {text found rest} hread := by
    split at hread
    · cases hread
    · rename_i hne
      cases hread
      rcases List.eq_nil_or_concat (text.takeWhile p) with hnil | ⟨front, c, hword⟩
      · exact absurd (by rw [hnil]; rfl) hne
      · have hc : p c = true := List.mem_takeWhile_imp (l := text) (by rw [hword]; simp)
        refine ⟨front, c, ?_, ?_⟩
        · rw [List.append_cons, ← List.concat_eq_append, ← hword, List.takeWhile_append_dropWhile]
        · by_contra hblank
          rw [hp (by simpa using hblank)] at hc
          cases hc
  same htext := by
    obtain ⟨htake, hdrop⟩ := htext.span hp
    simp only [htake]
    split
    · exact .none
    · exact .some ⟨rfl, hdrop⟩

end

/-! ### Readers of derivatives -/

theorem takeTime_eq (text : List Char) : takeTime text = (expect 't' text).or (expect 'T' text) := by
  cases text with
  | nil => rfl
  | cons c rest =>
    rw [takeTime_cons]
    simp only [expect]
    split <;> split <;> simp_all

theorem blind_takeTime : BlindSkip takeTime := by
  rw [funext takeTime_eq]
  exact (blind_expect (by decide)).or (blind_expect (by decide))

theorem blind_takeName : BlindTake Eq takeName := by
  refine .of_cons rfl (fun c rest hc => ?_) (fun {c rest found behind} hread => ?_) fun {c rest rest'} _ hrest => ?_
  · have hstart : isNameStart c = false := by
      by_contra hstart
      have hword := isWord_of_isNameStart (by simpa using hstart)
      rw [isWord_of_isBlank hc] at hword
      cases hword
    simp [takeName, hstart]
  · simp only [takeName] at hread
    split at hread
    · rename_i hc
      exact (blind_word isWord_of_isBlank).stops (by simpa [isWord_of_isNameStart hc] using hread)
    · cases hread
  · obtain ⟨htake, hdrop⟩ := hrest.span isWord_of_isBlank
    simp only [takeName, htake]
    split
    · exact .some ⟨rfl, hdrop⟩
    · exact .none

theorem blind_takeNameSpaced : BlindTake Eq takeNameSpaced := blind_takeName.trimLeft

theorem blind_unlessWord : BlindSkip fun text =>
    (takeTime (trimLeft text)).bind fun rest => if rest.head?.any isWord then none else some rest where
  stops hread := by
    obtain ⟨middle, htime, hread⟩ := Option.bind_eq_some_iff.mp hread
    split at hread
    · cases hread
    · cases hread
      exact blind_takeTime.trimLeft.stops htime
  same htext := by
    refine rel_bind (blind_takeTime.trimLeft.same htext) fun rest rest' hrest => ?_
    rw [hrest.any_head?_eq isWord_of_isBlank]
    split
    · exact .none
    · exact .some hrest

theorem takeDenominator_eq (text : List Char) :
    takeDenominator text =
      ((expect '(' text).bind fun rest =>
        (expectSpaced 'd' rest).bind fun rest => (takeTime (trimLeft rest)).bind (expectSpaced ')')).or
      ((expect 'd' text).bind fun rest =>
        (takeTime (trimLeft rest)).bind fun rest => if rest.head?.any isWord then none else some rest) := by
  cases text with
  | nil => rfl
  | cons c rest =>
    rw [takeDenominator_cons]
    by_cases hopen : c = '('
    · simp [expect, hopen]
    · by_cases hd : c = 'd' <;> simp [expect, hopen, hd]

theorem blind_takeDenominator : BlindSkip takeDenominator := by
  rw [funext takeDenominator_eq]
  have hwrapped : BlindSkip fun rest =>
      (expectSpaced 'd' rest).bind fun rest => (takeTime (trimLeft rest)).bind (expectSpaced ')') :=
    (blind_expectSpaced (by decide)).bind (blind_takeTime.trimLeft.bind (blind_expectSpaced (by decide)))
  exact ((blind_expect (by decide)).bind hwrapped).or ((blind_expect (by decide)).bind blind_unlessWord)

theorem blind_takeOverTime : BlindSkip takeOverTime :=
  (blind_expectSpaced (by decide)).bind blind_takeDenominator.trimLeft

theorem blind_takePlain : BlindTake Eq takePlain :=
  (blind_expect (by decide)).bind_take (blind_takeNameSpaced.bind_skip blind_takeOverTime)

theorem blind_takeApplied : BlindTake Eq takeApplied := by
  have h : BlindTake Eq fun text => (expect 'd' text).bind fun rest => (expectSpaced '(' rest).bind fun rest =>
      (takeNameSpaced rest).bind fun found => ((expectSpaced ')' found.2).bind takeOverTime).bind fun rest =>
        some (found.1, rest) :=
    (blind_expect (by decide)).bind_take ((blind_expectSpaced (by decide)).bind_take
      (blind_takeNameSpaced.bind_skip ((blind_expectSpaced (by decide)).bind blind_takeOverTime)))
  simp only [Option.bind_assoc] at h
  exact h

theorem blind_takeWrapped : BlindTake Eq takeWrapped := by
  have h : BlindTake Eq fun text => (expect '(' text).bind fun rest => (expectSpaced 'd' rest).bind fun rest =>
      (takeNameSpaced (acceptSpaced '(' rest)).bind fun found =>
        ((expectSpaced ')' found.2).bind fun rest => takeOverTime (acceptSpaced ')' rest)).bind fun rest =>
          some (found.1, rest) :=
    (blind_expect (by decide)).bind_take ((blind_expectSpaced (by decide)).bind_take
      ((blind_takeNameSpaced.accept (by decide)).trimLeft.bind_skip
        ((blind_expectSpaced (by decide)).bind (blind_takeOverTime.accept (by decide)).trimLeft)))
  simp only [Option.bind_assoc] at h
  exact h

theorem eq_of_rel {α : Type} {x y : Option α} (h : Option.Rel Eq x y) : x = y := by
  cases h with
  | some h => rw [h]
  | none => rfl

/-- Whether a text is a derivative without parentheses, and of what, is the same in any layout. -/
theorem spacedDerivativeOf?_respaced {text text' : List Char} (h : Respaced text text') :
    spacedDerivativeOf? text = spacedDerivativeOf? text' := by
  have hread : BlindTake Eq fun text => (expect 'd' text).bind fun rest => (takeNameSpaced rest).bind fun found =>
      ((expectSpaced '/' found.2).bind fun rest => (expectSpaced 'd' rest).bind fun rest =>
        takeTime (trimLeft rest)).bind fun rest => some (found.1, rest) :=
    (blind_expect (by decide)).bind_take (blind_takeNameSpaced.bind_skip
      ((blind_expectSpaced (by decide)).bind ((blind_expectSpaced (by decide)).bind blind_takeTime.trimLeft)))
  have hwhole : Option.Rel Eq _ _ := rel_bind (hread.same h)
    (f := fun found => if found.2.isEmpty then some found.1 else none)
    (g := fun found => if found.2.isEmpty then some found.1 else none) fun found found' hfound => by
      rw [hfound.1, hfound.2.isEmpty_eq]
      split
      · exact .some rfl
      · exact .none
  simp only [Option.bind_assoc, Option.bind_some] at hwhole
  exact eq_of_rel hwhole

theorem isName_respaced {text text' : List Char} (h : Respaced text text') : isName text = isName text' := by
  have hread := blind_takeName.same h
  have hname (text : List Char) : isName text = (takeName text).any fun found => found.2.isEmpty := by
    unfold isName
    cases takeName text with
    | none => rfl
    | some found =>
      obtain ⟨name, behind⟩ := found
      cases behind <;> rfl
  rw [hname, hname]
  generalize takeName text = x at hread
  generalize takeName text' = y at hread
  cases hread with
  | none => rfl
  | some hfound => exact hfound.2.isEmpty_eq

/-! ### Readers of logarithms -/

theorem blind_takeBase : BlindTake Eq takeBase := by
  have hbase := blind_word (p := isBaseChar) fun h => isBaseChar_of_isSeparator (isSeparator_of_isBlank h)
  exact (blind_expect (by decide)).bind_take ((blind_expect (by decide)).bind_take
    ((blind_expect (by decide)).bind_take ((blind_expectSpaced (by decide)).bind_take hbase.trimLeft)))

theorem takeGroup_cons (depth : Nat) (c : Char) (rest : List Char) :
    takeGroup depth (c :: rest) =
      if c = '(' then (takeGroup (depth + 1) rest).map fun found => (c :: found.1, found.2)
      else if c = ')' then
        match depth with
        | 0 => some ([], rest)
        | depth + 1 => (takeGroup depth rest).map fun found => (c :: found.1, found.2)
      else (takeGroup depth rest).map fun found => (c :: found.1, found.2) := by
  cases depth <;> rfl

/-- A run of blanks in a group is of its inside. -/
theorem takeGroup_run {run : List Char} (h : allBlank run = true) (depth : Nat) (text : List Char) :
    takeGroup depth (run ++ text) = (takeGroup depth text).map fun found => (run ++ found.1, found.2) := by
  induction run with
  | nil => simp
  | cons c run ih =>
    simp only [allBlank, List.all_cons, Bool.and_eq_true] at h
    rw [List.cons_append, takeGroup_cons, if_neg (ne_of_isBlank h.1 (by decide)),
      if_neg (ne_of_isBlank h.1 (by decide)), ih h.2, Option.map_map]
    rfl

theorem blind_takeGroup (depth : Nat) : BlindTake Respaced (takeGroup depth) where
  stops {text found rest} hread := by
    induction text generalizing depth found with
    | nil => cases depth <;> cases hread
    | cons c text ih =>
      have further {depth : Nat} (hread : ((takeGroup depth text).map fun found => (c :: found.1, found.2)) =
          some (found, rest)) : StopsAt (c :: text) rest := by
        obtain ⟨⟨inside, behind⟩, hgroup, heq⟩ := Option.map_eq_some_iff.mp hread
        cases heq
        exact (ih depth hgroup).append [c]
      rw [takeGroup_cons] at hread
      split at hread
      · exact further hread
      · split at hread
        · rename_i hclosing
          cases depth with
          | zero =>
            cases hread
            exact ⟨[], c, rfl, hclosing ▸ (by decide)⟩
          | succ depth => exact further hread
        · exact further hread
  same {text text'} htext := by
    induction htext generalizing depth with
    | nil => cases depth <;> exact .none
    | @ink c text text' _ hrest ih =>
      have further (depth : Nat) : Option.Rel (fun x y => Respaced x.1 y.1 ∧ Respaced x.2 y.2)
          ((takeGroup depth text).map fun found => (c :: found.1, found.2))
          ((takeGroup depth text').map fun found => (c :: found.1, found.2)) :=
        rel_map (ih depth) fun _ _ hfound => ⟨hfound.1.cons c, hfound.2⟩
      rw [takeGroup_cons, takeGroup_cons]
      split
      · exact further (depth + 1)
      · split
        · cases depth with
          | zero => exact .some ⟨.nil, hrest⟩
          | succ depth => exact further depth
        · exact further depth
    | blanks hrun hrun' _ ih =>
      -- Blanks open and close nothing, so as many groups are open behind them.
      rw [takeGroup_run hrun.2, takeGroup_run hrun'.2]
      exact rel_map (ih depth) fun _ _ hfound => ⟨.blanks hrun hrun' hfound.1, hfound.2⟩

theorem respaced_of_eq (text text' : List Char) (h : text = text') : Respaced text text' := h ▸ .refl text

theorem blind_takeArgument : BlindTake Respaced takeArgument := by
  have hword := (blind_word (p := isArgumentChar) fun h =>
    isArgumentChar_of_isSeparator (isSeparator_of_isBlank h)).mono respaced_of_eq
  refine .of_cons rfl (fun c rest hc => ?_) (fun {c rest found behind} hread => ?_) fun {c rest rest'} hc hrest => ?_
  · rw [takeArgument_cons_of_ne (ne_of_isBlank hc (by decide)),
      List.takeWhile_cons_of_neg (by simp [isArgumentChar_of_isSeparator (isSeparator_of_isBlank hc)])]
    rfl
  · by_cases hopen : c = '('
    · subst hopen
      exact ((blind_takeGroup 0).stops hread).append ['(']
    · rw [takeArgument_cons_of_ne hopen] at hread
      exact hword.stops hread
  · by_cases hopen : c = '('
    · subst hopen
      exact (blind_takeGroup 0).same hrest
    · rw [takeArgument_cons_of_ne hopen, takeArgument_cons_of_ne hopen]
      exact hword.same (.ink hc hrest)

/-! ### Readers of sides -/

/-- A run of blanks in front of an equation is of its left side. -/
theorem splitEquation_run {run : List Char} (h : allBlank run = true) (text : List Char) :
    splitEquation (run ++ text) = (splitEquation text).map fun sides => (run ++ sides.1, sides.2) := by
  induction run with
  | nil => simp
  | cons c run ih =>
    simp only [allBlank, List.all_cons, Bool.and_eq_true] at h
    rw [List.cons_append, splitEquation, if_neg (ne_of_isBlank h.1 (by decide)), ih h.2, Option.map_map]
    rfl

theorem blind_splitEquation : BlindTake Respaced splitEquation where
  stops {text left right} hread := ⟨left, '=', (splitEquation_eq_some_iff.mp hread).1, by decide⟩
  same {text text'} htext := by
    induction htext with
    | nil => exact .none
    | @ink c text text' _ hrest ih =>
      simp only [splitEquation]
      split
      · exact .some ⟨.nil, hrest⟩
      · exact rel_map ih fun _ _ hfound => ⟨hfound.1.cons c, hfound.2⟩
    | blanks hrun hrun' _ ih =>
      rw [splitEquation_run hrun.2, splitEquation_run hrun'.2]
      exact rel_map ih fun _ _ hfound => ⟨.blanks hrun hrun' hfound.1, hfound.2⟩

end OdeSystem.Notation
