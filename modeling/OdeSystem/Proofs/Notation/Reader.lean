import OdeSystem.Notation.Canonical
import OdeSystem.Proofs.Text.Pieces

/-!
Recognisers look no further than the end of a side. Each of them is put together from a few readers in a few ways,
and every way keeps this: what is read at the front of a side, and what of the side is left, does not depend on what
stands behind it. So derivatives are brought to their one form on each side of an equation apart.
-/

namespace OdeSystem.Notation

open Text

/-- A reader that skips something, and stops at the end of a side. -/
structure Skips (read : List Char → Option (List Char)) : Prop where
  nil : read [] = none
  extend : ∀ {more : List Char}, EndsSide more → ∀ text, read (text ++ more) = (read text).map (· ++ more)

/-- A reader that takes something, and stops at the end of a side. -/
structure Takes {β : Type} (read : List Char → Option (β × List Char)) : Prop where
  nil : read [] = none
  extend : ∀ {more : List Char}, EndsSide more → ∀ text,
    read (text ++ more) = (read text).map fun found => (found.1, found.2 ++ more)

/-! ### Ways to put readers together -/

section
variable {β : Type} {skip skip' : List Char → Option (List Char)} {take : List Char → Option (β × List Char)}

/-- Of a reader that begins at no separator, it is enough to follow what it does on a side with a character. -/
theorem Skips.of_cons (nil : skip [] = none) (separator : ∀ c rest, isSeparator c = true → skip (c :: rest) = none)
    (cons : ∀ {more : List Char}, EndsSide more → ∀ c rest,
      skip (c :: (rest ++ more)) = (skip (c :: rest)).map (· ++ more)) : Skips skip where
  nil := nil
  extend {more} ends text := by
    cases text with
    | cons c rest => exact cons ends c rest
    | nil =>
      cases more with
      | nil => rw [List.nil_append, nil]; rfl
      | cons c rest => rw [List.nil_append, separator c rest (ends.parted c rfl), nil]; rfl

theorem Takes.of_cons (nil : take [] = none) (separator : ∀ c rest, isSeparator c = true → take (c :: rest) = none)
    (cons : ∀ {more : List Char}, EndsSide more → ∀ c rest,
      take (c :: (rest ++ more)) = (take (c :: rest)).map fun found => (found.1, found.2 ++ more)) : Takes take where
  nil := nil
  extend {more} ends text := by
    cases text with
    | cons c rest => exact cons ends c rest
    | nil =>
      cases more with
      | nil => rw [List.nil_append, nil]; rfl
      | cons c rest => rw [List.nil_append, separator c rest (ends.parted c rfl), nil]; rfl

theorem Skips.bind (h : Skips skip) (h' : Skips skip') : Skips fun text => (skip text).bind skip' where
  nil := by rw [h.nil]; rfl
  extend ends text := by
    rw [h.extend ends]
    cases skip text with
    | none => rfl
    | some rest => exact h'.extend ends rest

theorem Skips.bind_takes (h : Skips skip) (h' : Takes take) : Takes fun text => (skip text).bind take where
  nil := by rw [h.nil]; rfl
  extend ends text := by
    rw [h.extend ends]
    cases skip text with
    | none => rfl
    | some rest => exact h'.extend ends rest

theorem Takes.bind_skips (h : Takes take) (h' : Skips skip) :
    Takes fun text => (take text).bind fun found => (skip found.2).bind fun rest => some (found.1, rest) where
  nil := by rw [h.nil]; rfl
  extend ends text := by
    rw [h.extend ends]
    cases take text with
    | none => rfl
    | some found =>
      simp only [Option.map_some, Option.bind_some, h'.extend ends]
      cases skip found.2 <;> rfl

/-- Behind blanks alone nothing is read, with or without the end of the side. -/
theorem Skips.trimLeft (h : Skips skip) : Skips fun text => skip (trimLeft text) where
  nil := h.nil
  extend {more} ends text := by
    by_cases hblank : Text.trimLeft text = []
    · rw [trimLeft_append_of_eq_nil hblank, hblank, h.nil, ← List.nil_append (Text.trimLeft more),
        h.extend ends.trimLeft, h.nil]
      rfl
    · rw [trimLeft_append_of_ne_nil hblank, h.extend ends]

theorem Takes.trimLeft (h : Takes take) : Takes fun text => take (trimLeft text) where
  nil := h.nil
  extend {more} ends text := by
    by_cases hblank : Text.trimLeft text = []
    · rw [trimLeft_append_of_eq_nil hblank, hblank, h.nil, ← List.nil_append (Text.trimLeft more),
        h.extend ends.trimLeft, h.nil]
      rfl
    · rw [trimLeft_append_of_ne_nil hblank, h.extend ends]

theorem accept_append {c d : Char} {text : List Char} (more : List Char) :
    accept c (d :: text ++ more) = accept c (d :: text) ++ more := by
  simp only [accept, expect, List.cons_append]
  split <;> rfl

theorem accept_of_endsSide {c : Char} (hc : isSeparator c = false) {text : List Char} (ends : EndsSide text) :
    accept c text = text := by
  cases text with
  | nil => rfl
  | cons d rest =>
    have hne : d ≠ c := ne_of_isSeparator (ends.parted d rfl) hc
    simp [accept, expect, hne]

theorem Skips.accept (h : Skips skip) {c : Char} (hc : isSeparator c = false) :
    Skips fun text => skip (accept c text) where
  nil := h.nil
  extend {more} ends text := by
    cases text with
    | nil => rw [List.nil_append, accept_of_endsSide hc ends, ← List.nil_append more, h.extend ends]; rfl
    | cons d rest => rw [accept_append, h.extend ends]

theorem Takes.accept (h : Takes take) {c : Char} (hc : isSeparator c = false) :
    Takes fun text => take (accept c text) where
  nil := h.nil
  extend {more} ends text := by
    cases text with
    | nil => rw [List.nil_append, accept_of_endsSide hc ends, ← List.nil_append more, h.extend ends]; rfl
    | cons d rest => rw [accept_append, h.extend ends]

end

/-! ### Readers of derivatives -/

theorem skips_expect {c : Char} (hc : isSeparator c = false) : Skips (expect c) := by
  refine .of_cons rfl (fun d rest hd => ?_) fun _ d rest => ?_
  · have hne : d ≠ c := ne_of_isSeparator hd hc
    simp [expect, hne]
  · simp only [expect]
    split <;> rfl

theorem skips_expectSpaced {c : Char} (hc : isSeparator c = false) : Skips (expectSpaced c) :=
  (skips_expect hc).trimLeft

theorem takeTime_cons (c : Char) (rest : List Char) :
    takeTime (c :: rest) = if c = 't' ∨ c = 'T' then some rest else none := by
  by_cases ht : c = 't'
  · subst ht
    rfl
  · by_cases hT : c = 'T'
    · subst hT
      rfl
    · simp [takeTime, ht, hT]

theorem skips_takeTime : Skips takeTime := by
  refine .of_cons rfl (fun c rest hc => ?_) fun _ c rest => ?_
  · have ht : c ≠ 't' := ne_of_isSeparator hc (by decide)
    have hT : c ≠ 'T' := ne_of_isSeparator hc (by decide)
    simp [takeTime_cons, ht, hT]
  · rw [takeTime_cons, takeTime_cons]
    split <;> rfl

theorem takes_takeName : Takes takeName := by
  refine .of_cons rfl (fun c rest hc => ?_) fun ends c rest => ?_
  · have hline : c ≠ '_' := ne_of_isSeparator hc (by decide)
    simp [takeName, isNameStart, isLatin_of_isSeparator hc, hline]
  · obtain ⟨htake, hdrop⟩ := takeWhile_append_of_parted isWord_of_isSeparator ends.parted rest
    simp only [takeName, htake, hdrop]
    split <;> rfl

theorem takes_takeNameSpaced : Takes takeNameSpaced := takes_takeName.trimLeft

theorem takeDenominator_cons (c : Char) (rest : List Char) :
    takeDenominator (c :: rest) =
      if c = '(' then (expectSpaced 'd' rest).bind fun rest => (takeTime (trimLeft rest)).bind (expectSpaced ')')
      else if c = 'd' then
        (takeTime (trimLeft rest)).bind fun rest => if rest.head?.any isWord then none else some rest
      else none := by
  by_cases hopen : c = '('
  · subst hopen
    rfl
  · by_cases hd : c = 'd'
    · subst hd
      rfl
    · simp [takeDenominator, hopen, hd]

theorem skips_unlessWord : Skips fun text =>
    (takeTime (trimLeft text)).bind fun rest => if rest.head?.any isWord then none else some rest where
  nil := rfl
  extend {more} ends text := by
    rw [skips_takeTime.trimLeft.extend ends]
    cases takeTime (trimLeft text) with
    | none => rfl
    | some rest =>
      have hhead : (rest ++ more).head?.any isWord = rest.head?.any isWord := by
        cases rest with
        | cons c rest => rfl
        | nil =>
          cases more with
          | nil => rfl
          | cons c rest => simp [isWord_of_isSeparator (ends.parted c rfl)]
      simp only [Option.map_some, Option.bind_some, hhead]
      split <;> rfl

theorem skips_takeDenominator : Skips takeDenominator := by
  refine .of_cons rfl (fun c rest hc => ?_) fun ends c rest => ?_
  · have hopen : c ≠ '(' := ne_of_isSeparator hc (by decide)
    have hd : c ≠ 'd' := ne_of_isSeparator hc (by decide)
    simp [takeDenominator_cons, hopen, hd]
  · have hwrapped : Skips fun rest =>
        (expectSpaced 'd' rest).bind fun rest => (takeTime (trimLeft rest)).bind (expectSpaced ')') :=
      (skips_expectSpaced (by decide)).bind (skips_takeTime.trimLeft.bind (skips_expectSpaced (by decide)))
    rw [takeDenominator_cons, takeDenominator_cons, hwrapped.extend ends, skips_unlessWord.extend ends]
    split
    · rfl
    · split <;> rfl

theorem skips_takeOverTime : Skips takeOverTime :=
  (skips_expectSpaced (by decide)).bind skips_takeDenominator.trimLeft

theorem takes_takePlain : Takes takePlain :=
  (skips_expect (by decide)).bind_takes (takes_takeNameSpaced.bind_skips skips_takeOverTime)

theorem takes_takeApplied : Takes takeApplied := by
  have h : Takes fun text => (expect 'd' text).bind fun rest => (expectSpaced '(' rest).bind fun rest =>
      (takeNameSpaced rest).bind fun found => ((expectSpaced ')' found.2).bind takeOverTime).bind fun rest =>
        some (found.1, rest) :=
    (skips_expect (by decide)).bind_takes ((skips_expectSpaced (by decide)).bind_takes
      (takes_takeNameSpaced.bind_skips ((skips_expectSpaced (by decide)).bind skips_takeOverTime)))
  simp only [Option.bind_assoc] at h
  exact h

theorem takes_takeWrapped : Takes takeWrapped := by
  have h : Takes fun text => (expect '(' text).bind fun rest => (expectSpaced 'd' rest).bind fun rest =>
      (takeNameSpaced (acceptSpaced '(' rest)).bind fun found =>
        ((expectSpaced ')' found.2).bind fun rest => takeOverTime (acceptSpaced ')' rest)).bind fun rest =>
          some (found.1, rest) :=
    (skips_expect (by decide)).bind_takes ((skips_expectSpaced (by decide)).bind_takes
      ((takes_takeNameSpaced.accept (by decide)).trimLeft.bind_skips
        ((skips_expectSpaced (by decide)).bind (skips_takeOverTime.accept (by decide)).trimLeft)))
  simp only [Option.bind_assoc] at h
  exact h

/-! ### Derivatives on each side apart -/

/-- The search for a spelling that begins with a character which is no separator is confined to a side. -/
theorem confined_derivativeFinder {take : List Char → Option (List Char × List Char)} (h : Takes take) {first : Char}
    (hfirst : isSeparator first = false) (begins : ∀ c rest, c ≠ first → take (c :: rest) = none) (atWord : Bool) :
    Confined (derivativeFinder atWord take) where
  extend {before c rest more} ends := by
    simp only [derivativeFinder, ← List.cons_append, h.extend ends (c :: rest), atBoundary]
    cases take (c :: rest) with
    | none => rfl
    | some found => simp [Nat.add_sub_add_right]
  separator hc := by simp [derivativeFinder, begins _ _ (ne_of_isSeparator hc hfirst)]
  before {before before'} hbefore := by
    funext c rest
    have hboundary : atBoundary before (c :: rest) = atBoundary before' (c :: rest) := by
      rw [atBoundary, atBoundary, hbefore]
    simp only [derivativeFinder, hboundary]
  within {before c rest replacement extra} hfind := by
    simp only [derivativeFinder] at hfind
    split at hfind
    · cases hfind
    · obtain ⟨found, -, heq⟩ := Option.map_eq_some_iff.mp hfind
      cases heq
      exact Nat.sub_le ..

theorem sidewise_plainDerivatives : Sidewise plainDerivatives := by
  have begins {c d : Char} (rest : List Char) (h : c ≠ d) : expect d (c :: rest) = none := by simp [expect, h]
  have hwrapped := confined_derivativeFinder takes_takeWrapped (by decide)
    (fun c rest (hc : c ≠ '(') => by simp [takeWrapped, begins rest hc]) false
  have happlied := confined_derivativeFinder takes_takeApplied (by decide)
    (fun c rest (hc : c ≠ 'd') => by simp [takeApplied, begins rest hc]) true
  have hplain := confined_derivativeFinder takes_takePlain (by decide)
    (fun c rest (hc : c ≠ 'd') => by simp [takePlain, begins rest hc]) true
  exact (hwrapped.sidewise.comp happlied.sidewise).comp hplain.sidewise

/-! ### What is read stands in the text -/

theorem eq_cons_of_expect {c : Char} {text rest : List Char} (h : expect c text = some rest) : text = c :: rest := by
  cases text with
  | nil => cases h
  | cons d text =>
    simp only [expect] at h
    split at h
    · rename_i heq
      cases h
      rw [heq]
    · cases h

theorem expect_suffix {c : Char} {text rest : List Char} (h : expect c text = some rest) : rest <:+ text :=
  eq_cons_of_expect h ▸ List.suffix_cons ..

theorem mem_of_expect {c : Char} {text rest : List Char} (h : expect c text = some rest) : c ∈ text :=
  eq_cons_of_expect h ▸ List.mem_cons_self ..

theorem mem_of_expectSpaced {c : Char} {text rest : List Char} (h : expectSpaced c text = some rest) : c ∈ text :=
  (List.dropWhile_suffix _).subset (mem_of_expect h)

theorem takeName_suffix {text name rest : List Char} (h : takeName text = some (name, rest)) : rest <:+ text := by
  cases text with
  | nil => cases h
  | cons c text =>
    simp only [takeName] at h
    split at h
    · cases h
      exact (List.dropWhile_suffix _).trans (List.suffix_cons ..)
    · cases h

theorem mem_of_spacedDerivativeOf? {text name : List Char} (h : spacedDerivativeOf? text = some name) :
    '/' ∈ text := by
  simp only [spacedDerivativeOf?, Option.bind_eq_bind, Option.bind_eq_some_iff] at h
  obtain ⟨r₁, h₁, ⟨found, r₂⟩, h₂, r₃, h₃, -⟩ := h
  have hsuffix : r₂ <:+ r₁ := (takeName_suffix h₂).trans (List.dropWhile_suffix _)
  exact (expect_suffix h₁).subset (hsuffix.subset (mem_of_expectSpaced h₃))

/-! ### Identifiers -/

section
variable {name : List Char}

/-- An identifier is read as a name up to where its word ends. -/
theorem takeName_append (hname : isIdentifier name = true) {rest : List Char}
    (hrest : rest.head?.any isWord = false) : takeName (name ++ rest) = some (name, rest) := by
  cases name with
  | nil => cases hname
  | cons c tail =>
    have hword : ∀ d ∈ tail, isWord d = true := fun d hd =>
      isWord_of_isIdentifierChar (isIdentifierChar_of_mem hname d (List.mem_cons_of_mem _ hd))
    have hstop : rest.takeWhile isWord = [] ∧ rest.dropWhile isWord = rest := by
      cases rest with
      | nil => exact ⟨rfl, rfl⟩
      | cons d rest => simp_all
    simp only [isIdentifier, Bool.and_eq_true] at hname
    rw [List.cons_append, takeName, if_pos hname.1, List.takeWhile_append_of_pos hword,
      List.dropWhile_append_of_pos hword, hstop.1, hstop.2, List.append_nil]

theorem isName_of_isIdentifier (hname : isIdentifier name = true) : isName name = true := by
  have h : takeName (name ++ []) = some (name, []) := takeName_append hname rfl
  rw [List.append_nil] at h
  rw [isName, h]

theorem trimLeft_identifier (hname : isIdentifier name = true) (rest : List Char) :
    trimLeft (name ++ rest) = name ++ rest := by
  cases name with
  | nil => cases hname
  | cons c tail =>
    exact trimLeft_cons_of_not_isBlank
      (isBlank_of_isIdentifierChar (isIdentifierChar_of_mem hname c (List.mem_cons_self ..)))

theorem not_mem_of_isIdentifier (hname : isIdentifier name = true) {c : Char} (hc : isIdentifierChar c = false) :
    c ∉ name := fun hmem => ne_of_isIdentifierChar (isIdentifierChar_of_mem hname c hmem) hc rfl

theorem takePlain_derivative (hname : isIdentifier name = true) :
    takePlain (derivative name) = some (name, []) := by
  have hover : takeOverTime ['/', 'd', 't'] = some [] := by decide
  have hread : takeNameSpaced (name ++ ['/', 'd', 't']) = some (name, ['/', 'd', 't']) := by
    rw [takeNameSpaced, trimLeft_identifier hname]
    exact takeName_append hname (by decide)
  simp [takePlain, derivative, expect, hread, hover]

theorem derivativeOf?_derivative (hname : isIdentifier name = true) :
    derivativeOf? (derivative name) = some name := by
  have hread : takeName (name ++ ['/', 'd', 't']) = some (name, ['/', 'd', 't']) :=
    takeName_append hname (by decide)
  simp [derivativeOf?, derivative, accept, expect, hread, takeTime_cons]

theorem spacedDerivativeOf?_derivative (hname : isIdentifier name = true) :
    spacedDerivativeOf? (derivative name) = some name := by
  have hread : takeNameSpaced (name ++ ['/', 'd', 't']) = some (name, ['/', 'd', 't']) := by
    rw [takeNameSpaced, trimLeft_identifier hname]
    exact takeName_append hname (by decide)
  have htime : takeTime (trimLeft ['t']) = some [] := by decide
  simp [spacedDerivativeOf?, derivative, expectSpaced, expect, hread, htime,
    trimLeft_cons_of_not_isBlank (show isBlank '/' = false by decide),
    trimLeft_cons_of_not_isBlank (show isBlank 'd' = false by decide)]

end

end OdeSystem.Notation
