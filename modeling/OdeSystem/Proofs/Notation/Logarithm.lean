import OdeSystem.Notation.Logarithm
import OdeSystem.Proofs.Notation.Reader

/-!
Logarithms on each side of an equation apart. The argument of a subscripted logarithm may be a group in parentheses,
which is read to its end wherever that is; so the sides are apart only if no group can begin on the left one and end
on the right one.
-/

namespace OdeSystem.Notation

open Text

/-- The text with every subscripted logarithm replaced, given the character before it. -/
def plainLogarithmsFrom (before : Option Char) (text : List Char) : List Char :=
  (pieces logarithmPiece before text).flatten

/-- Reads `log_b`, but not the blanks behind it. -/
def takeBase (text : List Char) : Option (List Char × List Char) :=
  (expect 'l' text).bind fun rest => (expect 'o' rest).bind fun rest => (expect 'g' rest).bind fun rest =>
    (expectSpaced '_' rest).bind fun rest =>
      if ((trimLeft rest).takeWhile isBaseChar).isEmpty then none
      else some ((trimLeft rest).takeWhile isBaseChar, (trimLeft rest).dropWhile isBaseChar)

theorem takeSubscript_eq (text : List Char) :
    takeSubscript text = (takeBase text).map fun found => (found.1, trimLeft found.2) := by
  unfold takeSubscript takeBase
  simp only [Option.bind_eq_bind, Option.map_bind, Function.comp_def]
  congr; funext; congr; funext; congr; funext; congr; funext
  split <;> rfl

theorem isBaseChar_of_isSeparator {c : Char} (h : isSeparator c = true) : isBaseChar c = false := by
  have hne : c ≠ '.' := ne_of_isSeparator h (by decide)
  simp [isBaseChar, isLatin_of_isSeparator h, isAsciiDigit_of_isSeparator h, hne]

theorem isArgumentChar_of_isSeparator {c : Char} (h : isSeparator c = true) : isArgumentChar c = false := by
  have hdot : c ≠ '.' := ne_of_isSeparator h (by decide)
  have hline : c ≠ '_' := ne_of_isSeparator h (by decide)
  simp [isArgumentChar, isNameChar, isAlphanumeric_of_isSeparator h, hdot, hline]

theorem takes_takeBase : Takes takeBase := by
  have hbase : Takes fun rest => if (rest.takeWhile isBaseChar).isEmpty then none
      else some (rest.takeWhile isBaseChar, rest.dropWhile isBaseChar) := by
    refine ⟨rfl, fun {more} ends text => ?_⟩
    obtain ⟨htake, hdrop⟩ := takeWhile_append_of_parted isBaseChar_of_isSeparator ends.parted text
    rw [htake, hdrop]
    split <;> rfl
  exact (skips_expect (by decide)).bind_takes ((skips_expect (by decide)).bind_takes
    ((skips_expect (by decide)).bind_takes ((skips_expectSpaced (by decide)).bind_takes hbase.trimLeft)))

theorem takeGroup_append {more : List Char} (hclosing : ')' ∉ more) (depth : Nat) (text : List Char) :
    takeGroup depth (text ++ more) = (takeGroup depth text).map fun found => (found.1, found.2 ++ more) := by
  have never (depth : Nat) : takeGroup depth more = none := by
    induction more generalizing depth with
    | nil => cases depth <;> rfl
    | cons c rest ih =>
      rw [List.mem_cons, not_or] at hclosing
      unfold takeGroup
      split
      · rw [ih hclosing.2]
        rfl
      · rw [if_neg (Ne.symm hclosing.1), ih hclosing.2]
        rfl
  induction text generalizing depth with
  | nil =>
    rw [List.nil_append, never]
    cases depth <;> rfl
  | cons c rest ih =>
    rw [List.cons_append]
    unfold takeGroup
    split
    · rw [ih]
      cases takeGroup (depth + 1) rest <;> rfl
    · split
      · cases depth with
        | zero => rfl
        | succ depth =>
          simp only [ih]
          cases takeGroup depth rest <;> rfl
      · rw [ih]
        cases takeGroup depth rest <;> rfl

theorem takeArgument_cons_of_ne {c : Char} (h : c ≠ '(') (rest : List Char) :
    takeArgument (c :: rest) =
      if ((c :: rest).takeWhile isArgumentChar).isEmpty then none
      else some ((c :: rest).takeWhile isArgumentChar, (c :: rest).dropWhile isArgumentChar) := by
  unfold takeArgument
  split
  · rename_i heq
    exact absurd (List.cons.inj heq).1 h
  · rfl

theorem takeArgument_of_endsSide {text : List Char} (ends : EndsSide text) : takeArgument text = none := by
  cases text with
  | nil => rfl
  | cons c rest =>
    have hc := ends.parted c rfl
    rw [takeArgument_cons_of_ne (ne_of_isSeparator hc (by decide)),
      List.takeWhile_cons_of_neg (by simp [isArgumentChar_of_isSeparator hc])]
    rfl

/-- What is read as an argument is read without what stands behind the side, unless a group reaches over its end. -/
theorem takeArgument_append {text more : List Char} (apart : '(' ∉ text ∨ ')' ∉ more) (ends : EndsSide more) :
    takeArgument (text ++ more) = (takeArgument text).map fun found => (found.1, found.2 ++ more) := by
  cases text with
  | nil => exact takeArgument_of_endsSide ends
  | cons c rest =>
    by_cases hopen : c = '('
    · subst hopen
      exact takeGroup_append (apart.resolve_left (by simp)) 0 rest
    · obtain ⟨htake, hdrop⟩ := takeWhile_append_of_parted isArgumentChar_of_isSeparator ends.parted (c :: rest)
      rw [List.cons_append, takeArgument_cons_of_ne hopen, takeArgument_cons_of_ne hopen, ← List.cons_append, htake,
        hdrop]
      split <;> rfl

theorem takeBase_suffix {text base rest : List Char} (h : takeBase text = some (base, rest)) : rest <:+ text := by
  simp only [takeBase, Option.bind_eq_some_iff, expectSpaced] at h
  obtain ⟨r₁, h₁, r₂, h₂, r₃, h₃, r₄, h₄, hlast⟩ := h
  split at hlast
  · cases hlast
  · cases hlast
    exact (List.dropWhile_suffix _).trans <| (List.dropWhile_suffix _).trans <| (expect_suffix h₄).trans <|
      (List.dropWhile_suffix _).trans <| (expect_suffix h₃).trans <| (expect_suffix h₂).trans (expect_suffix h₁)

/-! ### The search -/

theorem logarithmPiece_eq (before : Option Char) (c : Char) (rest : List Char) :
    logarithmPiece before c rest =
      match if atBoundary before (c :: rest) then takeBase (c :: rest) else none with
      | none => ⟨[c], 0, some c⟩
      | some (base, behind) =>
        match takeArgument (trimLeft behind) with
        | some (argument, behind) => ⟨logarithm argument base, rest.length - behind.length, none⟩
        | none => ⟨(c :: rest).take ((c :: rest).length - (trimLeft behind).length),
            rest.length - (trimLeft behind).length, none⟩ := by
  unfold logarithmPiece
  simp only [takeSubscript_eq]
  cases atBoundary before (c :: rest) with
  | false => rfl
  | true => cases takeBase (c :: rest) <;> rfl

theorem plainLogarithmsFrom_separator {c : Char} (hc : isSeparator c = true) (before : Option Char)
    (rest : List Char) : plainLogarithmsFrom before (c :: rest) = c :: plainLogarithmsFrom none rest := by
  have hl : c ≠ 'l' := ne_of_isSeparator hc (by decide)
  have hnone (rest : List Char) : takeBase (c :: rest) = none := by simp [takeBase, expect, hl]
  have hrule (d : Char) (rest : List Char) : logarithmPiece (some c) d rest = logarithmPiece none d rest := by
    have hboundary : atBoundary (some c) (d :: rest) = atBoundary none (d :: rest) := by
      simp [atBoundary, isWord_of_isSeparator hc]
    rw [logarithmPiece_eq, logarithmPiece_eq, hboundary]
  rw [plainLogarithmsFrom, pieces_cons, logarithmPiece_eq, hnone, ite_self]
  simp only [List.drop_zero, List.flatten_cons, List.singleton_append, plainLogarithmsFrom]
  cases rest with
  | nil => rfl
  | cons d rest => rw [pieces_cons, pieces_cons, hrule]

theorem plainLogarithmsFrom_blanks {leading : List Char} (hleading : allBlank leading = true) (text : List Char) :
    plainLogarithmsFrom none (leading ++ text) = leading ++ plainLogarithmsFrom none text := by
  induction leading with
  | nil => rfl
  | cons c rest ih =>
    simp only [allBlank, List.all_cons, Bool.and_eq_true] at hleading
    rw [List.cons_append, plainLogarithmsFrom_separator (isSeparator_of_isBlank hleading.1), ih hleading.2,
      List.cons_append]

/-- A logarithm without an argument stays as it stands, with the blanks behind it. -/
theorem plainLogarithmsFrom_lost (before : Option Char) (c : Char) (front after : List Char) {base behind : List Char}
    (hword : atBoundary before (c :: (front ++ after)) = true)
    (hfound : takeBase (c :: (front ++ after)) = some (base, behind)) (hafter : trimLeft behind = after)
    (hargument : takeArgument after = none) :
    plainLogarithmsFrom before (c :: (front ++ after)) = c :: front ++ plainLogarithmsFrom none after := by
  have htake : (c :: (front ++ after)).take ((c :: (front ++ after)).length - after.length) = c :: front := by
    rw [← List.cons_append, List.length_append, Nat.add_sub_cancel, List.take_left]
  have hdrop : (front ++ after).drop ((front ++ after).length - after.length) = after := by
    rw [List.length_append, Nat.add_sub_cancel, List.drop_left]
  rw [plainLogarithmsFrom, pieces_cons, logarithmPiece_eq, if_pos hword, hfound]
  simp only [hafter, hargument, htake, hdrop, List.flatten_cons, plainLogarithmsFrom]

section
variable {more rest : List Char} {before : Option Char} {c : Char}

theorem takeBase_append (ends : EndsSide more) (text : List Char) :
    takeBase (text ++ more) = (takeBase text).map fun found => (found.1, found.2 ++ more) :=
  takes_takeBase.extend ends text

/-- Where no logarithm begins, none does with what stands behind the side. -/
theorem logarithmPiece_append_of_none (ends : EndsSide more)
    (hnone : (if atBoundary before (c :: rest) then takeBase (c :: rest) else none) = none) :
    logarithmPiece before c (rest ++ more) = logarithmPiece before c rest ∧
      (logarithmPiece before c rest).extra ≤ rest.length := by
  have hboundary : atBoundary before (c :: (rest ++ more)) = atBoundary before (c :: rest) := rfl
  have hmore : (if atBoundary before (c :: rest) then takeBase (c :: (rest ++ more)) else none) = none := by
    rw [← List.cons_append, takeBase_append ends]
    split
    · rename_i hword
      rw [if_pos hword] at hnone
      rw [hnone]
      rfl
    · rfl
  rw [logarithmPiece_eq, logarithmPiece_eq, hboundary, hmore, hnone]
  exact ⟨rfl, Nat.zero_le _⟩

variable {base behind : List Char}

/-- A logarithm whose argument, or what stands in its place, begins within the side is the same with what stands behind
the side. -/
theorem logarithmPiece_append_of_some (apart : '(' ∉ c :: rest ∨ ')' ∉ more) (ends : EndsSide more)
    (hword : atBoundary before (c :: rest) = true) (hfound : takeBase (c :: rest) = some (base, behind))
    (hwithin : trimLeft behind ≠ []) :
    logarithmPiece before c (rest ++ more) = logarithmPiece before c rest ∧
      (logarithmPiece before c rest).extra ≤ rest.length := by
  have hboundary : atBoundary before (c :: (rest ++ more)) = atBoundary before (c :: rest) := rfl
  have hbase : takeBase (c :: (rest ++ more)) = some (base, behind ++ more) := by
    rw [← List.cons_append, takeBase_append ends, hfound]
    rfl
  have hsuffix : trimLeft behind <:+ c :: rest := (List.dropWhile_suffix _).trans (takeBase_suffix hfound)
  have hargument : takeArgument (trimLeft (behind ++ more)) =
      (takeArgument (trimLeft behind)).map fun found => (found.1, found.2 ++ more) := by
    rw [trimLeft_append_of_ne_nil hwithin]
    exact takeArgument_append (apart.imp_left fun hopen hmem => hopen (hsuffix.subset hmem)) ends
  have htake : (c :: rest ++ more).take ((c :: rest ++ more).length - (trimLeft behind ++ more).length) =
      (c :: rest).take ((c :: rest).length - (trimLeft behind).length) := by
    rw [List.length_append, List.length_append, Nat.add_sub_add_right,
      List.take_append_of_le_length (Nat.sub_le ..)]
  rw [List.cons_append] at htake
  rw [logarithmPiece_eq, logarithmPiece_eq, hboundary, if_pos hword, if_pos hword, hbase, hfound]
  simp only [hargument]
  cases takeArgument (trimLeft behind) with
  | some found => simp [Nat.add_sub_add_right]
  | none =>
    simp only [Option.map_none, trimLeft_append_of_ne_nil hwithin, htake]
    simp [Nat.add_sub_add_right]

/-- A logarithm that ends the side has no argument, nor does it get one from what stands behind. -/
theorem plainLogarithmsFrom_append_lost (ends : EndsSide more) (hword : atBoundary before (c :: rest) = true)
    (hfound : takeBase (c :: rest) = some (base, behind)) (hblank : trimLeft behind = []) :
    plainLogarithmsFrom before (c :: rest ++ more) =
      plainLogarithmsFrom before (c :: rest) ++ plainLogarithmsFrom none more := by
  obtain ⟨leading, hleading, hmore⟩ := exists_blanks_append_trimLeft more
  have halone : plainLogarithmsFrom before (c :: rest) = c :: rest := by
    have := plainLogarithmsFrom_lost before c rest [] (by rwa [List.append_nil]) (by rwa [List.append_nil]) hblank rfl
    rw [List.append_nil] at this
    exact this.trans (List.append_nil _)
  have htext : rest ++ more = rest ++ leading ++ trimLeft more := by rw [List.append_assoc, ← hmore]
  have hbase : takeBase (c :: (rest ++ leading ++ trimLeft more)) = some (base, behind ++ more) := by
    rw [← htext, ← List.cons_append, takeBase_append ends, hfound]
    rfl
  have hboth := plainLogarithmsFrom_lost before c (rest ++ leading) (trimLeft more) hword hbase
    (trimLeft_append_of_eq_nil hblank more) (takeArgument_of_endsSide ends.trimLeft)
  have hbehind : plainLogarithmsFrom none more = leading ++ plainLogarithmsFrom none (trimLeft more) :=
    (congrArg _ hmore).trans (plainLogarithmsFrom_blanks hleading _)
  rw [List.cons_append, htext, hboth, halone, hbehind, List.cons_append, List.cons_append, List.append_assoc]

end

/-- What a search finds in a side, and what of it is left to search, is the same with what stands behind the side;
only the blanks there go with a logarithm that has lost its argument. -/
theorem plainLogarithmsFrom_append {text more : List Char} (apart : '(' ∉ text ∨ ')' ∉ more) (ends : EndsSide more)
    (before : Option Char) :
    ∃ before', plainLogarithmsFrom before (text ++ more) =
      plainLogarithmsFrom before text ++ plainLogarithmsFrom before' more := by
  revert apart
  refine @pieces_induction _ _ logarithmPiece (fun before text => ('(' ∉ text ∨ ')' ∉ more) →
      ∃ before', plainLogarithmsFrom before (text ++ more) =
        plainLogarithmsFrom before text ++ plainLogarithmsFrom before' more)
    (fun before _ => ⟨before, rfl⟩) (fun before c rest ih apart => ?_) before text
  -- Where the first piece does not change, the rest of the side is searched on.
  have step (hsame : logarithmPiece before c (rest ++ more) = logarithmPiece before c rest ∧
      (logarithmPiece before c rest).extra ≤ rest.length) :
      ∃ before', plainLogarithmsFrom before (c :: rest ++ more) =
        plainLogarithmsFrom before (c :: rest) ++ plainLogarithmsFrom before' more := by
    obtain ⟨before', hbehind⟩ := ih (apart.imp_left fun hopen hmem =>
      hopen (List.mem_cons_of_mem _ (List.mem_of_mem_drop hmem)))
    refine ⟨before', ?_⟩
    rw [List.cons_append, plainLogarithmsFrom, pieces_cons, hsame.1, List.drop_append_of_le_length hsame.2,
      plainLogarithmsFrom, pieces_cons, List.flatten_cons, List.flatten_cons, List.append_assoc]
    exact congrArg _ hbehind
  cases hfound : if atBoundary before (c :: rest) then takeBase (c :: rest) else none with
  | none => exact step (logarithmPiece_append_of_none ends hfound)
  | some found =>
    obtain ⟨base, behind⟩ := found
    have hword : atBoundary before (c :: rest) = true := by
      by_contra hnot
      rw [if_neg hnot] at hfound
      cases hfound
    rw [if_pos hword] at hfound
    by_cases hblank : trimLeft behind = []
    · exact ⟨none, plainLogarithmsFrom_append_lost ends hword hfound hblank⟩
    · exact step (logarithmPiece_append_of_some apart ends hword hfound hblank)

theorem plainLogarithms_append {text more : List Char} (apart : '(' ∉ text ∨ ')' ∉ more) (ends : EndsSide more) :
    plainLogarithms (text ++ more) = plainLogarithms text ++ plainLogarithms more := by
  obtain ⟨before, hbehind⟩ := plainLogarithmsFrom_append apart ends none
  refine hbehind.trans (congrArg (plainLogarithmsFrom none text ++ ·) ?_)
  cases more with
  | nil => rfl
  | cons c rest =>
    have hc := ends.parted c rfl
    exact (plainLogarithmsFrom_separator hc before rest).trans (plainLogarithmsFrom_separator hc none rest).symm

/-! ### What a replacement writes -/

theorem subset_of_takeGroup {depth : Nat} {text inside behind : List Char}
    (h : takeGroup depth text = some (inside, behind)) : inside ⊆ text := by
  induction text generalizing depth inside with
  | nil => cases depth <;> cases h
  | cons c rest ih =>
    have step {depth : Nat} (h : (takeGroup depth rest).map (fun found => (c :: found.1, found.2)) =
        some (inside, behind)) : inside ⊆ c :: rest := by
      obtain ⟨found, hfound, heq⟩ := Option.map_eq_some_iff.mp h
      cases heq
      exact List.cons_subset_cons c (ih hfound)
    unfold takeGroup at h
    split at h
    · exact step h
    · split at h
      · cases depth with
        | zero =>
          cases h
          exact List.nil_subset _
        | succ depth => exact step h
      · exact step h

theorem subset_of_takeArgument {text argument behind : List Char} (h : takeArgument text = some (argument, behind)) :
    argument ⊆ text := by
  cases text with
  | nil => cases h
  | cons c rest =>
    by_cases hopen : c = '('
    · subst hopen
      exact List.subset_cons_of_subset _ (subset_of_takeGroup h)
    · rw [takeArgument_cons_of_ne hopen] at h
      split at h
      · cases h
      · cases h
        exact (List.takeWhile_sublist _).subset

theorem subset_of_takeBase {text base behind : List Char} (h : takeBase text = some (base, behind)) :
    base ⊆ text := by
  simp only [takeBase, Option.bind_eq_some_iff, expectSpaced] at h
  obtain ⟨r₁, h₁, r₂, h₂, r₃, h₃, r₄, h₄, hlast⟩ := h
  split at hlast
  · cases hlast
  · cases hlast
    have hsuffix : trimLeft r₄ <:+ text :=
      (List.dropWhile_suffix _).trans <| (expect_suffix h₄).trans <| (List.dropWhile_suffix _).trans <|
        (expect_suffix h₃).trans <| (expect_suffix h₂).trans (expect_suffix h₁)
    exact fun c hc => hsuffix.subset ((List.takeWhile_sublist _).subset hc)

theorem mem_logarithmPiece {before : Option Char} {c d : Char} {rest : List Char}
    (h : d ∈ (logarithmPiece before c rest).value) : d ∈ c :: rest ∨ d ∈ "log(, )".toList := by
  rw [logarithmPiece_eq] at h
  split at h
  · exact .inl (List.mem_singleton.mp h ▸ List.mem_cons_self ..)
  · rename_i base behind hfound
    split at hfound
    · split at h
      · rename_i argument after hargument
        -- The parts are `log(`, the argument, a comma and a blank, the base, and `)`.
        rcases List.mem_append.mp (show d ∈ logarithm argument base from h) with h | hclosing
        · rcases List.mem_append.mp h with h | hbase
          · rcases List.mem_append.mp h with h | hcomma
            · rcases List.mem_append.mp h with hopening | h
              · exact .inr (List.mem_append_left [',', ' ', ')'] hopening)
              · have hargued : d ∈ trimLeft behind := subset_of_takeArgument hargument h
                exact .inl ((takeBase_suffix hfound).subset ((List.dropWhile_suffix _).subset hargued))
            · exact .inr (List.mem_append_right ['l', 'o', 'g', '('] (List.mem_append_left [')'] hcomma))
          · exact .inl (subset_of_takeBase hfound hbase)
        · exact .inr (List.mem_append_right ['l', 'o', 'g', '(', ',', ' '] hclosing)
      · exact .inl (List.mem_of_mem_take h)
    · cases hfound

/-- Replacing logarithms brings no other characters than those a logarithm is written with. -/
theorem mem_plainLogarithms {text : List Char} {c : Char} (h : c ∈ plainLogarithms text) :
    c ∈ text ∨ c ∈ "log(, )".toList := by
  revert h
  refine @pieces_induction _ _ logarithmPiece (fun before text =>
      c ∈ (pieces logarithmPiece before text).flatten → c ∈ text ∨ c ∈ "log(, )".toList)
    (fun _ h => nomatch h) (fun before d rest ih h => ?_) none text
  rw [pieces_cons, List.flatten_cons, List.mem_append] at h
  rcases h with h | h
  · exact mem_logarithmPiece h
  · exact (ih h).imp_left fun hmem => List.mem_cons_of_mem _ (List.mem_of_mem_drop hmem)

/-! ### Texts without logarithms -/

theorem plainLogarithmsFrom_cons_of_ne {c : Char} (hl : c ≠ 'l') (before : Option Char) (rest : List Char) :
    plainLogarithmsFrom before (c :: rest) = c :: plainLogarithmsFrom (some c) rest := by
  have hnone : takeBase (c :: rest) = none := by simp [takeBase, expect, hl]
  rw [plainLogarithmsFrom, pieces_cons, logarithmPiece_eq, hnone, ite_self]
  rfl

/-- Inside a word no logarithm begins. -/
theorem plainLogarithmsFrom_word {w : Char} (hw : isWord w = true) {word : List Char}
    (hword : ∀ c ∈ word, isWord c = true) (rest : List Char) :
    ∃ last, plainLogarithmsFrom (some w) (word ++ rest) = word ++ plainLogarithmsFrom (some last) rest := by
  induction word generalizing w with
  | nil => exact ⟨w, rfl⟩
  | cons c word ih =>
    have hc := hword c (List.mem_cons_self ..)
    obtain ⟨last, hrest⟩ := ih hc fun d hd => hword d (List.mem_cons_of_mem _ hd)
    have hinside : atBoundary (some w) (c :: (word ++ rest)) = false := by simp [atBoundary, hw, hc]
    refine ⟨last, ?_⟩
    rw [List.cons_append, List.cons_append, plainLogarithmsFrom, pieces_cons, logarithmPiece_eq, hinside]
    exact congrArg (c :: ·) hrest

end OdeSystem.Notation
