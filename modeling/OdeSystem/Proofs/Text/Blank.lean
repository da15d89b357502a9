import Mathlib.Data.List.DropRight
import OdeSystem.Proofs.Text.Character

/-!
Blanks around the parts of a text. Trimming takes them away, and behind a side of an equation there is nothing but
blanks, up to the sign of equality or the end of the text.
-/

namespace OdeSystem.Text

/-! ### Trimming -/

section
variable {text more : List Char}

theorem trimLeft_cons_of_isBlank {c : Char} (h : isBlank c = true) : trimLeft (c :: text) = trimLeft text :=
  List.dropWhile_cons_of_pos h

theorem trimLeft_cons_of_not_isBlank {c : Char} (h : isBlank c = false) : trimLeft (c :: text) = c :: text :=
  List.dropWhile_cons_of_neg (by simp [h])

theorem trimLeft_append_of_ne_nil (h : trimLeft text ≠ []) (more : List Char) :
    trimLeft (text ++ more) = trimLeft text ++ more := by
  unfold trimLeft at *
  rw [List.dropWhile_append, if_neg (by simpa using h)]

theorem trimLeft_append_of_eq_nil (h : trimLeft text = []) (more : List Char) :
    trimLeft (text ++ more) = trimLeft more := by
  unfold trimLeft at *
  rw [List.dropWhile_append, if_pos (by simpa using h)]

theorem trimLeft_eq_nil_iff : trimLeft text = [] ↔ allBlank text = true := by
  simp [trimLeft, allBlank, List.dropWhile_eq_nil_iff]

@[simp] theorem trimLeft_trimLeft (text : List Char) : trimLeft (trimLeft text) = trimLeft text :=
  List.dropWhile_idempotent _ _

theorem exists_blanks_append_trimLeft (text : List Char) :
    ∃ leading, allBlank leading = true ∧ text = leading ++ trimLeft text :=
  ⟨text.takeWhile isBlank, List.all_takeWhile, (List.takeWhile_append_dropWhile).symm⟩

/-- A text is what trimming leaves of it, between blanks. -/
theorem exists_blanks_append_trim (text : List Char) :
    ∃ leading trailing, allBlank leading = true ∧ allBlank trailing = true ∧
      text = leading ++ trim text ++ trailing := by
  obtain ⟨leading, hleading, htext⟩ := exists_blanks_append_trimLeft text
  obtain ⟨trailing, htrailing, hrest⟩ := exists_blanks_append_trimLeft (trimLeft text).reverse
  refine ⟨leading, trailing.reverse, hleading, by simpa [allBlank] using htrailing, ?_⟩
  have : trimLeft text = trim text ++ trailing.reverse := by
    rw [← List.reverse_inj, List.reverse_append, List.reverse_reverse, trim, List.reverse_reverse]
    exact hrest
  rw [List.append_assoc, ← this]
  exact htext

/-- A text that neither begins nor ends with a blank. -/
structure Tight (text : List Char) : Prop where
  ne_nil : text ≠ []
  first : ∀ c ∈ text.head?, isBlank c = false
  last : ∀ c ∈ text.getLast?, isBlank c = false

theorem tight_cons_append {c d : Char} (hc : isBlank c = false) (hd : isBlank d = false) (middle : List Char) :
    Tight (c :: middle ++ [d]) where
  ne_nil := by simp
  first e he := by
    obtain rfl : c = e := by simpa using he
    exact hc
  last e he := by
    rw [List.getLast?_append] at he
    obtain rfl : d = e := Option.some.inj he
    exact hd

theorem tight_of_forall (hne : text ≠ []) (h : ∀ c ∈ text, isBlank c = false) : Tight text where
  ne_nil := hne
  first c hc := h c (List.mem_of_mem_head? hc)
  last c hc := h c (List.mem_of_getLast? hc)

theorem Tight.trim_padded (h : Tight text) {leading trailing : List Char} (hleading : allBlank leading = true)
    (htrailing : allBlank trailing = true) : trim (leading ++ text ++ trailing) = text := by
  have keep {text : List Char} (hne : text ≠ []) (first : ∀ c ∈ text.head?, isBlank c = false) (more : List Char) :
      trimLeft (text ++ more) = text ++ more := by
    cases text with
    | nil => exact absurd rfl hne
    | cons c rest => exact trimLeft_cons_of_not_isBlank (first c rfl)
  have hback : trimLeft trailing.reverse = [] :=
    trimLeft_eq_nil_iff.mpr (by simpa [allBlank] using htrailing)
  have hturned : trimLeft (text.reverse ++ []) = text.reverse ++ [] :=
    keep (by simpa using h.ne_nil) (by simpa using h.last) []
  rw [List.append_nil] at hturned
  rw [trim, List.append_assoc, trimLeft_append_of_eq_nil (trimLeft_eq_nil_iff.mpr hleading), keep h.ne_nil h.first,
    List.reverse_append, trimLeft_append_of_eq_nil hback, hturned, List.reverse_reverse]

theorem Tight.trim (h : Tight text) : trim text = text := by
  have hpadded : Text.trim ([] ++ text ++ []) = text := h.trim_padded rfl rfl
  rwa [List.nil_append, List.append_nil] at hpadded

theorem strip_eq_self (h : ∀ c ∈ text, isBlank c = false) : strip text = text := by
  simpa [strip] using h

theorem strip_eq_nil_of_allBlank (h : allBlank text = true) : strip text = [] := by
  simpa [strip, allBlank] using h

end

/-! ### Ends of sides -/

/-- Whether a side of an equation ends here: nothing follows but blanks, up to a sign of equality if there is one. -/
def EndsSide (text : List Char) : Prop := ∀ c ∈ (trimLeft text).head?, c = '='

/-- Whether a text begins with a separator, or is empty, so that no word goes on in it. -/
def Parted (text : List Char) : Prop := ∀ c ∈ text.head?, isSeparator c = true

section
variable {text : List Char}

theorem parted_nil : Parted [] := by simp [Parted]

theorem endsSide_nil : EndsSide [] := by simp [EndsSide, trimLeft]

theorem endsSide_equals (right : List Char) : EndsSide ('=' :: right) := by
  rw [EndsSide, trimLeft_cons_of_not_isBlank (by decide)]
  simp

theorem endsSide_of_allBlank (h : allBlank text = true) : EndsSide text := by
  simp [EndsSide, trimLeft_eq_nil_iff.mpr h]

theorem EndsSide.trimLeft (h : EndsSide text) : EndsSide (trimLeft text) := by
  unfold EndsSide at *
  rwa [trimLeft_trimLeft]

/-- A side ends at a separator or at the end of the text. -/
theorem EndsSide.parted (h : EndsSide text) : Parted text := by
  cases text with
  | nil => exact parted_nil
  | cons d rest =>
    intro c hc
    obtain rfl : d = c := by simpa using hc
    by_cases hblank : isBlank d = true
    · exact isSeparator_of_isBlank hblank
    · rw [EndsSide, trimLeft_cons_of_not_isBlank (by simpa using hblank)] at h
      rw [h d rfl]
      decide

/-- A run of characters ends where a character follows that is none of them. -/
theorem takeWhile_append_of_head {p : Char → Bool} {more : List Char} (stop : ∀ c ∈ more.head?, p c = false)
    (text : List Char) :
    (text ++ more).takeWhile p = text.takeWhile p ∧ (text ++ more).dropWhile p = text.dropWhile p ++ more := by
  have hmore : more.takeWhile p = [] ∧ more.dropWhile p = more := by
    cases more with
    | nil => exact ⟨rfl, rfl⟩
    | cons c rest =>
      have hc := stop c rfl
      exact ⟨List.takeWhile_cons_of_neg (by simp [hc]), List.dropWhile_cons_of_neg (by simp [hc])⟩
  rw [List.takeWhile_append, List.dropWhile_append, hmore.1, hmore.2, List.append_nil]
  constructor
  · split
    · rename_i hall
      exact ((List.takeWhile_sublist p).eq_of_length hall).symm
    · rfl
  · split
    · rename_i hnone
      rw [List.isEmpty_iff.mp hnone, List.nil_append]
    · rfl

theorem head_dropWhile (p : Char → Bool) (text : List Char) : (text.dropWhile p).head?.any p = false := by
  have := List.head?_dropWhile_not p text
  cases hhead : (text.dropWhile p).head? with
  | none => rfl
  | some c =>
    rw [hhead] at this
    exact this

/-- A run of characters is taken whole if no further one follows. -/
theorem takeWhile_ended {p : Char → Bool} {run rest : List Char} (hrun : ∀ c ∈ run, p c = true)
    (hrest : rest.head?.any p = false) : (run ++ rest).takeWhile p = run ∧ (run ++ rest).dropWhile p = rest := by
  have hstop : ∀ c ∈ rest.head?, p c = false := fun c hc => by
    rw [hc] at hrest
    exact hrest
  obtain ⟨htake, hdrop⟩ := takeWhile_append_of_head hstop run
  rw [htake, hdrop, List.takeWhile_eq_self_iff.mpr hrun, List.dropWhile_eq_nil_iff.mpr hrun]
  exact ⟨rfl, rfl⟩

theorem takeWhile_of_head {p : Char → Bool} {text : List Char} (h : text.head?.any p = false) :
    text.takeWhile p = [] ∧ text.dropWhile p = text :=
  @takeWhile_ended p [] text (by simp) h

/-- Behind blanks that may be there no word goes on. -/
theorem head_behind_blanks {p : Char → Bool} (hp : ∀ {c}, isBlank c = true → p c = false) {blanks more : List Char}
    (hblanks : allBlank blanks = true) (hmore : blanks = [] → more.head?.any p = false) :
    (blanks ++ more).head?.any p = false := by
  cases blanks with
  | nil => exact hmore rfl
  | cons c blanks =>
    simp only [allBlank, List.all_cons, Bool.and_eq_true] at hblanks
    exact hp hblanks.1

/-- A run of characters that no separator is of ends where a separator follows. -/
theorem takeWhile_append_of_parted {p : Char → Bool} (hp : ∀ {c}, isSeparator c = true → p c = false)
    {more : List Char} (parted : Parted more) (text : List Char) :
    (text ++ more).takeWhile p = text.takeWhile p ∧ (text ++ more).dropWhile p = text.dropWhile p ++ more :=
  takeWhile_append_of_head (fun c hc => hp (parted c hc)) text

end

end OdeSystem.Text
