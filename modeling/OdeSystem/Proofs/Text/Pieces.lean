import OdeSystem.Proofs.Text.Blank
import OdeSystem.Text.Pieces

/-!
Replacements in the sides of an equation. A search that looks no further than the end of a side, and finds nothing
at a separator, treats each side as if it stood alone, and leaves the blanks around it as they are.
-/

namespace OdeSystem.Text

/-- The rule by which a search cuts a text. -/
def replaceRule (find : Finder) (before : Option Char) (c : Char) (rest : List Char) :
    Cut (Option Char) (List Char) :=
  match find before c rest with
  | some (replacement, extra) => ⟨replacement, extra, ((c :: rest).take (extra + 1)).getLast?⟩
  | none => ⟨[c], 0, some c⟩

/-- Replaces everything a search finds in a text, given the character before it. -/
def replaceFrom (find : Finder) (before : Option Char) (text : List Char) : List Char :=
  (pieces (replaceRule find) before text).flatten

theorem replaceAll_eq (find : Finder) (text : List Char) : replaceAll find text = replaceFrom find none text := rfl

/-- A search that is confined to a side: what it finds at the front of a text does not depend on what stands behind
the side, it finds nothing at a separator, and of the character before it matters only whether it is of a word. -/
structure Confined (find : Finder) : Prop where
  extend : ∀ {before c rest more}, EndsSide more → find before c (rest ++ more) = find before c rest
  separator : ∀ {before c rest}, isSeparator c = true → find before c rest = none
  before : ∀ {before before' : Option Char}, before.any isWord = before'.any isWord → find before = find before'
  within : ∀ {before c rest replacement extra}, find before c rest = some (replacement, extra) → extra ≤ rest.length

namespace Confined
variable {find : Finder} {text more : List Char}

theorem replaceFrom_separator (h : Confined find) {c : Char} (hc : isSeparator c = true) (before : Option Char)
    (rest : List Char) : replaceFrom find before (c :: rest) = c :: replaceFrom find none rest := by
  have hrule (rest : List Char) : replaceRule find (some c) = replaceRule find none := by
    funext d rest
    unfold replaceRule
    rw [h.before (show (some c).any isWord = Option.any isWord none by simp [isWord_of_isSeparator hc])]
  rw [replaceFrom, pieces_cons, replaceRule, h.separator hc]
  simp only [List.drop_zero, List.flatten_cons, List.singleton_append, replaceFrom]
  cases rest with
  | nil => rfl
  | cons d rest => rw [pieces_cons, pieces_cons, hrule rest]

theorem replaceFrom_append (h : Confined find) (ends : EndsSide more) (before : Option Char) (text : List Char) :
    ∃ before', replaceFrom find before (text ++ more) =
      replaceFrom find before text ++ replaceFrom find before' more := by
  refine @pieces_induction _ _ (replaceRule find) (fun before text =>
      ∃ before', replaceFrom find before (text ++ more) =
        replaceFrom find before text ++ replaceFrom find before' more)
    (fun before => ⟨before, rfl⟩) (fun before c rest ih => ?_) before text
  -- The first piece is the same with what stands behind the side, and so is what is remembered of it.
  have hsame : replaceRule find before c (rest ++ more) = replaceRule find before c rest ∧
      (replaceRule find before c rest).extra ≤ rest.length := by
    unfold replaceRule
    rw [h.extend ends]
    cases hfind : find before c rest with
    | none => simp
    | some found =>
      obtain ⟨replacement, extra⟩ := found
      have hwithin := h.within hfind
      have htake : (c :: (rest ++ more)).take (extra + 1) = (c :: rest).take (extra + 1) := by
        rw [← List.cons_append, List.take_append_of_le_length (by simpa using hwithin)]
      exact ⟨by simp only [htake], hwithin⟩
  obtain ⟨before', hbehind⟩ := ih
  refine ⟨before', ?_⟩
  rw [List.cons_append, replaceFrom, pieces_cons, hsame.1, List.drop_append_of_le_length hsame.2, replaceFrom,
    pieces_cons, List.flatten_cons, List.flatten_cons, List.append_assoc]
  exact congrArg _ hbehind

/-- What stands behind a side is searched as if it stood alone. -/
theorem replaceAll_append (h : Confined find) (ends : EndsSide more) (text : List Char) :
    replaceAll find (text ++ more) = replaceAll find text ++ replaceAll find more := by
  obtain ⟨before, hbehind⟩ := h.replaceFrom_append ends none text
  simp only [replaceAll_eq, hbehind]
  cases more with
  | nil => rfl
  | cons c rest =>
    have hc := ends.parted c rfl
    rw [h.replaceFrom_separator hc, h.replaceFrom_separator hc]

end Confined

/-! ### Rewritings of sides -/

/-- A rewriting of texts that treats each side of an equation as if it stood alone. -/
structure Sidewise (rewrite : List Char → List Char) : Prop where
  nil : rewrite [] = []
  separator : ∀ {c : Char}, isSeparator c = true → ∀ rest, rewrite (c :: rest) = c :: rewrite rest
  append : ∀ {more : List Char}, EndsSide more → ∀ text, rewrite (text ++ more) = rewrite text ++ rewrite more

theorem Confined.sidewise {find : Finder} (h : Confined find) : Sidewise (replaceAll find) where
  nil := rfl
  separator hc rest := h.replaceFrom_separator hc none rest
  append := h.replaceAll_append

namespace Sidewise
variable {f g : List Char → List Char} {text : List Char}

theorem blanks_append (h : Sidewise f) {leading : List Char} (hleading : allBlank leading = true)
    (text : List Char) : f (leading ++ text) = leading ++ f text := by
  induction leading with
  | nil => rfl
  | cons c rest ih =>
    simp only [allBlank, List.all_cons, Bool.and_eq_true] at hleading
    rw [List.cons_append, h.separator (isSeparator_of_isBlank hleading.1), ih hleading.2, List.cons_append]

theorem of_allBlank (h : Sidewise f) (hblank : allBlank text = true) : f text = text := by
  simpa [h.nil] using h.blanks_append hblank []

theorem endsSide (h : Sidewise f) (ends : EndsSide text) : EndsSide (f text) := by
  obtain ⟨leading, hleading, htext⟩ := exists_blanks_append_trimLeft text
  have htrim := trimLeft_append_of_eq_nil (trimLeft_eq_nil_iff.mpr hleading) (f (trimLeft text))
  rw [htext, h.blanks_append hleading, EndsSide, htrim, ← EndsSide]
  cases hrest : trimLeft text with
  | nil =>
    rw [h.nil]
    exact endsSide_nil
  | cons c rest =>
    obtain rfl : c = '=' := ends c (by rw [hrest]; rfl)
    rw [h.separator (by decide)]
    exact endsSide_equals _

theorem comp (h : Sidewise f) (h' : Sidewise g) : Sidewise fun text => g (f text) where
  nil := by rw [h.nil, h'.nil]
  separator hc rest := by rw [h.separator hc, h'.separator hc]
  append ends text := by rw [h.append ends, h'.append (h.endsSide ends)]

theorem equation (h : Sidewise f) (left right : List Char) : f (left ++ '=' :: right) = f left ++ '=' :: f right := by
  rw [h.append (endsSide_equals right), h.separator (by decide)]

theorem padded (h : Sidewise f) {leading trailing : List Char} (hleading : allBlank leading = true)
    (htrailing : allBlank trailing = true) : f (leading ++ text ++ trailing) = leading ++ f text ++ trailing := by
  rw [h.append (endsSide_of_allBlank htrailing), h.blanks_append hleading, h.of_allBlank htrailing]

end Sidewise

/-- A rewriting of single characters that spares separators is one of sides. -/
theorem sidewise_map {f : Char → Char} (h : ∀ {c}, isSeparator c = true → f c = c) : Sidewise (List.map f) where
  nil := rfl
  separator hc rest := by rw [List.map_cons, h hc]
  append _ text := List.map_append ..

end OdeSystem.Text
