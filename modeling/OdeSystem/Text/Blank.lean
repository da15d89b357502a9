import OdeSystem.Text.Ranges

/-!
Blank characters: the White_Space property of Unicode. Blanks separate the words of an equation, are dropped
from its normal form, and are trimmed from its parts.
-/

namespace OdeSystem.Text

/-- The code points with the property White_Space. -/
def blankRanges : List (Nat × Nat) :=
  [(0x9, 0xd), (0x20, 0x20), (0x85, 0x85), (0xa0, 0xa0), (0x1680, 0x1680), (0x2000, 0x200a),
   (0x2028, 0x2029), (0x202f, 0x202f), (0x205f, 0x205f), (0x3000, 0x3000)]

/-- Whether a character is blank. -/
def isBlank (c : Char) : Bool := inRanges blankRanges c.toNat

/-- The text without its leading blanks. -/
def trimLeft (cs : List Char) : List Char := cs.dropWhile isBlank

/-- The text without its leading and trailing blanks. -/
def trim (cs : List Char) : List Char := (trimLeft (trimLeft cs).reverse).reverse

/-- Whether the text holds nothing but blanks. -/
def allBlank (cs : List Char) : Bool := cs.all isBlank

/-- The text without any of its blanks. -/
def strip (cs : List Char) : List Char := cs.filter fun c => !isBlank c

theorem isBlank_of_isWhitespace {c : Char} (h : c.isWhitespace = true) : isBlank c = true := by
  simp only [Char.isWhitespace, Bool.or_eq_true, decide_eq_true_eq] at h
  rcases h with ((rfl | rfl) | rfl) | rfl <;> rfl

theorem mem_strip {c : Char} {cs : List Char} : c ∈ strip cs ↔ c ∈ cs ∧ isBlank c = false := by
  simp [strip]

@[simp] theorem strip_append (xs ys : List Char) : strip (xs ++ ys) = strip xs ++ strip ys :=
  List.filter_append ..

@[simp] theorem strip_strip (cs : List Char) : strip (strip cs) = strip cs := by
  simp [strip]

end OdeSystem.Text
