import Mathlib.Data.List.Basic
import OdeSystem.Proofs.Vector.Location

/-!
Scans of texts by bytes. Places in a text are counted in bytes of UTF-8, and a scan fails where it cuts a text outside
of its range or inside of a character, looks up an element that is not there, closes a group when none is open, or has
no less before it than it had a turn ago. The bytes of a text behind a part of it are those of what is left, and a
character of ASCII is the only one with its byte.
-/

namespace OdeSystem.Scan

open Text

/-- What a scan fails of: a slice that ends before it begins, leaves the text or cuts a character in two; an index
without an element; a depth below zero; or a turn that brings it no further, so that it would not end. -/
inductive Fault
  | slice
  | index
  | depth
  | stuck
  deriving DecidableEq, Repr

/-- A scan has a result or fails. -/
abbrev Checked := Except Fault

/-- The part of a text between two places. -/
def slice (first last : Nat) (text : List Char) : Checked (List Char) :=
  match slice? first last text with
  | some part => pure part
  | none => throw .slice

/-- The text from a place on. -/
def sliceFrom (first : Nat) (text : List Char) : Checked (List Char) := slice first (byteLength text) text

/-- The element at an index. -/
def element {α : Type} (index : Nat) (xs : List α) : Checked α :=
  match xs[index]? with
  | some x => pure x
  | none => throw .index

/-- The depth behind the end of a group. -/
def close : Nat → Checked Nat
  | 0 => throw .depth
  | depth + 1 => pure depth

/-- The bytes of a text. -/
def bytes (text : List Char) : List UInt8 := text.flatMap String.utf8EncodeChar

/-- The characters of a text with their places, the first of which is given. -/
def places (start : Nat) : List Char → List (Nat × Char)
  | [] => []
  | c :: rest => (start, c) :: places (start + c.utf8Size) rest

/-! ### What does not fail -/

section
variable (front part back : List Char)

theorem byteLength_cons (c : Char) (rest : List Char) : byteLength (c :: rest) = c.utf8Size + byteLength rest := rfl

theorem byteLength_concat (c : Char) : byteLength (front ++ [c]) = byteLength front + c.utf8Size := by
  rw [byteLength_append]
  rfl

theorem byteLength_sub : byteLength (front ++ back) - byteLength back = byteLength front := by
  rw [byteLength_append, Nat.add_sub_cancel]

theorem cutAfter?_append : cutAfter? (byteLength front) (front ++ back) = some (front, back) := by
  induction front with
  | nil => cases back <;> rfl
  | cons c front ih =>
    obtain ⟨n, hn⟩ := Nat.exists_eq_add_one_of_ne_zero (Nat.ne_of_gt c.utf8Size_pos)
    have hlength : byteLength (c :: front) = n + byteLength front + 1 := by rw [byteLength_cons, hn]; omega
    have hle : n + 1 ≤ n + byteLength front + 1 := by omega
    have hrest : n + byteLength front + 1 - (n + 1) = byteLength front := by omega
    rw [hlength, List.cons_append, cutAfter?, hn, if_pos hle, hrest, ih]
    rfl

/-- A slice is a part of the text between two places that come in order and lie between characters. -/
theorem slice_eq_pure_iff {first last : Nat} {text : List Char} : slice first last text = pure part ↔
    ∃ front back, text = front ++ part ++ back ∧ byteLength front = first ∧ byteLength (front ++ part) = last := by
  have hslice : slice first last text = pure part ↔ slice? first last text = some part := by
    rw [slice]
    cases slice? first last text with
    | none => exact ⟨nofun, nofun⟩
    | some found => exact ⟨fun h => congrArg some (Except.ok.inj h), fun h => by rw [Option.some.inj h]⟩
  rw [hslice, slice?]
  constructor
  · intro h
    split at h
    · cases h
    · obtain ⟨⟨before, back⟩, hlast, h⟩ := Option.bind_eq_some_iff.mp h
      obtain ⟨⟨front, found⟩, hfirst, h⟩ := Option.bind_eq_some_iff.mp h
      cases h
      obtain ⟨rfl, rfl⟩ := cutAfter?_eq_some hlast
      obtain ⟨rfl, rfl⟩ := cutAfter?_eq_some hfirst
      exact ⟨front, back, rfl, rfl, rfl⟩
  · rintro ⟨front, back, rfl, rfl, rfl⟩
    rw [if_neg (by rw [byteLength_append]; omega), cutAfter?_append]
    change ((cutAfter? (byteLength front) (front ++ part)).bind fun cut => some cut.2) = some part
    rw [cutAfter?_append, Option.bind_some]

/-- A part of a text can be cut out of it. -/
theorem slice_append : slice (byteLength front) (byteLength (front ++ part)) (front ++ part ++ back) = pure part :=
  (slice_eq_pure_iff part).mpr ⟨front, back, rfl, rfl, rfl⟩

example : slice 1 3 "a\u00e9b".toList = pure ['\u00e9'] := rfl

example : slice 1 2 "a\u00e9b".toList = throw .slice := rfl

theorem slice_zero : slice 0 (byteLength front) (front ++ back) = pure front := slice_append [] front back

theorem sliceFrom_append : sliceFrom (byteLength front) (front ++ back) = pure back := by
  have h := slice_append front back []
  rwa [List.append_nil] at h

end

theorem element_eq {α : Type} {index : Nat} {xs : List α} {x : α} (h : xs[index]? = some x) :
    element index xs = pure x := by
  rw [element, h]

/-! ### Bytes -/

theorem toNat_toUInt8 {c : Char} (h : c.toNat < 128) : c.toUInt8.toNat = c.toNat := by
  change c.toNat % 256 = c.toNat
  omega

theorem toUInt8_inj {c d : Char} (hc : c.toNat < 128) (hd : d.toNat < 128) : c.toUInt8 = d.toUInt8 ↔ c = d := by
  refine ⟨fun h => Char.toNat_inj.mp ?_, fun h => h ▸ rfl⟩
  rw [← toNat_toUInt8 hc, h, toNat_toUInt8 hd]

theorem ne_toUInt8 {b : UInt8} {d : Char} (hb : 128 ≤ b.toNat) (hd : d.toNat < 128) : b ≠ d.toUInt8 := by
  rintro rfl
  rw [toNat_toUInt8 hd] at hb
  omega

/-- A character of ASCII is its byte, and no other character has a byte of ASCII. -/
theorem encode_cases (c : Char) :
    c.toNat < 128 ∧ String.utf8EncodeChar c = [c.toUInt8] ∨
      128 ≤ c.toNat ∧ ∀ b ∈ String.utf8EncodeChar c, 128 ≤ b.toNat := by
  unfold String.utf8EncodeChar
  change _ ∨ 128 ≤ c.val.toNat ∧ _
  by_cases h : c.val.toNat ≤ 127
  · exact .inl ⟨Nat.lt_succ_of_le h, by simp only [h, ↓reduceIte]; rfl⟩
  · refine .inr ⟨by omega, fun b hb => ?_⟩
    -- A byte of a longer character is a lead byte or carries six bits behind the highest.
    obtain ⟨n, rfl, hn, hn'⟩ : ∃ n, b = UInt8.ofNat n ∧ 128 ≤ n ∧ n < 256 := by
      simp only [h, ↓reduceIte] at hb
      split at hb
      · simp only [List.mem_cons, List.not_mem_nil, or_false] at hb
        rcases hb with rfl | rfl <;> exact ⟨_, rfl, by omega, by omega⟩
      · split at hb
        · simp only [List.mem_cons, List.not_mem_nil, or_false] at hb
          rcases hb with rfl | rfl | rfl <;> exact ⟨_, rfl, by omega, by omega⟩
        · simp only [List.mem_cons, List.not_mem_nil, or_false] at hb
          rcases hb with rfl | rfl | rfl | rfl <;> exact ⟨_, rfl, by omega, by omega⟩
    rwa [UInt8.toNat_ofNat_of_lt' hn']

theorem byteLength_concat_ascii {c : Char} (hc : c.toNat < 128) (front : List Char) :
    byteLength (front ++ [c]) = byteLength front + 1 := by
  have hsize : c.utf8Size = 1 := Char.utf8Size_eq_one_iff.mpr (UInt32.le_iff_toNat_le.mpr (Nat.le_of_lt_succ hc))
  rw [byteLength_concat, hsize]

/-- Behind a character of ASCII the place is the next one. -/
theorem split_cons {c : Char} (hc : c.toNat < 128) (front rest : List Char) :
    front ++ c :: rest = (front ++ [c]) ++ rest ∧ byteLength front + 1 = byteLength (front ++ [c]) :=
  ⟨by simp, (byteLength_concat_ascii hc front).symm⟩

theorem bytes_cons (c : Char) (rest : List Char) : bytes (c :: rest) = String.utf8EncodeChar c ++ bytes rest := rfl

theorem bytes_append (front back : List Char) : bytes (front ++ back) = bytes front ++ bytes back :=
  List.flatMap_append

theorem length_bytes (text : List Char) : (bytes text).length = byteLength text := by
  induction text with
  | nil => rfl
  | cons c rest ih => rw [bytes_cons, List.length_append, String.length_utf8EncodeChar, ih, byteLength_cons]

/-- The bytes behind a part of a text are those of what is left. -/
theorem getElem?_bytes (front back : List Char) (k : Nat) :
    (bytes (front ++ back))[byteLength front + k]? = (bytes back)[k]? := by
  rw [bytes_append, List.getElem?_append_right (by rw [length_bytes]; omega), length_bytes, Nat.add_sub_cancel_left]

/-- The byte where a character begins is the character itself, or neither of them is of ASCII. -/
theorem exists_byte (front : List Char) (c : Char) (rest : List Char) :
    ∃ b, (bytes (front ++ c :: rest))[byteLength front]? = some b ∧
      (c.toNat < 128 ∧ b = c.toUInt8 ∨ 128 ≤ c.toNat ∧ 128 ≤ b.toNat) := by
  have hplace := getElem?_bytes front (c :: rest) 0
  rw [bytes_cons, Nat.add_zero] at hplace
  rcases encode_cases c with ⟨hc, hencode⟩ | ⟨hc, hencode⟩
  · rw [hencode] at hplace
    exact ⟨_, hplace, .inl ⟨hc, rfl⟩⟩
  · obtain ⟨b, more, hmore⟩ := List.exists_cons_of_ne_nil (String.utf8EncodeChar_ne_nil (c := c))
    rw [hmore] at hplace
    exact ⟨b, hplace, .inr ⟨hc, hencode b (hmore ▸ List.mem_cons_self ..)⟩⟩

theorem byte_of_nil (front : List Char) : (bytes (front ++ []))[byteLength front]? = none :=
  getElem?_bytes front [] 0

/-- A byte of ASCII stands at a place if its character does. -/
theorem byte_eq_iff {d : Char} (hd : d.toNat < 128) (front back : List Char) :
    (bytes (front ++ back))[byteLength front]? = some d.toUInt8 ↔ back.head? = some d := by
  cases back with
  | nil =>
    rw [byte_of_nil]
    exact ⟨nofun, nofun⟩
  | cons c rest =>
    obtain ⟨b, hb, hbyte⟩ := exists_byte front c rest
    rw [hb, List.head?_cons, Option.some.injEq, Option.some.injEq]
    rcases hbyte with ⟨hc, rfl⟩ | ⟨hc, hbyte⟩
    · exact toUInt8_inj hc hd
    · refine ⟨fun h => absurd h (ne_toUInt8 hbyte hd), fun h => ?_⟩
      rw [h] at hc
      omega

end OdeSystem.Scan
