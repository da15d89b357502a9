import OdeSystem.Proofs.Scan.Basic

/-!
Vector literals scanned by bytes. The brackets and commas of a literal are bytes of ASCII, so all places that a scan
remembers are between characters, though it goes through the bytes of every other character one by one. A group is
closed only when one is open, and the scan goes on behind a literal, or one byte behind what has turned out to be none.
-/

namespace OdeSystem.Scan

open Text

/-- A vector literal in a text: where it begins and ends, and its components. -/
structure Found where
  start : Nat
  stop : Nat
  components : List (List Char)
  deriving DecidableEq, Repr

/-- Reads the literal that begins at `start`, from the byte `i` on: `components` are behind, `depth` groups are open,
and the next component begins at `first`. -/
def partsFrom (text : List Char) (start : Nat) (closing : UInt8) (components : List (List Char))
    (depth first i : Nat) : Checked (Option Found) :=
  if _h : i < (bytes text).length then do
    let b ← element i (bytes text)
    if b = '('.toUInt8 ∨ b = '['.toUInt8 then partsFrom text start closing components (depth + 1) first (i + 1)
    else if b = ')'.toUInt8 ∨ b = ']'.toUInt8 then
      if 0 < depth then do
        let depth ← close depth
        partsFrom text start closing components depth first (i + 1)
      else if b = closing ∧ (bytes text)[i + 1]? = some closing then do
        let components := components ++ [trim (← slice first i text)]
        return if 1 < components.length then some ⟨start, i + 2, components⟩ else none
      else return none
    else if b = ','.toUInt8 ∧ depth = 0 then do
      let components := components ++ [trim (← slice first i text)]
      partsFrom text start closing components depth (i + 1) (i + 1)
    else partsFrom text start closing components depth first (i + 1)
  else return none
termination_by (bytes text).length - i

/-- The byte that closes a literal, if two bytes open one. -/
def closingOf (first second : UInt8) : Option UInt8 :=
  if first = '('.toUInt8 ∧ second = '('.toUInt8 then some ')'.toUInt8
  else if first = '['.toUInt8 ∧ second = '['.toUInt8 then some ']'.toUInt8
  else none

/-- The literal that begins with the byte `i`. -/
def literalAt (text : List Char) (i : Nat) : Checked (Option Found) := do
  let first ← element i (bytes text)
  let second ← element (i + 1) (bytes text)
  match closingOf first second with
  | some closing => partsFrom text i closing [] 0 (i + 2) (i + 2)
  | none => return none

/-- The literals of a text from the byte `i` on. -/
def findFrom (text : List Char) (i : Nat) : Checked (List Found) :=
  if _h : i + 1 < (bytes text).length then do
    match ← literalAt text i with
    | some found => if _h' : i < found.stop then return found :: (← findFrom text found.stop) else throw .stuck
    | none => findFrom text (i + 1)
  else return []
termination_by (bytes text).length - i

/-- The literals of a text. -/
def find (text : List Char) : Checked (List Found) := findFrom text 0

/-- What a scan finds of a literal with its places. -/
def foundOf (located : Vector.Located) : Found := ⟨located.start, located.stop, located.literal.components⟩

/-! ### The bytes of one character -/

section
variable {text front rest : List Char} {c : Char} {b : UInt8} {i : Nat}

theorem lt_length_of_byte (h : (bytes text)[i]? = some b) : i < (bytes text).length :=
  (List.getElem?_eq_some_iff.mp h).1

/-- All bytes of a character that is not of ASCII are outside of it. -/
theorem byte_within (hc : 128 ≤ c.toNat) (front rest : List Char) {k : Nat} (hk : k < c.utf8Size) :
    ∃ b, (bytes (front ++ c :: rest))[byteLength front + k]? = some b ∧ 128 ≤ b.toNat := by
  have hencode : ∀ b ∈ String.utf8EncodeChar c, 128 ≤ b.toNat := (encode_cases c).elim (fun h => by omega) (·.2)
  have hlength : k < (String.utf8EncodeChar c).length := by rwa [String.length_utf8EncodeChar]
  refine ⟨(String.utf8EncodeChar c)[k], ?_, hencode _ (List.getElem_mem _)⟩
  rw [getElem?_bytes, bytes_cons, List.getElem?_append_left hlength, List.getElem?_eq_getElem hlength]

/-- What passes every byte outside of ASCII passes such a character. -/
theorem pass_character {α : Type} {scan : Nat → α} (front rest : List Char) (hc : 128 ≤ c.toNat)
    (hpass : ∀ i b, (bytes (front ++ c :: rest))[i]? = some b → 128 ≤ b.toNat → scan i = scan (i + 1)) :
    scan (byteLength front) = scan (byteLength (front ++ [c])) := by
  have hbytes {k : Nat} (hk : k ≤ c.utf8Size) : scan (byteLength front) = scan (byteLength front + k) := by
    induction k with
    | zero => rfl
    | succ k ih =>
      obtain ⟨b, hb, hbyte⟩ := byte_within hc front rest hk
      rw [ih (Nat.le_of_lt hk), hpass _ b hb hbyte, Nat.add_assoc]
  rw [byteLength_concat]
  exact hbytes (Nat.le_refl _)

end

/-! ### One literal -/

section
variable {text front rest : List Char} {c closing : Char} {start depth first : Nat} {components : List (List Char)}

theorem partsFrom_nil (closing : UInt8) :
    partsFrom text start closing components depth first (byteLength text) = pure none := by
  rw [partsFrom, dif_neg (by rw [length_bytes]; exact Nat.lt_irrefl _)]

/-- A byte outside of ASCII is passed. -/
theorem partsFrom_pass (closing : UInt8) {i : Nat} {b : UInt8} (h : (bytes text)[i]? = some b) (hb : 128 ≤ b.toNat) :
    partsFrom text start closing components depth first i =
      partsFrom text start closing components depth first (i + 1) := by
  rw [partsFrom, dif_pos (lt_length_of_byte h), element_eq h, pure_bind]
  simp (disch := first | assumption | decide) only [ne_toUInt8, or_self, false_and, ↓reduceIte]

/-- Whatever its bytes, a character is read as one. -/
theorem partsFrom_cons (hclosing : closing.toNat < 128) (htext : text = front ++ c :: rest) :
    partsFrom text start closing.toUInt8 components depth first (byteLength front) =
      if c = '(' ∨ c = '[' then
        partsFrom text start closing.toUInt8 components (depth + 1) first (byteLength (front ++ [c]))
      else if c = ')' ∨ c = ']' then
        match depth with
        | depth + 1 => partsFrom text start closing.toUInt8 components depth first (byteLength (front ++ [c]))
        | 0 =>
          if c = closing ∧ rest.head? = some closing then do
            let components := components ++ [trim (← slice first (byteLength front) text)]
            return if 1 < components.length then some ⟨start, byteLength front + 2, components⟩ else none
          else return none
      else if c = ',' ∧ depth = 0 then do
        let components := components ++ [trim (← slice first (byteLength front) text)]
        partsFrom text start closing.toUInt8 components depth (byteLength (front ++ [c])) (byteLength (front ++ [c]))
      else partsFrom text start closing.toUInt8 components depth first (byteLength (front ++ [c])) := by
  subst htext
  by_cases hc : c.toNat < 128
  · have hbyte : (bytes (front ++ c :: rest))[byteLength front]? = some c.toUInt8 := (byte_eq_iff hc ..).mpr rfl
    have hnext : (bytes (front ++ c :: rest))[byteLength front + 1]? = some closing.toUInt8 ↔
        rest.head? = some closing := by
      rw [(split_cons hc front rest).1, (split_cons hc front rest).2, byte_eq_iff hclosing]
    rw [partsFrom, dif_pos (lt_length_of_byte hbyte), element_eq hbyte, pure_bind, ← (split_cons hc front rest).2]
    simp (disch := first | assumption | decide) only [toUInt8_inj, hnext]
    cases depth with
    | zero => simp
    | succ depth => simp [close]
  · have hne {d : Char} (hd : d.toNat < 128) : c ≠ d := fun h => hc (h ▸ hd)
    simp (disch := decide) only [hne, or_self, false_and, ↓reduceIte]
    exact pass_character front rest (Nat.le_of_not_lt hc) fun i b hb hbyte => partsFrom_pass _ hb hbyte

/-- The components of a literal are read as the parts of it, `part` being what is behind of the one that is read. -/
theorem partsFrom_eq (hclosing : closing.toNat < 128) (start depth : Nat) (components : List (List Char))
    (front part rest : List Char) :
    partsFrom (front ++ part ++ rest) start closing.toUInt8 components depth (byteLength front)
        (byteLength (front ++ part)) =
      pure ((Vector.takeParts closing depth rest).bind fun found =>
        let components := components ++ (part.foldr Vector.pushChar found.1).map trim
        if 1 < components.length then
          some ⟨start, byteLength (front ++ part ++ rest) - byteLength found.2, components⟩
        else none) := by
  induction rest generalizing depth components front part with
  | nil =>
    rw [List.append_nil, partsFrom_nil]
    cases depth <;> rfl
  | cons c rest ih =>
    -- A character that belongs to the part that is read goes on with it.
    have hpush (depth : Nat) : partsFrom (front ++ part ++ c :: rest) start closing.toUInt8 components depth
        (byteLength front) (byteLength (front ++ part ++ [c])) =
          pure (((Vector.takeParts closing depth rest).map fun found => (Vector.pushChar c found.1, found.2)).bind
            fun found =>
              let components := components ++ (part.foldr Vector.pushChar found.1).map trim
              if 1 < components.length then
                some ⟨start, byteLength (front ++ part ++ c :: rest) - byteLength found.2, components⟩
              else none) := by
      have hnext := ih depth components front (part ++ [c])
      simp only [← List.append_assoc] at hnext
      rw [List.append_cons, hnext, Option.bind_map]
      simp only [List.foldr_append, List.foldr_cons, List.foldr_nil, Function.comp_def]
    have hcut : slice (byteLength front) (byteLength (front ++ part)) (front ++ part ++ c :: rest) = pure part :=
      slice_append front part (c :: rest)
    rw [partsFrom_cons hclosing rfl, Vector.takeParts_cons, hcut]
    split
    · exact hpush (depth + 1)
    split
    · cases depth with
      | succ depth => exact hpush depth
      | zero =>
        dsimp only
        split
        · rename_i hend
          obtain ⟨rfl, hhead⟩ := hend
          obtain ⟨behind, rfl⟩ := List.head?_eq_some_iff.mp hhead
          have hstop : byteLength (front ++ part) + 2 =
              byteLength (front ++ part ++ c :: c :: behind) - byteLength behind := by
            rw [(split_cons hclosing _ _).1, (split_cons hclosing _ _).1, byteLength_sub,
              byteLength_concat_ascii hclosing, byteLength_concat_ascii hclosing]
          rw [Option.bind_some, Vector.foldr_pushChar, List.append_nil, List.tail_cons, ← hstop]
          rfl
        · rfl
    split
    · rename_i hcomma
      obtain ⟨rfl, rfl⟩ := hcomma
      have hnext := ih 0 (components ++ [trim part]) (front ++ part ++ [',']) []
      rw [List.append_nil, ← List.append_cons] at hnext
      rw [pure_bind, hnext, Option.bind_map]
      simp only [Function.comp_def, Vector.foldr_pushChar, List.foldr_nil, List.append_nil, List.map_cons,
        List.append_assoc, List.singleton_append]
    · exact hpush depth

end

/-! ### All literals -/

theorem closingOf_eq_some {first second closing : UInt8} (h : closingOf first second = some closing) :
    ∃ bracket : Vector.Bracket, first = bracket.opening.toUInt8 ∧ second = bracket.opening.toUInt8 := by
  unfold closingOf at h
  split at h
  · exact ⟨.round, ‹_›⟩
  · split at h
    · exact ⟨.square, ‹_›⟩
    · cases h

section
variable (bracket : Vector.Bracket)

theorem opening_lt : bracket.opening.toNat < 128 := by cases bracket <;> decide

theorem closing_lt : bracket.closing.toNat < 128 := by cases bracket <;> decide

theorem closingOf_opening :
    closingOf bracket.opening.toUInt8 bracket.opening.toUInt8 = some bracket.closing.toUInt8 := by
  cases bracket <;> rfl

theorem takeLiteral_opening (rest : List Char) :
    Vector.takeLiteral (bracket.opening :: bracket.opening :: rest) = Vector.takeBody bracket rest := by
  cases bracket <;> rfl

end

/-- Behind two brackets that open a literal, one is read. -/
theorem literalAt_opening (bracket : Vector.Bracket) (front more : List Char) :
    literalAt (front ++ bracket.opening :: bracket.opening :: more) (byteLength front) =
      pure ((Vector.takeBody bracket more).map fun found =>
        ⟨byteLength front, byteLength (front ++ bracket.opening :: bracket.opening :: more) - byteLength found.2,
          found.1.components⟩) := by
  have hopening := opening_lt bracket
  obtain ⟨htext, hplace⟩ := split_cons hopening front (bracket.opening :: more)
  obtain ⟨htext', hplace'⟩ := split_cons hopening (front ++ [bracket.opening]) more
  have hfirst : (bytes (front ++ bracket.opening :: bracket.opening :: more))[byteLength front]? =
      some bracket.opening.toUInt8 := (byte_eq_iff hopening ..).mpr rfl
  have hsecond : (bytes (front ++ bracket.opening :: bracket.opening :: more))[byteLength front + 1]? =
      some bracket.opening.toUInt8 := by
    rw [htext, hplace]
    exact (byte_eq_iff hopening ..).mpr rfl
  have hparts := partsFrom_eq (closing_lt bracket) (byteLength front) 0 []
    (front ++ [bracket.opening] ++ [bracket.opening]) [] more
  rw [List.append_nil, ← htext', ← htext] at hparts
  rw [literalAt, element_eq hfirst, pure_bind, element_eq hsecond, pure_bind, closingOf_opening, Vector.takeBody]
  dsimp only
  rw [show byteLength front + 2 = byteLength front + 1 + 1 from rfl, hplace, hplace', hparts]
  cases hread : Vector.takeParts bracket.closing 0 more with
  | none => rfl
  | some found =>
    obtain ⟨parts, behind⟩ := found
    have hcomponents : [] ++ ([].foldr Vector.pushChar parts).map trim = parts.map trim := rfl
    have hlength : (parts.map trim).length = parts.length := List.length_map _
    rw [Option.bind_some, hcomponents]
    dsimp only
    by_cases htwo : 2 ≤ parts.length
    · rw [if_pos (by omega), dif_pos htwo]
      rfl
    · rw [if_neg (by omega), dif_neg htwo]
      rfl

theorem findFrom_end {text : List Char} {i : Nat} (h : (bytes text).length ≤ i + 1) : findFrom text i = pure [] := by
  rw [findFrom, dif_neg (Nat.not_lt.mpr h)]

/-- Where two bytes open no literal, the search goes on with the next one. -/
theorem findFrom_next {text : List Char} {i : Nat} {b : UInt8} (hb : (bytes text)[i]? = some b)
    (h : ∀ second, (bytes text)[i + 1]? = some second → closingOf b second = none) :
    findFrom text i = findFrom text (i + 1) := by
  by_cases hlt : i + 1 < (bytes text).length
  · have hsecond : (bytes text)[i + 1]? = some (bytes text)[i + 1] := List.getElem?_eq_getElem hlt
    have hnone : literalAt text i = pure none := by
      rw [literalAt, element_eq hb, pure_bind, element_eq hsecond, pure_bind, h _ hsecond]
    rw [findFrom, dif_pos hlt, hnone, pure_bind]
  · rw [findFrom_end (Nat.le_of_not_lt hlt), findFrom_end (Nat.le_succ_of_le (Nat.le_of_not_lt hlt))]

/-- Where no two brackets open a literal, the search goes on with the next character. -/
theorem findFrom_pass {front rest : List Char} {c : Char}
    (hnone : ∀ (bracket : Vector.Bracket) (more : List Char), c :: rest ≠ bracket.opening :: bracket.opening :: more) :
    findFrom (front ++ c :: rest) (byteLength front) = findFrom (front ++ c :: rest) (byteLength (front ++ [c])) := by
  by_cases hc : c.toNat < 128
  · rw [← (split_cons hc front rest).2]
    refine findFrom_next ((byte_eq_iff hc ..).mpr rfl) fun second hsecond => ?_
    cases hclosing : closingOf c.toUInt8 second with
    | none => rfl
    | some closing =>
      obtain ⟨bracket, hfirst, rfl⟩ := closingOf_eq_some hclosing
      obtain rfl := (toUInt8_inj hc (opening_lt bracket)).mp hfirst
      rw [(split_cons hc front rest).1, (split_cons hc front rest).2, byte_eq_iff hc] at hsecond
      obtain ⟨more, rfl⟩ := List.head?_eq_some_iff.mp hsecond
      exact absurd rfl (hnone bracket more)
  · refine pass_character front rest (Nat.le_of_not_lt hc) fun i b hb hbyte => findFrom_next hb fun second _ => ?_
    cases hclosing : closingOf b second with
    | none => rfl
    | some closing =>
      obtain ⟨bracket, hfirst, -⟩ := closingOf_eq_some hclosing
      exact absurd hfirst (ne_toUInt8 hbyte (opening_lt bracket))

/-- A search goes on behind a literal that begins at its place, and behind the next character if none does. -/
theorem findFrom_cons (front : List Char) (c : Char) (rest : List Char) :
    findFrom (front ++ c :: rest) (byteLength front) =
      match Vector.takeLiteral (c :: rest) with
      | some (l, _) => do
        let stop := byteLength (front ++ l.text)
        return ⟨byteLength front, stop, l.components⟩ :: (← findFrom (front ++ c :: rest) stop)
      | none => findFrom (front ++ c :: rest) (byteLength (front ++ [c])) := by
  by_cases hopen : ∃ (bracket : Vector.Bracket) (more : List Char),
      c :: rest = bracket.opening :: bracket.opening :: more
  · obtain ⟨bracket, more, hrest⟩ := hopen
    obtain ⟨rfl, rfl⟩ := List.cons.inj hrest
    have hlt : byteLength front + 1 < (bytes (front ++ bracket.opening :: bracket.opening :: more)).length := by
      rw [length_bytes, byteLength_append, byteLength_cons, byteLength_cons]
      have := bracket.opening.utf8Size_pos
      omega
    rw [findFrom, dif_pos hlt, literalAt_opening, pure_bind, takeLiteral_opening]
    cases hread : Vector.takeBody bracket more with
    | none =>
      dsimp only [Option.map_none]
      rw [byteLength_concat_ascii (opening_lt bracket)]
    | some found =>
      obtain ⟨l, behind⟩ := found
      have htext := (Vector.Literal.takeLiteral_eq_some_iff.mp ((takeLiteral_opening bracket more).trans hread)).1
      have hstop := byteLength_sub (front ++ l.text) behind
      have hpast : byteLength front < byteLength (front ++ l.text) := by
        rw [byteLength_append]
        exact Nat.lt_add_of_pos_right (Vector.byteLength_pos l.text_ne_nil)
      rw [List.append_assoc, ← htext] at hstop
      dsimp only [Option.map_some]
      rw [hstop, dif_pos hpast]
  · have hnone : Vector.takeLiteral (c :: rest) = none := by
      unfold Vector.takeLiteral
      split
      · exact absurd ⟨.round, _, ‹_›⟩ hopen
      · exact absurd ⟨.square, _, ‹_›⟩ hopen
      · rfl
    rw [hnone]
    exact findFrom_pass fun bracket more h => hopen ⟨bracket, more, h⟩

theorem findFrom_eq (front text : List Char) :
    findFrom (front ++ text) (byteLength front) =
      pure ((Vector.locate (byteLength front) (Vector.pieces text)).map foundOf) := by
  induction text using Vector.literal_induction generalizing front with
  | nil =>
    rw [List.append_nil, findFrom_end (by rw [length_bytes]; exact Nat.le_succ _)]
    rfl
  | literal l behind hwell ih =>
    obtain ⟨c, rest, htext⟩ : ∃ c rest, l.text ++ behind = c :: rest := ⟨_, _, rfl⟩
    have hread := Vector.Literal.takeLiteral_text hwell behind
    have hrest := ih (front ++ l.text)
    rw [List.append_assoc] at hrest
    rw [htext] at hread hrest
    rw [Vector.pieces_literal hwell, htext, findFrom_cons, hread]
    dsimp only
    rw [hrest, pure_bind, Vector.locate, List.map_cons, ← byteLength_append]
    rfl
  | char c rest hnone ih =>
    have hrest := ih (front ++ [c])
    rw [List.append_assoc, List.singleton_append, byteLength_concat] at hrest
    rw [findFrom_cons, hnone, Vector.pieces_of_none hnone, Vector.locate, byteLength_concat]
    exact hrest

/-- A scan finds the literals of a text with their places and components. -/
theorem find_eq (text : List Char) : find text = pure ((Vector.locate 0 (Vector.pieces text)).map foundOf) :=
  findFrom_eq [] text

end OdeSystem.Scan
