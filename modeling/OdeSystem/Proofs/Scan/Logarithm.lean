import OdeSystem.Proofs.Notation.Subscript
import OdeSystem.Proofs.Scan.Basic

/-!
Subscripted logarithms scanned by bytes. A search gives the places of a subscript in what is left of the text, the text
is cut there, and the argument behind it is given with the number of bytes it takes, which is where the text is cut
again. The depth of a group begins with the parenthesis that opens it, so it is never closed too often.
-/

namespace OdeSystem.Scan

open Notation Text

/-- The inside of a group and the bytes it takes with its parentheses, `depth` of which are open before the given
characters of the text. -/
def group (text : List Char) (depth : Nat) : List (Nat × Char) → Checked (Option (List Char × Nat))
  | [] => pure none
  | (i, c) :: rest =>
    if c = '(' then group text (depth + 1) rest
    else if c = ')' then do
      let depth ← close depth
      if depth = 0 then return some (← slice 1 i text, i + 1) else group text depth rest
    else group text depth rest

/-- The place behind the word at the front of a text. -/
def wordEnd (text : List Char) : Nat :=
  (((places 0 text).find? fun place => !isArgumentChar place.2).map Prod.fst).getD (byteLength text)

/-- The argument at the front of a text and the bytes it takes. -/
def takeArgument (text : List Char) : Checked (Option (List Char × Nat)) :=
  if text.head? = some '(' then group text 0 (places 0 text)
  else if 0 < wordEnd text then return some (← slice 0 (wordEnd text) text, wordEnd text)
  else return none

/-- A subscript with the blanks around it: where it begins and ends, and the base. -/
structure Subscript where
  start : Nat
  stop : Nat
  base : List Char

/-- The first subscript from a place on, given the character before it. -/
def findSubscript (before : Option Char) (start : Nat) : List Char → Option Subscript
  | [] => none
  | c :: rest =>
    match if atBoundary before (c :: rest) then takeSubscript (c :: rest) else none with
    | some (base, after) => some ⟨start, start + (byteLength (c :: rest) - byteLength after), base⟩
    | none => findSubscript (some c) (start + c.utf8Size) rest

/-- What is written up to the end of the first subscripted logarithm, replaced if it has an argument, and what is left
behind it. -/
def replaceFirst (text : List Char) : Checked (Option (List Char × List Char)) :=
  match findSubscript none 0 text with
  | none => return none
  | some found => do
    let after ← sliceFrom found.stop text
    match ← takeArgument after with
    | some (argument, consumed) =>
      return some ((← slice 0 found.start text) ++ logarithm argument found.base, ← sliceFrom consumed after)
    | none => return some (← slice 0 found.stop text, after)

/-- What is written of a text, with every subscripted logarithm in what is left of it replaced. -/
def plainLogarithmsFrom (written rest : List Char) : Checked (List Char) := do
  match ← replaceFirst rest with
  | some (more, behind) =>
    if _h : behind.length < rest.length then plainLogarithmsFrom (written ++ more) behind else throw .stuck
  | none => return written ++ rest
termination_by rest.length

/-- Replaces every subscripted logarithm. -/
def plainLogarithms (text : List Char) : Checked (List Char) := plainLogarithmsFrom [] text

/-! ### Arguments -/

/-- A group is scanned up to the parenthesis that closes it, one more than the `depth` inside of it being open. -/
theorem group_places (depth : Nat) (inner rest : List Char) :
    group ('(' :: (inner ++ rest)) (depth + 1) (places (byteLength ('(' :: inner)) rest) =
      pure ((takeGroup depth rest).map fun found =>
        (inner ++ found.1, byteLength ('(' :: (inner ++ rest)) - byteLength found.2)) := by
  induction rest generalizing depth inner with
  | nil => cases depth <;> rfl
  | cons c rest ih =>
    have hnext (depth : Nat) : group ('(' :: (inner ++ c :: rest)) (depth + 1)
        (places (byteLength ('(' :: inner) + c.utf8Size) rest) =
          pure (((takeGroup depth rest).map fun found => (c :: found.1, found.2)).map fun found =>
            (inner ++ found.1, byteLength ('(' :: (inner ++ c :: rest)) - byteLength found.2)) := by
      have hrest := ih depth (inner ++ [c])
      simp only [List.append_assoc, List.singleton_append] at hrest
      rw [← byteLength_concat, List.cons_append, hrest, Option.map_map]
      rfl
    rw [places, group, takeGroup_cons]
    split
    · exact hnext (depth + 1)
    split
    · rename_i hclosing
      cases depth with
      | zero =>
        have hsize : byteLength ('(' :: (inner ++ c :: rest)) - byteLength rest = byteLength ('(' :: inner) + 1 := by
          rw [← List.cons_append, (split_cons (by rw [hclosing]; decide) ('(' :: inner) rest).1, byteLength_sub,
            byteLength_concat_ascii (by rw [hclosing]; decide)]
        have hcut : slice 1 (byteLength ('(' :: inner)) ('(' :: (inner ++ c :: rest)) = pure inner :=
          slice_append ['('] inner (c :: rest)
        rw [Option.map_some, List.append_nil, hsize]
        change (slice 1 (byteLength ('(' :: inner)) ('(' :: (inner ++ c :: rest)) >>= _) = _
        rw [hcut]
        rfl
      | succ depth => exact hnext depth
    · exact hnext depth

theorem wordEnd_eq (text : List Char) : wordEnd text = byteLength (text.takeWhile isArgumentChar) := by
  suffices ∀ front : List Char,
      (((places (byteLength front) text).find? fun place => !isArgumentChar place.2).map Prod.fst).getD
        (byteLength (front ++ text)) = byteLength (front ++ text.takeWhile isArgumentChar) from this []
  induction text with
  | nil => exact fun front => rfl
  | cons c rest ih =>
    intro front
    have hnext := ih (front ++ [c])
    rw [List.append_assoc, List.append_assoc, List.singleton_append, List.singleton_append] at hnext
    rw [places, List.find?_cons, ← byteLength_concat]
    cases hc : isArgumentChar c with
    | true =>
      rw [List.takeWhile_cons_of_pos hc, ← hnext]
      rfl
    | false =>
      rw [List.takeWhile_cons_of_neg (by simp [hc]), List.append_nil]
      rfl

/-- The argument is the one that is read, and the bytes it takes are those before what follows it. -/
theorem takeArgument_eq (text : List Char) :
    takeArgument text = pure ((Notation.takeArgument text).map fun found =>
      (found.1, byteLength text - byteLength found.2)) := by
  cases text with
  | nil => rfl
  | cons c rest =>
    by_cases hopen : c = '('
    · subst hopen
      exact group_places 0 [] rest
    · rw [takeArgument, if_neg (by simpa using hopen), takeArgument_cons_of_ne hopen, wordEnd_eq]
      generalize hword : (c :: rest).takeWhile isArgumentChar = word
      have hsplit : word ++ (c :: rest).dropWhile isArgumentChar = c :: rest :=
        hword ▸ List.takeWhile_append_dropWhile
      have hcut := slice_zero word ((c :: rest).dropWhile isArgumentChar)
      have hsize := byteLength_sub word ((c :: rest).dropWhile isArgumentChar)
      rw [hsplit] at hcut hsize
      cases word with
      | nil => rfl
      | cons d word =>
        rw [if_pos (Vector.byteLength_pos (List.cons_ne_nil d word)), hcut, pure_bind, List.isEmpty_cons, if_neg nofun,
          Option.map_some, hsize]

/-! ### The search -/

theorem exists_of_takeArgument {text argument behind : List Char}
    (h : Notation.takeArgument text = some (argument, behind)) : ∃ taken, text = taken ++ behind := by
  rcases takeArgument_cases h with htext | ⟨htext, -⟩
  · exact ⟨'(' :: (argument ++ [')']), by simp [htext]⟩
  · exact ⟨argument, htext⟩

section
variable {before : Option Char} {start : Nat} {text : List Char} {found : Subscript}

theorem eq_none_of_takeSubscript (h : (if atBoundary before text then takeSubscript text else none) = none) :
    (if atBoundary before text then takeBase text else none) = none := by
  split
  · rename_i hboundary
    rw [if_pos hboundary, takeSubscript_eq] at h
    exact Option.map_eq_none_iff.mp h
  · rfl

theorem findSubscript_eq_none (h : findSubscript before start text = none) :
    Notation.plainLogarithmsFrom before text = text := by
  induction text generalizing before start with
  | nil => rfl
  | cons c rest ih =>
    unfold findSubscript at h
    split at h
    · cases h
    · rename_i hnone
      rw [plainLogarithmsFrom_kept (eq_none_of_takeSubscript hnone), ih h]

/-- Where a subscript begins, the logarithm is replaced if it has an argument. -/
theorem plainLogarithmsFrom_subscript {c : Char} {rest base behind : List Char}
    (boundary : atBoundary before (c :: rest) = true) (h : takeBase (c :: rest) = some (base, behind)) :
    ∃ opening, c :: rest = opening ++ trimLeft behind ∧ opening ≠ [] ∧
      Notation.plainLogarithmsFrom before (c :: rest) =
        match Notation.takeArgument (trimLeft behind) with
        | some (argument, after) => logarithm argument base ++ Notation.plainLogarithmsFrom none after
        | none => opening ++ Notation.plainLogarithmsFrom none (trimLeft behind) := by
  obtain ⟨opening, hopening, htext⟩ := opening_of_takeBase h
  refine ⟨opening, htext, hopening.ne_nil, ?_⟩
  cases hargument : Notation.takeArgument (trimLeft behind) with
  | none => exact plainLogarithmsFrom_opening hopening htext boundary h hargument
  | some found =>
    obtain ⟨argument, after⟩ := found
    obtain ⟨taken, htaken⟩ := exists_of_takeArgument hargument
    have hwhole : c :: rest = (opening ++ taken) ++ after := by rw [htext, htaken, List.append_assoc]
    exact plainLogarithmsFrom_found hwhole (by simp [hopening.ne_nil]) boundary
      (takeLogarithm_eq_some_iff.mpr ⟨behind, h, hargument⟩)

/-- A subscript stands between its places, and the logarithm is replaced from there if it has an argument. -/
theorem findSubscript_eq_some (h : findSubscript before start text = some found) :
    ∃ front opening after, text = front ++ (opening ++ after) ∧ opening ≠ [] ∧
      found.start = start + byteLength front ∧ found.stop = start + byteLength (front ++ opening) ∧
      Notation.plainLogarithmsFrom before text = front ++
        match Notation.takeArgument after with
        | some (argument, behind) => logarithm argument found.base ++ Notation.plainLogarithmsFrom none behind
        | none => opening ++ Notation.plainLogarithmsFrom none after := by
  induction text generalizing before start with
  | nil => cases h
  | cons c rest ih =>
    unfold findSubscript at h
    split at h
    · rename_i base after hfound
      have hboundary : atBoundary before (c :: rest) = true := by
        by_contra hnot
        rw [if_neg hnot] at hfound
        cases hfound
      rw [if_pos hboundary, takeSubscript_eq] at hfound
      obtain ⟨⟨base', behind⟩, hbase, heq⟩ := Option.map_eq_some_iff.mp hfound
      cases heq
      cases h
      obtain ⟨opening, htext, hne, hreplaced⟩ := plainLogarithmsFrom_subscript hboundary hbase
      refine ⟨[], opening, trimLeft behind, htext, hne, rfl, ?_, hreplaced⟩
      rw [htext, byteLength_sub]
      rfl
    · rename_i hnone
      obtain ⟨front, opening, after, rfl, hne, hstart, hstop, hreplaced⟩ := ih h
      refine ⟨c :: front, opening, after, rfl, hne, ?_, ?_, ?_⟩
      · rw [hstart, byteLength_cons, Nat.add_assoc]
      · rw [hstop, List.cons_append, byteLength_cons, Nat.add_assoc]
      · rw [plainLogarithmsFrom_kept (eq_none_of_takeSubscript hnone), hreplaced]
        rfl

end

/-- The first logarithm is replaced, or the text stays as it is. -/
theorem replaceFirst_eq (text : List Char) :
    (replaceFirst text = pure none ∧ Notation.plainLogarithms text = text) ∨
      ∃ more behind, replaceFirst text = pure (some (more, behind)) ∧ behind.length < text.length ∧
        Notation.plainLogarithms text = more ++ Notation.plainLogarithms behind := by
  unfold replaceFirst
  cases hfound : findSubscript none 0 text with
  | none => exact .inl ⟨rfl, findSubscript_eq_none hfound⟩
  | some found =>
    obtain ⟨front, opening, after, rfl, hne, hstart, hstop, hreplaced⟩ := findSubscript_eq_some hfound
    rw [Nat.zero_add] at hstart hstop
    have hlength := List.length_pos_iff.mpr hne
    have hafter : sliceFrom found.stop (front ++ (opening ++ after)) = pure after := by
      rw [hstop, ← List.append_assoc, sliceFrom_append]
    have hfront : slice 0 found.stop (front ++ (opening ++ after)) = pure (front ++ opening) := by
      rw [hstop, ← List.append_assoc, slice_zero]
    dsimp only
    rw [hafter, pure_bind, takeArgument_eq, pure_bind]
    cases hargument : Notation.takeArgument after with
    | none =>
      rw [hargument] at hreplaced
      refine .inr ⟨front ++ opening, after, ?_, ?_, ?_⟩
      · rw [Option.map_none]
        dsimp only
        rw [hfront]
        rfl
      · rw [List.length_append, List.length_append]
        omega
      · exact hreplaced.trans (List.append_assoc ..).symm
    | some taken =>
      obtain ⟨argument, behind⟩ := taken
      obtain ⟨taken, rfl⟩ := exists_of_takeArgument hargument
      rw [hargument] at hreplaced
      refine .inr ⟨front ++ logarithm argument found.base, behind, ?_, ?_, ?_⟩
      · rw [Option.map_some, byteLength_sub]
        dsimp only
        rw [hstart, slice_zero, pure_bind, sliceFrom_append]
        rfl
      · rw [List.length_append, List.length_append, List.length_append]
        omega
      · exact hreplaced.trans (List.append_assoc ..).symm

/-- The search replaces every subscripted logarithm, and every place it cuts the text at is between characters. -/
theorem plainLogarithmsFrom_eq (written rest : List Char) :
    plainLogarithmsFrom written rest = pure (written ++ Notation.plainLogarithms rest) := by
  induction hn : rest.length using Nat.strongRecOn generalizing written rest with
  | ind n ih =>
    rw [plainLogarithmsFrom]
    rcases replaceFirst_eq rest with ⟨hread, hwhole⟩ | ⟨more, behind, hread, hless, hwhole⟩
    · rw [hread, pure_bind, hwhole]
    · rw [hread, pure_bind]
      dsimp only
      rw [dif_pos hless, ih _ (hn ▸ hless) _ _ rfl, hwhole, List.append_assoc]

theorem plainLogarithms_eq (text : List Char) : plainLogarithms text = pure (Notation.plainLogarithms text) :=
  plainLogarithmsFrom_eq [] text

end OdeSystem.Scan
