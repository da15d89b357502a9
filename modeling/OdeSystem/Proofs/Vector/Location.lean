import Mathlib.Data.List.Pairwise
import OdeSystem.Proofs.Vector.Literal

/-!
Where the literals of a text are. What is found between two places is a literal as it is written there, with balanced
parts. What is found comes in order and without overlap, and nothing is missed: a literal that is written in the text
is found, unless it begins inside of one that is found.
-/

namespace OdeSystem.Vector

open Text

/-! ### What is read is written there -/

theorem isPart_cons (depth : Nat) (c : Char) (rest : List Char) :
    isPart depth (c :: rest) =
      if c = '(' ∨ c = '[' then isPart (depth + 1) rest
      else if c = ')' ∨ c = ']' then
        match depth with
        | 0 => false
        | depth + 1 => isPart depth rest
      else if c = ',' ∧ depth = 0 then false
      else isPart depth rest := by
  cases depth <;> rfl

/-- Parts as they are written in a text, with commas between them, up to the brackets that close the literal. The first
one closes the groups that were open before it. -/
def WrittenParts (closing : Char) (depth : Nat) (parts : List (List Char)) (behind text : List Char) : Prop :=
  ∃ first others, parts = first :: others ∧ isPart depth first = true ∧ (∀ part ∈ others, isPart 0 part = true) ∧
    text = List.intercalate [','] parts ++ closing :: closing :: behind

section
variable {closing c : Char} {depth depth' : Nat} {text behind : List Char} {parts : List (List Char)}

/-- A character is put in front of the first part where the rule for parts allows it. -/
theorem WrittenParts.pushChar (hpart : ∀ part, isPart depth (c :: part) = isPart depth' part)
    (h : WrittenParts closing depth' parts behind text) :
    WrittenParts closing depth (pushChar c parts) behind (c :: text) := by
  obtain ⟨first, others, rfl, hfirst, hothers, rfl⟩ := h
  refine ⟨c :: first, others, rfl, (hpart first).trans hfirst, hothers, ?_⟩
  cases others with
  | nil => simp [Vector.pushChar]
  | cons next others => simp [Vector.pushChar, List.intercalate_cons_cons]

/-- A comma outside of all groups puts an empty part in front. -/
theorem WrittenParts.comma (h : WrittenParts closing 0 parts behind text) :
    WrittenParts closing 0 ([] :: parts) behind (',' :: text) := by
  obtain ⟨first, others, rfl, hfirst, hothers, rfl⟩ := h
  refine ⟨[], first :: others, rfl, rfl, by simpa using ⟨hfirst, hothers⟩, ?_⟩
  rw [List.intercalate_cons_cons]
  rfl

/-- The parts that are read are written in the text. -/
theorem takeParts_sound (h : takeParts closing depth text = some (parts, behind)) :
    WrittenParts closing depth parts behind text := by
  induction text generalizing depth parts with
  | nil => cases depth <;> cases h
  | cons c rest ih =>
    have push {depth' : Nat} (hpart : ∀ part, isPart depth (c :: part) = isPart depth' part)
        (h : ((takeParts closing depth' rest).map fun found => (pushChar c found.1, found.2)) = some (parts, behind)) :
        WrittenParts closing depth parts behind (c :: rest) := by
      obtain ⟨found, hfound, heq⟩ := Option.map_eq_some_iff.mp h
      cases heq
      exact (ih hfound).pushChar hpart
    rw [takeParts_cons] at h
    split at h
    · rename_i hopening
      exact push (fun part => by rw [isPart_cons, if_pos hopening]) h
    · rename_i hopening
      split at h
      · rename_i hclosing
        cases depth with
        | succ depth => exact push (fun part => by rw [isPart_cons, if_neg hopening, if_pos hclosing]) h
        | zero =>
          dsimp only at h
          split at h
          · rename_i hends
            obtain ⟨rfl, hhead⟩ := hends
            cases h
            obtain ⟨behind, rfl⟩ := List.head?_eq_some_iff.mp hhead
            exact ⟨[], [], rfl, rfl, by simp, rfl⟩
          · cases h
      · rename_i hclosing
        split at h
        · rename_i hcomma
          obtain ⟨rfl, rfl⟩ := hcomma
          obtain ⟨found, hfound, heq⟩ := Option.map_eq_some_iff.mp h
          cases heq
          exact (ih hfound).comma
        · rename_i hcomma
          exact push (fun part => by rw [isPart_cons, if_neg hopening, if_neg hclosing, if_neg hcomma]) h

end

theorem takeBody_sound {bracket : Bracket} {text behind : List Char} {l : Literal}
    (h : takeBody bracket text = some (l, behind)) :
    [bracket.opening, bracket.opening] ++ text = l.text ++ behind ∧ l.WellFormed := by
  unfold takeBody at h
  split at h
  · rename_i parts behind' hparts
    split at h
    · cases h
      obtain ⟨first, others, rfl, hfirst, hothers, htext⟩ := takeParts_sound hparts
      refine ⟨?_, by simpa [Literal.WellFormed] using ⟨hfirst, hothers⟩⟩
      rw [htext, Literal.text]
      simp only [List.append_assoc, List.cons_append, List.nil_append]
    · cases h
  · cases h

namespace Literal
variable {l l' : Literal} {text behind : List Char}

/-- A literal is read from the front of a text exactly if it is written there. -/
theorem takeLiteral_eq_some_iff : takeLiteral text = some (l, behind) ↔ text = l.text ++ behind ∧ l.WellFormed := by
  constructor
  · intro h
    unfold takeLiteral at h
    split at h
    · exact takeBody_sound h
    · exact takeBody_sound h
    · cases h
  · rintro ⟨rfl, h⟩
    exact takeLiteral_text h behind

/-- A text begins with one literal at most. -/
theorem eq_of_text_append {behind' : List Char} (h : l.WellFormed) (h' : l'.WellFormed)
    (heq : l.text ++ behind = l'.text ++ behind') : l = l' ∧ behind = behind' := by
  have hread : takeLiteral (l.text ++ behind) = some (l, behind) := takeLiteral_text h behind
  rw [heq, takeLiteral_text h' behind'] at hread
  cases hread
  exact ⟨rfl, rfl⟩

theorem text_ne_nil (l : Literal) : l.text ≠ [] := nofun

theorem getLast?_text (l : Literal) : l.text.getLast? = some l.bracket.closing :=
  List.getLast?_append_of_ne_nil _ (List.cons_ne_nil _ _)

end Literal

/-- A property of texts follows from their pieces: from what follows a literal, or a character where no literal
begins. -/
theorem literal_induction {motive : List Char → Prop} (nil : motive [])
    (literal : ∀ (l : Literal) (behind : List Char), l.WellFormed → motive behind → motive (l.text ++ behind))
    (char : ∀ (c : Char) (rest : List Char), takeLiteral (c :: rest) = none → motive rest → motive (c :: rest))
    (text : List Char) : motive text := by
  induction hn : text.length using Nat.strongRecOn generalizing text with
  | ind n ih =>
    cases text with
    | nil => exact nil
    | cons c rest =>
      cases hread : takeLiteral (c :: rest) with
      | none => exact char c rest hread (ih rest.length (by simp [← hn]) rest rfl)
      | some found =>
        obtain ⟨htext, hwell⟩ := Literal.takeLiteral_eq_some_iff.mp hread
        have hlength : found.2.length < n := by
          have := List.length_pos_iff.mpr found.1.text_ne_nil
          rw [← hn, htext, List.length_append]
          omega
        rw [htext]
        exact literal found.1 found.2 hwell (ih _ hlength found.2 rfl)

theorem pieces_of_none {c : Char} {rest : List Char} (h : takeLiteral (c :: rest) = none) :
    pieces (c :: rest) = .char c :: pieces rest := by
  rw [pieces, pieces_cons, cutPiece, h]
  rfl

/-- The pieces in order are the text. -/
theorem text_pieces (text : List Char) : (pieces text).flatMap Piece.text = text := by
  induction text using literal_induction with
  | nil => rfl
  | literal l behind hwell ih => rw [pieces_literal hwell, List.flatMap_cons, ih]; rfl
  | char c rest hnone ih => rw [pieces_of_none hnone, List.flatMap_cons, ih]; rfl

/-! ### Texts around literals -/

/-- A text without brackets of either kind. -/
def Unbracketed (text : List Char) : Prop := ∀ c ∈ text, c ∉ ['(', '[', ')', ']']

theorem Unbracketed.append {text more : List Char} (h : Unbracketed text) (h' : Unbracketed more) :
    Unbracketed (text ++ more) := fun c hc => (List.mem_append.mp hc).elim (h c) (h' c)

theorem Unbracketed.not_mem_opening {text : List Char} (h : Unbracketed text) (bracket : Bracket) :
    bracket.opening ∉ text := fun hmem => h _ hmem (by cases bracket <;> simp [Bracket.opening])

theorem Unbracketed.not_mem_closing {text : List Char} (h : Unbracketed text) (bracket : Bracket) :
    bracket.closing ∉ text := fun hmem => h _ hmem (by cases bracket <;> simp [Bracket.closing])

/-- No literal is completed by what holds no brackets. -/
theorem takeLiteral_append_of_none {text more : List Char} (h : takeLiteral text = none) (hmore : Unbracketed more) :
    takeLiteral (text ++ more) = none := by
  cases hread : takeLiteral (text ++ more) with
  | none => rfl
  | some found =>
    obtain ⟨heq, hwell⟩ := Literal.takeLiteral_eq_some_iff.mp hread
    rcases List.append_eq_append_iff.mp heq with ⟨last, hlast, rfl⟩ | ⟨behind, rfl, -⟩
    · rcases List.eq_nil_or_concat' last with rfl | ⟨inner, c, rfl⟩
      · have hwhole := Literal.takeLiteral_text hwell []
        rw [List.append_nil, hlast, List.append_nil, h] at hwhole
        cases hwhole
      · -- The literal would end with a bracket of the text behind.
        obtain rfl : found.1.bracket.closing = c := by
          have := congrArg List.getLast? hlast
          rw [Literal.getLast?_text, ← List.append_assoc, List.getLast?_concat] at this
          exact Option.some.inj this
        exact absurd (by simp) (hmore.not_mem_closing found.1.bracket)
    · rw [Literal.takeLiteral_text hwell] at h
      cases h

/-- A text has the same literals with texts without brackets around it. -/
theorem pieces_surrounded {front back : List Char} (hfront : Unbracketed front) (hback : Unbracketed back)
    (text : List Char) : pieces (front ++ text ++ back) = front.map .char ++ pieces text ++ back.map .char := by
  have hopening {text : List Char} (h : Unbracketed text) : ∀ c ∈ text, c ∉ ['(', '['] := fun c hc hmem =>
    h c hc (List.mem_append_left [')', ']'] hmem)
  have hbehind : pieces (text ++ back) = pieces text ++ back.map .char := by
    induction text using literal_induction with
    | nil => simpa [pieces] using pieces_chars (hopening hback) []
    | literal l behind hwell ih => rw [List.append_assoc, pieces_literal hwell, ih, pieces_literal hwell]; rfl
    | char c rest hnone ih =>
      have hread : takeLiteral (c :: (rest ++ back)) = none := takeLiteral_append_of_none hnone hback
      rw [List.cons_append, pieces_of_none hread, ih, pieces_of_none hnone]
      rfl
  rw [List.append_assoc, pieces_chars (hopening hfront), hbehind, List.append_assoc]

/-! ### Places -/

theorem byteLength_pos {text : List Char} (h : text ≠ []) : 0 < byteLength text := by
  cases text with
  | nil => exact absurd rfl h
  | cons c rest =>
    have := c.utf8Size_pos
    simp only [byteLength, List.foldr_cons]
    omega

/-- A place in a text says what stands before it. -/
theorem eq_of_byteLength_eq {front front' back back' : List Char} (h : front ++ back = front' ++ back')
    (hlength : byteLength front = byteLength front') : front = front' ∧ back = back' := by
  have hempty {more : List Char} (h : byteLength more = 0) : more = [] := by
    by_contra hne
    have := byteLength_pos hne
    omega
  rcases List.append_eq_append_iff.mp h with ⟨more, rfl, rfl⟩ | ⟨more, rfl, rfl⟩
  · rw [byteLength_append] at hlength
    obtain rfl : more = [] := hempty (by omega)
    exact ⟨(List.append_nil _).symm, rfl⟩
  · rw [byteLength_append] at hlength
    obtain rfl : more = [] := hempty (by omega)
    exact ⟨List.append_nil _, rfl⟩

/-- A literal stands between two places of a text, counted in bytes: it is written there, with balanced parts. -/
structure Literal.StandsAt (l : Literal) (text : List Char) (start stop : Nat) : Prop where
  wellFormed : l.WellFormed
  written : ∃ front back, text = front ++ l.text ++ back ∧ byteLength front = start ∧
    byteLength (front ++ l.text) = stop

theorem mem_locate {offset : Nat} {text : List Char} {found : Located} (h : found ∈ locate offset (pieces text)) :
    found.literal.WellFormed ∧ ∃ front back, text = front ++ found.literal.text ++ back ∧
      found.start = offset + byteLength front ∧ found.stop = found.start + byteLength found.literal.text := by
  induction text using literal_induction generalizing offset with
  | nil => cases h
  | literal l behind hwell ih =>
    rw [pieces_literal hwell, locate] at h
    rcases List.mem_cons.mp h with rfl | h
    · exact ⟨hwell, [], behind, rfl, rfl, rfl⟩
    · obtain ⟨hfound, front, back, rfl, hstart, hstop⟩ := ih h
      exact ⟨hfound, l.text ++ front, back, by simp, by rw [hstart, byteLength_append]; omega, hstop⟩
  | char c rest hnone ih =>
    rw [pieces_of_none hnone, locate] at h
    obtain ⟨hfound, front, back, rfl, hstart, hstop⟩ := ih h
    refine ⟨hfound, c :: front, back, rfl, ?_, hstop⟩
    rw [hstart, byteLength, byteLength, List.foldr_cons]
    omega

theorem pairwise_locate (offset : Nat) (text : List Char) :
    (locate offset (pieces text)).Pairwise fun earlier later => earlier.stop ≤ later.start := by
  induction text using literal_induction generalizing offset with
  | nil => exact .nil
  | literal l behind hwell ih =>
    rw [pieces_literal hwell, locate]
    refine .cons (fun later hlater => ?_) (ih _)
    obtain ⟨-, front, -, -, hstart, -⟩ := mem_locate hlater
    rw [hstart]
    exact Nat.le_add_right ..
  | char c rest hnone ih =>
    rw [pieces_of_none hnone, locate]
    exact ih _

/-- A literal that begins before the end of another one at the front of the text is that one, or begins inside of it. -/
theorem Literal.eq_or_inside {first l : Literal} {front inner back behind : List Char} (hfirst : first.WellFormed)
    (hwell : l.WellFormed) (htext : front ++ (l.text ++ back) = first.text ++ behind)
    (hinner : first.text = front ++ inner) (hne : inner ≠ []) :
    (front = [] ∧ first = l) ∨ (0 < byteLength front ∧ byteLength front < byteLength first.text) := by
  by_cases hfront : front = []
  · subst hfront
    exact .inl ⟨rfl, (Literal.eq_of_text_append hwell hfirst htext).1.symm⟩
  · refine .inr ⟨byteLength_pos hfront, ?_⟩
    rw [hinner, byteLength_append]
    exact Nat.lt_add_of_pos_right (byteLength_pos hne)

/-- A literal that is written in a text is found, or it begins inside of one that is found. -/
theorem exists_mem_locate {front back : List Char} {l : Literal} (hwell : l.WellFormed) (offset : Nat) :
    ∃ found ∈ locate offset (pieces (front ++ l.text ++ back)),
      (found.start = offset + byteLength front ∧ found.literal = l) ∨
        (found.start < offset + byteLength front ∧ offset + byteLength front < found.stop) := by
  generalize htext : front ++ l.text ++ back = text
  induction text using literal_induction generalizing front offset with
  | nil => exact absurd htext (by simp [l.text_ne_nil])
  | literal first behind hfirst ih =>
    rw [pieces_literal hfirst, locate]
    rw [List.append_assoc] at htext
    -- A literal behind the first one is written in what is behind that one.
    have further {between : List Char} (hfront : front = first.text ++ between)
        (hbehind : behind = between ++ (l.text ++ back)) :
        ∃ found ∈ locate (offset + byteLength first.text) (pieces behind),
          (found.start = offset + byteLength front ∧ found.literal = l) ∨
            (found.start < offset + byteLength front ∧ offset + byteLength front < found.stop) := by
      rw [hfront, byteLength_append, ← Nat.add_assoc]
      exact ih (offset + byteLength first.text) (by rw [hbehind, List.append_assoc])
    rcases List.append_eq_append_iff.mp htext with ⟨inner, hinner, hback⟩ | ⟨between, hfront, hbehind⟩
    · by_cases hempty : inner = []
      · subst hempty
        obtain ⟨found, hfound, hplace⟩ := @further [] (by simpa using hinner.symm) (by simpa using hback.symm)
        exact ⟨found, List.mem_cons_of_mem _ hfound, hplace⟩
      · refine ⟨_, List.mem_cons_self .., ?_⟩
        rcases Literal.eq_or_inside hfirst hwell htext hinner hempty with ⟨rfl, rfl⟩ | ⟨hbefore, hinside⟩
        · exact .inl ⟨rfl, rfl⟩
        · exact .inr ⟨Nat.lt_add_of_pos_right hbefore, Nat.add_lt_add_left hinside offset⟩
    · obtain ⟨found, hfound, hplace⟩ := further hfront hbehind
      exact ⟨found, List.mem_cons_of_mem _ hfound, hplace⟩
  | char c rest hnone ih =>
    cases front with
    | nil =>
      have hread := Literal.takeLiteral_text hwell back
      rw [List.nil_append] at htext
      rw [htext, hnone] at hread
      cases hread
    | cons d front =>
      obtain ⟨rfl, hrest⟩ : d = c ∧ front ++ l.text ++ back = rest := by simpa using htext
      obtain ⟨found, hfound, hplace⟩ := ih (offset + d.utf8Size) hrest
      rw [pieces_of_none hnone, locate]
      have hlength : byteLength (d :: front) = d.utf8Size + byteLength front := rfl
      exact ⟨found, hfound, by rwa [hlength, ← Nat.add_assoc]⟩

/-! ### Literals that are found -/

/-- A literal begins inside of another one that is found. -/
def Located.Covers (found : Located) (place : Nat) : Prop := found.start < place ∧ place < found.stop

theorem standsAt_of_mem_find {text : String} {found : Located} (h : found ∈ find text) :
    found.literal.StandsAt text.toList found.start found.stop := by
  obtain ⟨hwell, front, back, htext, hstart, hstop⟩ := mem_locate h
  refine ⟨hwell, front, back, htext, by omega, ?_⟩
  rw [byteLength_append]
  omega

theorem Literal.StandsAt.lt {l : Literal} {text : List Char} {start stop : Nat} (h : l.StandsAt text start stop) :
    start < stop := by
  obtain ⟨-, front, back, -, rfl, rfl⟩ := h
  have := byteLength_pos l.text_ne_nil
  rw [byteLength_append]
  omega

theorem not_covers_of_mem_find {text : String} {found other : Located} (h : found ∈ find text)
    (hother : other ∈ find text) : ¬ other.Covers found.start := by
  have hsymm : Std.Symm fun a b : Located => ¬ a.Covers b.start ∧ ¬ b.Covers a.start := ⟨fun _ _ hab => hab.symm⟩
  have hapart : (find text).Pairwise fun a b => ¬ a.Covers b.start ∧ ¬ b.Covers a.start := by
    refine (pairwise_locate 0 text.toList).imp_of_mem fun ha hb hle => ?_
    have hlt := (standsAt_of_mem_find ha).lt
    have hlt' := (standsAt_of_mem_find hb).lt
    simp only [Located.Covers]
    omega
  exact (hapart.forall_of_forall (by simp [Located.Covers]) hother h).1

/-- What is found in a text are the literals that are written in it, but for those that begin inside of one that is
found. They come in order and without overlap; and at one place no more than one literal begins. -/
theorem find_exactly (text : String) :
    (∀ l start stop, ⟨start, stop, l⟩ ∈ find text ↔
      l.StandsAt text.toList start stop ∧ ∀ found ∈ find text, ¬ found.Covers start) ∧
    (find text).Pairwise (fun earlier later =>
      earlier.start < earlier.stop ∧ earlier.stop ≤ later.start ∧ later.start < later.stop) ∧
    ∀ (l l' : Literal) (start stop stop' : Nat), l.StandsAt text.toList start stop →
      l'.StandsAt text.toList start stop' → l = l' ∧ stop = stop' := by
  refine ⟨fun l start stop => ⟨fun h => ⟨standsAt_of_mem_find h, fun found hfound => ?_⟩, ?_⟩, ?_, ?_⟩
  · exact not_covers_of_mem_find h hfound
  · rintro ⟨⟨hwell, front, back, htext, rfl, rfl⟩, hfree⟩
    obtain ⟨found, hfound, hplace⟩ := @exists_mem_locate front back l hwell 0
    rw [← htext] at hfound
    rw [Nat.zero_add] at hplace
    rcases hplace with ⟨hstart, rfl⟩ | hcovers
    · obtain ⟨-, -, -, -, -, hstop⟩ := mem_locate hfound
      rwa [byteLength_append, ← hstart, ← hstop]
    · exact absurd hcovers (hfree found hfound)
  · exact (pairwise_locate 0 text.toList).imp_of_mem fun ha hb hle =>
      ⟨(standsAt_of_mem_find ha).lt, hle, (standsAt_of_mem_find hb).lt⟩
  · rintro l l' start stop stop' ⟨hwell, front, back, htext, rfl, rfl⟩ ⟨hwell', front', back', htext', hstart, rfl⟩
    rw [htext, List.append_assoc, List.append_assoc] at htext'
    obtain ⟨rfl, hrest⟩ := eq_of_byteLength_eq htext' hstart.symm
    obtain ⟨rfl, -⟩ := Literal.eq_of_text_append hwell hwell' hrest
    exact ⟨rfl, rfl⟩

/-- In a group, and behind a character of more than one byte with a group in a part; no literal begins with the first
group. -/
theorem find_exactly_nested :
    let text := "(((a,b)))+\u00e9[[c, (d,e)]]"
    ⟨1, 8, ⟨.round, ["a".toList, "b".toList], by decide⟩⟩ ∈ find text ∧
      ⟨12, 24, ⟨.square, ["c".toList, " (d,e)".toList], by decide⟩⟩ ∈ find text ∧
      ∀ (l : Literal) (stop : Nat), ¬ l.StandsAt text.toList 0 stop := by
  intro text
  obtain ⟨hmem, -, -⟩ := find_exactly text
  have hspans : (find text).map (fun found => (found.start, found.stop)) = [(1, 8), (12, 24)] := by decide +kernel
  have hspan {found : Located} (h : found ∈ find text) :
      (found.start = 1 ∧ found.stop = 8) ∨ (found.start = 12 ∧ found.stop = 24) := by
    simpa [hspans] using List.mem_map_of_mem (f := fun found : Located => (found.start, found.stop)) h
  refine ⟨(hmem _ _ _).mpr ⟨?_, fun found hfound => ?_⟩, (hmem _ _ _).mpr ⟨?_, fun found hfound => ?_⟩,
    fun l stop h => ?_⟩
  · exact ⟨by decide, ['('], ")+\u00e9[[c, (d,e)]]".toList, by decide, by decide, by decide⟩
  · have := hspan hfound
    simp only [Located.Covers]
    omega
  · exact ⟨by decide, "(((a,b)))+\u00e9".toList, [], by decide, by decide, by decide⟩
  · have := hspan hfound
    simp only [Located.Covers]
    omega
  · have hfree : ∀ found ∈ find text, ¬ found.Covers 0 := fun found _ hcovers => Nat.not_lt_zero _ hcovers.1
    have := hspan ((hmem l 0 stop).mpr ⟨h, hfree⟩)
    simp at this

end OdeSystem.Vector
