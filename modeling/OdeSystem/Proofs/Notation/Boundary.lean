import Mathlib.Data.List.Chain
import OdeSystem.Proofs.Notation.Lookahead
import OdeSystem.Proofs.Notation.Settled

/-!
Derivatives and their neighbours. A search for derivatives cuts a text into what it keeps and the spellings that it
replaces. Parentheses around a numerator or a denominator are tokens of their own, but the one form begins and ends with
letters; so where a name stands before a spelling, or goes on behind it, the derivative runs into that name. There are no
other places at which it does: if no name stands there, the tokens of all that is kept stay as they are.
-/

namespace OdeSystem.Notation

open Text

/-! ### What a search keeps and replaces -/

/-- Whether the last of some tokens is a name. -/
def endsInName (list : List Token) : Bool :=
  match list.getLast? with
  | some (.name _) => true
  | _ => false

theorem exists_name_of_endsInName {list : List Token} (h : endsInName list = true) :
    ∃ front f, list = front ++ [.name f] := by
  unfold endsInName at h
  split at h
  · rename_i f hlast
    obtain ⟨front, hfront⟩ := List.getLast?_eq_some_iff.mp hlast
    exact ⟨front, f, hfront⟩
  · cases h

/-- A part of a text that is searched: characters that are kept, or a spelling of a derivative and its variable. -/
inductive Segment
  | kept (text : List Char)
  | replaced (spelling name : List Char)
  deriving DecidableEq, Repr

namespace Segment

/-- What stands in the text that is searched. -/
def read : Segment → List Char
  | kept text => text
  | replaced spelling _ => spelling

/-- What stands in its place afterwards. -/
def written : Segment → List Char
  | kept text => text
  | replaced _ name => derivative name

/-- Whether the part is kept. -/
def isKept : Segment → Bool
  | kept _ => true
  | replaced .. => false

/-- The parts of a text, with those that are kept side by side joined to one. -/
def join : List Segment → List Segment
  | [] => []
  | replaced spelling name :: rest => replaced spelling name :: join rest
  | kept text :: rest =>
    match join rest with
    | kept more :: rest => kept (text ++ more) :: rest
    | rest => kept text :: rest

/-- Whether a derivative does not run into what is kept beside it: a name neither ends where the derivative begins nor
goes on where it ends. Two derivatives side by side always run into one another. -/
def Unglued : Segment → Segment → Prop
  | kept text, replaced .. => endsInName (tokens text) = false
  | replaced .., kept text => text.head?.any isNameChar = false
  | kept _, kept _ => False
  | replaced .., replaced .. => False

instance : DecidableRel Unglued
  | kept _, replaced .. => inferInstanceAs (Decidable (_ = false))
  | replaced .., kept _ => inferInstanceAs (Decidable (_ = false))
  | kept _, kept _ => inferInstanceAs (Decidable False)
  | replaced .., replaced .. => inferInstanceAs (Decidable False)

section
variable {side : Segment → List Char} {segments : List Segment}

theorem join_kept (text : List Char) (rest : List Segment) :
    (∃ more behind, join rest = kept more :: behind ∧ join (kept text :: rest) = kept (text ++ more) :: behind) ∨
      ((∀ first ∈ (join rest).head?, first.isKept = false) ∧ join (kept text :: rest) = kept text :: join rest) := by
  cases h : join rest with
  | nil => exact .inr ⟨by simp, by rw [join, h]⟩
  | cons first behind =>
    cases first with
    | kept more => exact .inl ⟨more, behind, rfl, by rw [join, h]⟩
    | replaced spelling name => exact .inr ⟨by simp [isKept], by rw [join, h]⟩

theorem flatMap_join (hkept : ∀ text, side (kept text) = text) (segments : List Segment) :
    (join segments).flatMap side = segments.flatMap side := by
  induction segments with
  | nil => rfl
  | cons first rest ih =>
    cases first with
    | replaced spelling name => rw [join, List.flatMap_cons, List.flatMap_cons, ih]
    | kept text =>
      rw [List.flatMap_cons, ← ih]
      rcases join_kept text rest with ⟨more, behind, hrest, hjoin⟩ | ⟨-, hjoin⟩
      · rw [hjoin, hrest, List.flatMap_cons, List.flatMap_cons, hkept, hkept, hkept, List.append_assoc]
      · rw [hjoin, List.flatMap_cons]

theorem mem_join_replaced {spelling name : List Char} (h : replaced spelling name ∈ join segments) :
    replaced spelling name ∈ segments := by
  induction segments with
  | nil => cases h
  | cons first rest ih =>
    cases first with
    | replaced spelling' name' =>
      rcases List.mem_cons.mp h with heq | h
      · rw [heq]
        exact List.mem_cons_self ..
      · exact List.mem_cons_of_mem _ (ih h)
    | kept text =>
      refine List.mem_cons_of_mem _ (ih ?_)
      rcases join_kept text rest with ⟨more, behind, hrest, hjoin⟩ | ⟨-, hjoin⟩
      · rw [hjoin] at h
        rw [hrest]
        exact List.mem_cons_of_mem _ ((List.mem_cons.mp h).resolve_left (by simp))
      · rw [hjoin] at h
        exact (List.mem_cons.mp h).resolve_left (by simp)

/-- No part that is kept is empty if none was before the join. -/
theorem ne_nil_of_mem_join (hne : ∀ text, kept text ∈ segments → text ≠ []) {text : List Char}
    (h : kept text ∈ join segments) : text ≠ [] := by
  induction segments generalizing text with
  | nil => cases h
  | cons first rest ih =>
    have hrest {text : List Char} (h : kept text ∈ join rest) : text ≠ [] :=
      ih (fun text h => hne text (List.mem_cons_of_mem _ h)) h
    cases first with
    | replaced spelling name => exact hrest ((List.mem_cons.mp h).resolve_left (by simp))
    | kept front =>
      have hfront : front ≠ [] := hne front (List.mem_cons_self ..)
      rcases join_kept front rest with ⟨more, behind, hbehind, hjoin⟩ | ⟨-, hjoin⟩
      · rw [hjoin] at h
        rcases List.mem_cons.mp h with heq | h
        · rw [kept.inj heq]
          simp [hfront]
        · exact hrest (hbehind ▸ List.mem_cons_of_mem _ h)
      · rw [hjoin] at h
        rcases List.mem_cons.mp h with heq | h
        · exact kept.inj heq ▸ hfront
        · exact hrest h

/-- No two parts side by side are kept. -/
theorem isChain_join (segments : List Segment) :
    (join segments).IsChain fun left right => left.isKept = true → right.isKept = false := by
  induction segments with
  | nil => exact .nil
  | cons first rest ih =>
    cases first with
    | replaced spelling name => exact List.isChain_cons.mpr ⟨fun _ _ h => (nomatch h), ih⟩
    | kept text =>
      rcases join_kept text rest with ⟨more, behind, hrest, hjoin⟩ | ⟨hhead, hjoin⟩
      · rw [hrest] at ih
        rw [hjoin]
        exact List.isChain_cons.mpr (List.isChain_cons.mp ih)
      · rw [hjoin]
        exact List.isChain_cons.mpr ⟨fun first hfirst _ => hhead first hfirst, ih⟩

end

end Segment

/-! ### The three searches -/

/-- The kinds of numerators, in the order in which they are searched for. -/
inductive Numerator
  | wrapped
  | applied
  | plain
  deriving DecidableEq, Repr

namespace Numerator
variable (n : Numerator)

/-- Whether the spelling has to begin at a word boundary. One with its numerator in parentheses does not. -/
def atWord : Numerator → Bool
  | wrapped => false
  | applied | plain => true

/-- Reads a derivative with such a numerator. -/
def take : Numerator → List Char → Option (List Char × List Char)
  | wrapped => takeWrapped
  | applied => takeApplied
  | plain => takePlain

/-- The text with every derivative of the kind in its one form. -/
def rewrite (text : List Char) : List Char := replaceAll (derivativeFinder n.atWord n.take) text

/-- What is searched, each search going over what the one before it gives. -/
def searched : Numerator → List Char → List Char
  | wrapped, text => text
  | applied, text => wrapped.rewrite text
  | plain, text => applied.rewrite (wrapped.rewrite text)

/-- One part of a search. -/
def segmentRule (before : Option Char) (c : Char) (rest : List Char) : Cut (Option Char) Segment :=
  match readAt n.atWord n.take before (c :: rest) with
  | some (name, behind) =>
    let spelling := (c :: rest).take (rest.length - behind.length + 1)
    ⟨.replaced spelling name, rest.length - behind.length, spelling.getLast?⟩
  | none => ⟨.kept [c], 0, some c⟩

/-- What a search keeps and replaces, from left to right. -/
def segments (text : List Char) : List Segment := Segment.join (pieces n.segmentRule none text)

end Numerator

/-- Where a fraction begins and ends: with a parenthesis, or with the letter of the differential and that of time. -/
structure IsFraction (text : List Char) : Prop where
  first : ∃ c rest, text = c :: rest ∧ (c = 'd' ∨ c = '(')
  last : ∃ front c, text = front ++ [c] ∧ (c = ')' ∨ c = 't' ∨ c = 'T')

theorem isFraction_derivative (name : List Char) : IsFraction (derivative name) where
  first := ⟨'d', name ++ ['/', 'd', 't'], rfl, .inl rfl⟩
  last := ⟨'d' :: name ++ ['/', 'd'], 't', by simp [derivative], .inr (.inl rfl)⟩

theorem suffix_of_takeTime {text rest : List Char} (h : takeTime (trimLeft text) = some rest) :
    ∃ c, (c = 't' ∨ c = 'T') ∧ c :: rest <:+ text := by
  cases htrim : trimLeft text with
  | nil =>
    rw [htrim] at h
    cases h
  | cons c more =>
    rw [htrim, takeTime_cons] at h
    split at h
    · rename_i hc
      cases h
      exact ⟨c, hc, htrim ▸ List.dropWhile_suffix _⟩
    · cases h

theorem last_of_takeOverTime {text rest : List Char} (h : takeOverTime text = some rest) :
    ∃ front c, text = front ++ c :: rest ∧ (c = ')' ∨ c = 't' ∨ c = 'T') := by
  have of_suffix {c : Char} (hc : c = ')' ∨ c = 't' ∨ c = 'T') (hsuffix : c :: rest <:+ text) :
      ∃ front c, text = front ++ c :: rest ∧ (c = ')' ∨ c = 't' ∨ c = 'T') :=
    hsuffix.elim fun front hfront => ⟨front, c, hfront.symm, hc⟩
  simp only [takeOverTime, Option.bind_eq_bind, Option.bind_eq_some_iff] at h
  obtain ⟨r₁, h₁, h₂⟩ := h
  have hline : trimLeft r₁ <:+ text := (List.dropWhile_suffix _).trans (expectSpaced_suffix h₁)
  cases hdenominator : trimLeft r₁ with
  | nil =>
    rw [hdenominator] at h₂
    cases h₂
  | cons d r₂ =>
    rw [hdenominator] at h₂ hline
    have hbehind : r₂ <:+ text := (List.suffix_cons ..).trans hline
    rw [takeDenominator_cons] at h₂
    split at h₂
    · simp only [Option.bind_eq_some_iff] at h₂
      obtain ⟨r₃, h₃, r₄, h₄, h₅⟩ := h₂
      obtain ⟨b, -, hclosing⟩ := eq_append_of_expectSpaced h₅
      obtain ⟨t, -, htime⟩ := suffix_of_takeTime h₄
      refine of_suffix (.inl rfl) ?_
      exact (hclosing ▸ List.suffix_append ..).trans <| (List.suffix_cons ..).trans <| htime.trans <|
        (expectSpaced_suffix h₃).trans hbehind
    · split at h₂
      · simp only [Option.bind_eq_some_iff] at h₂
        obtain ⟨r₃, h₃, h₄⟩ := h₂
        split at h₄
        · cases h₄
        · cases h₄
          obtain ⟨t, ht, htime⟩ := suffix_of_takeTime h₃
          exact of_suffix (.inr ht) (htime.trans hbehind)
      · cases h₂

/-- What is read as a derivative is a fraction. -/
theorem Numerator.isFraction {n : Numerator} {text name behind : List Char} (h : n.take text = some (name, behind)) :
    ∃ spelling, text = spelling ++ behind ∧ IsFraction spelling := by
  have of_parts {c : Char} {r₁ r₂ : List Char} (hc : c = 'd' ∨ c = '(') (hfirst : expect c text = some r₁)
      (hsuffix : r₂ <:+ r₁) (hlast : takeOverTime r₂ = some behind) :
      ∃ spelling, text = spelling ++ behind ∧ IsFraction spelling := by
    obtain ⟨front, d, rfl, hd⟩ := last_of_takeOverTime hlast
    obtain ⟨skipped, rfl⟩ := hsuffix
    refine ⟨c :: (skipped ++ front) ++ [d], by rw [eq_cons_of_expect hfirst]; simp, ⟨c, _, rfl, hc⟩, ⟨_, d, rfl, hd⟩⟩
  cases n with
  | wrapped =>
    simp only [take, takeWrapped, Option.bind_eq_bind, Option.bind_eq_some_iff] at h
    obtain ⟨r₁, h₁, r₂, h₂, ⟨found, r₃⟩, h₃, r₄, h₄, r₅, h₅, heq⟩ := h
    cases heq
    exact of_parts (.inr rfl) h₁ ((acceptSpaced_suffix ..).trans <| (expectSpaced_suffix h₄).trans <|
      (takeNameSpaced_suffix h₃).trans <| (acceptSpaced_suffix ..).trans (expectSpaced_suffix h₂)) h₅
  | applied =>
    simp only [take, takeApplied, Option.bind_eq_bind, Option.bind_eq_some_iff] at h
    obtain ⟨r₁, h₁, r₂, h₂, ⟨found, r₃⟩, h₃, r₄, h₄, r₅, h₅, heq⟩ := h
    cases heq
    exact of_parts (.inl rfl) h₁
      ((expectSpaced_suffix h₄).trans ((takeNameSpaced_suffix h₃).trans (expectSpaced_suffix h₂))) h₅
  | plain =>
    simp only [take, takePlain, Option.bind_eq_bind, Option.bind_eq_some_iff] at h
    obtain ⟨r₁, h₁, ⟨found, r₂⟩, h₂, r₃, h₃, heq⟩ := h
    cases heq
    exact of_parts (.inl rfl) h₁ (takeNameSpaced_suffix h₂) h₃

section
variable {n : Numerator} {before : Option Char} {c : Char} {text rest : List Char}

/-- A part is what stands at its place, and what stands in a text from a spelling on is the spelling and the rest. -/
theorem Numerator.segmentRule_cases (n : Numerator) (before : Option Char) (c : Char) (rest : List Char) :
    n.segmentRule before c rest = ⟨.kept [c], 0, some c⟩ ∨ ∃ spelling name,
      (n.segmentRule before c rest).value = .replaced spelling name ∧ IsFraction spelling ∧
        c :: rest = spelling ++ rest.drop (n.segmentRule before c rest).extra := by
  unfold segmentRule
  cases hread : readAt n.atWord n.take before (c :: rest) with
  | none => exact .inl rfl
  | some found =>
    obtain ⟨name, behind⟩ := found
    have htake : n.take (c :: rest) = some (name, behind) := by
      unfold readAt at hread
      split at hread
      · cases hread
      · exact hread
    obtain ⟨spelling, htext, hfraction⟩ := isFraction htake
    obtain ⟨d, more, hspelling, -⟩ := hfraction.first
    obtain ⟨hdrop, hregion, -⟩ := cut_append (hspelling ▸ List.cons_ne_nil d more) htext
    exact .inr ⟨spelling, name, by simp only [hregion], hfraction, by simp only [hdrop]; exact htext⟩

/-- The parts before they are joined: what is kept is not empty, what is replaced is a fraction, and together they are
the text. -/
theorem Numerator.pieces_segmentRule (n : Numerator) (before : Option Char) (text : List Char) :
    (∀ part, .kept part ∈ pieces n.segmentRule before text → part ≠ []) ∧
      (∀ spelling name, .replaced spelling name ∈ pieces n.segmentRule before text → IsFraction spelling) ∧
      (pieces n.segmentRule before text).flatMap Segment.read = text := by
  refine @pieces_induction _ _ n.segmentRule (fun before text =>
    (∀ part, .kept part ∈ pieces n.segmentRule before text → part ≠ []) ∧
      (∀ spelling name, .replaced spelling name ∈ pieces n.segmentRule before text → IsFraction spelling) ∧
      (pieces n.segmentRule before text).flatMap Segment.read = text) (fun _ => ⟨by simp, by simp, rfl⟩) ?_ before text
  rintro before c rest ⟨ihkept, ihreplaced, ihread⟩
  rw [pieces_cons]
  rcases n.segmentRule_cases before c rest with hkept | ⟨spelling, name, hvalue, hfraction, htext⟩
  · rw [hkept] at ihkept ihreplaced ihread ⊢
    refine ⟨fun part h => ?_, fun spelling name h => ?_, ?_⟩
    · rcases List.mem_cons.mp h with heq | h
      · rw [Segment.kept.inj heq]
        simp
      · exact ihkept part h
    · exact ihreplaced spelling name ((List.mem_cons.mp h).resolve_left (by simp))
    · rw [List.flatMap_cons, ihread]
      rfl
  · rw [hvalue]
    refine ⟨fun part h => ihkept part ((List.mem_cons.mp h).resolve_left (by simp)), fun spelling' name' h => ?_, ?_⟩
    · rcases List.mem_cons.mp h with heq | h
      · rw [(Segment.replaced.inj heq).1]
        exact hfraction
      · exact ihreplaced spelling' name' h
    · rw [List.flatMap_cons, ihread]
      exact htext.symm

theorem Numerator.pieces_written (n : Numerator) (before : Option Char) (text : List Char) :
    (pieces n.segmentRule before text).flatMap Segment.written =
      replaceFrom (derivativeFinder n.atWord n.take) before text := by
  refine @pieces_induction _ _ n.segmentRule (fun before text => (pieces n.segmentRule before text).flatMap Segment.written =
    replaceFrom (derivativeFinder n.atWord n.take) before text) (fun _ => rfl) ?_ before text
  intro before c rest ih
  rw [pieces_cons, List.flatMap_cons, replaceFrom, pieces_cons, List.flatten_cons]
  unfold segmentRule at ih ⊢
  unfold replaceRule
  rw [derivativeFinder_eq]
  cases hread : readAt n.atWord n.take before (c :: rest) with
  | none =>
    rw [hread] at ih
    exact congrArg ([c] ++ ·) ih
  | some found =>
    rw [hread] at ih
    exact congrArg (derivative found.1 ++ ·) ih

namespace Numerator

theorem flatMap_read (n : Numerator) (text : List Char) : (n.segments text).flatMap Segment.read = text :=
  (Segment.flatMap_join (fun _ => rfl) _).trans (n.pieces_segmentRule none text).2.2

theorem flatMap_written (n : Numerator) (text : List Char) : (n.segments text).flatMap Segment.written = n.rewrite text :=
  (Segment.flatMap_join (fun _ => rfl) _).trans (n.pieces_written none text)

theorem ne_nil_of_mem_segments {part : List Char} (h : .kept part ∈ n.segments text) : part ≠ [] :=
  Segment.ne_nil_of_mem_join (n.pieces_segmentRule none text).1 h

theorem isFraction_of_mem_segments {spelling name : List Char} (h : .replaced spelling name ∈ n.segments text) :
    IsFraction spelling :=
  (n.pieces_segmentRule none text).2.1 spelling name (Segment.mem_join_replaced h)

end Numerator

end

/-! ### Tokens of the parts -/

section
variable {text more : List Char}

theorem IsFraction.tokens_append (h : IsFraction text) (hname : more.head?.any isNameChar = false) :
    tokens (text ++ more) = tokens text ++ tokens more := by
  obtain ⟨front, c, rfl, hc⟩ := h.last
  refine tokens_append_of_last (fun d hd => ?_) ?_ hname front
  · obtain rfl := Option.some.inj hd
    rcases hc with rfl | rfl | rfl <;> decide
  · rcases hc with rfl | rfl | rfl <;> decide

theorem IsFraction.append_tokens (h : IsFraction text) (hname : endsInName (tokens more) = false) (behind : List Char) :
    tokens (more ++ (text ++ behind)) = tokens more ++ tokens (text ++ behind) := by
  obtain ⟨c, rest, rfl, hc⟩ := h.first
  refine tokens_append_of_head (fun d hd => ?_) ?_ fun f hf => ?_
  · obtain rfl := Option.some.inj hd
    rcases hc with rfl | rfl <;> decide
  · rw [List.cons_append, List.head?_cons, Option.any_some]
    rcases hc with rfl | rfl <;> decide
  · rw [endsInName, hf] at hname
    cases hname

variable {side : Segment → List Char} {segments : List Segment}

/-- The tokens of parts that are not glued are those of each, in the searched text as in the new one. -/
theorem tokens_flatMap (hkept : ∀ text, side (.kept text) = text)
    (hfraction : ∀ spelling name, .replaced spelling name ∈ segments → IsFraction (side (.replaced spelling name)))
    (hne : ∀ text, .kept text ∈ segments → text ≠ []) (hchain : segments.IsChain Segment.Unglued) :
    tokens (segments.flatMap side) = segments.flatMap fun segment => tokens (side segment) := by
  induction segments with
  | nil => rfl
  | cons first rest ih =>
    obtain ⟨hfirst, hrest⟩ := List.isChain_cons.mp hchain
    have htokens := ih (fun spelling name h => hfraction spelling name (List.mem_cons_of_mem _ h))
      (fun text h => hne text (List.mem_cons_of_mem _ h)) hrest
    rw [List.flatMap_cons, List.flatMap_cons, ← htokens]
    cases rest with
    | nil => rw [List.flatMap_nil, List.append_nil, show tokens [] = [] from rfl, List.append_nil]
    | cons second behind =>
      have hbeside : first.Unglued second := hfirst second rfl
      rw [List.flatMap_cons]
      cases first with
      | kept text =>
        cases second with
        | kept => exact hbeside.elim
        | replaced spelling name =>
          rw [hkept]
          exact (hfraction spelling name (by simp)).append_tokens hbeside _
      | replaced spelling name =>
        cases second with
        | replaced => exact hbeside.elim
        | kept text =>
          obtain ⟨c, text, rfl⟩ := List.exists_cons_of_ne_nil (hne text (by simp))
          rw [hkept]
          exact (hfraction spelling name (by simp)).tokens_append hbeside

theorem textOf_flatMap_tokens (segments : List Segment) :
    textOf (segments.flatMap fun segment => tokens segment.written) = segments.flatMap Segment.written := by
  rw [textOf, List.flatMap_assoc]
  exact List.flatMap_congr fun segment _ => textOf_tokens segment.written

/-- The last token of a derivative is the differential of time. -/
theorem tokens_derivative_last (name : List Char) : ∃ front, tokens (derivative name) = front ++ [.name ['d', 't']] := by
  have hline : tokens (('d' :: name) ++ ['/', 'd', 't']) = tokens ('d' :: name) ++ tokens ['/', 'd', 't'] := by
    refine tokens_append_of_head (fun c hc => ?_) (by decide) fun _ _ => (by decide)
    obtain rfl := Option.some.inj hc
    decide
  refine ⟨tokens ('d' :: name) ++ [.symbol '/'], ?_⟩
  rw [derivative, hline, show tokens ['/', 'd', 't'] = [.symbol '/', .name ['d', 't']] by decide +kernel, List.append_assoc]
  rfl

/-- If the tokens of the new text are those of its parts, the parts are not glued: no name ends before a character that
goes on with it. -/
theorem unglued_of_tokens (hjoined : segments.IsChain fun left right => left.isKept = true → right.isKept = false)
    (htokens : tokens (segments.flatMap Segment.written) = segments.flatMap fun segment => tokens segment.written) :
    segments.IsChain Segment.Unglued := by
  rw [List.isChain_iff_forall_rel_of_append_cons_cons] at hjoined ⊢
  intro left right before behind heq
  have hapart := hjoined heq
  rw [heq, List.flatMap_append, List.flatMap_append, List.flatMap_cons, List.flatMap_cons, List.flatMap_cons,
    List.flatMap_cons] at htokens
  -- A name at the end of the left part is followed by the text of the right one.
  have hname {front : List Token} {f : List Char} (hleft : tokens left.written = front ++ [.name f]) :
      (right.written ++ behind.flatMap Segment.written).head?.any isNameChar = false := by
    have hsplit : tokens (before.flatMap Segment.written ++
        (left.written ++ (right.written ++ behind.flatMap Segment.written))) =
          (before.flatMap (fun segment => tokens segment.written) ++ front) ++
            .name f :: (tokens right.written ++ behind.flatMap fun segment => tokens segment.written) := by
      rw [htokens, hleft]
      simp
    have hends := head_behind_name _ hsplit
    rw [textOf, List.flatMap_append, ← textOf, textOf_tokens, ← textOf, textOf_flatMap_tokens] at hends
    exact hends
  have hderivative {name : List Char} (more : List Char) : (derivative name ++ more).head?.any isNameChar = true :=
    (by decide +kernel : isNameChar 'd' = true)
  cases left with
  | kept text =>
    cases right with
    | kept more => exact absurd (hapart rfl) (by simp [Segment.isKept])
    | replaced spelling name =>
      refine Bool.eq_false_iff.mpr fun hlast => ?_
      obtain ⟨front, f, hfront⟩ := exists_name_of_endsInName hlast
      have hends := hname hfront
      rw [show (Segment.replaced spelling name).written = derivative name from rfl, hderivative] at hends
      cases hends
  | replaced spelling name =>
    obtain ⟨front, hfront⟩ := tokens_derivative_last name
    have hends := hname hfront
    cases right with
    | kept more =>
      cases more with
      | nil => rfl
      | cons c more => exact hends
    | replaced spelling' name' =>
      rw [show (Segment.replaced spelling' name').written = derivative name' from rfl, hderivative] at hends
      cases hends

end

/-! ### Derivatives that stay apart -/

namespace Numerator
variable {n : Numerator} {text : List Char} {token : Token}

theorem tokens_of_unglued (h : (n.segments text).IsChain Segment.Unglued) :
    tokens text = (n.segments text).flatMap fun segment => tokens segment.read := by
  have htokens := @tokens_flatMap Segment.read _ (fun _ => rfl)
    (fun _ _ h => isFraction_of_mem_segments h) (fun _ h => ne_nil_of_mem_segments h) h
  rwa [n.flatMap_read text] at htokens

theorem tokens_rewrite_iff : tokens (n.rewrite text) = (n.segments text).flatMap (fun segment => tokens segment.written) ↔
    (n.segments text).IsChain Segment.Unglued := by
  rw [← n.flatMap_written text]
  exact ⟨unglued_of_tokens (Segment.isChain_join _), tokens_flatMap (fun _ => rfl)
    (fun _ name _ => isFraction_derivative name) (fun _ h => ne_nil_of_mem_segments h)⟩

/-- A token stays one, or is of a spelling that is replaced. -/
theorem mem_tokens_rewrite (h : (n.segments text).IsChain Segment.Unglued) (htoken : token ∈ tokens text) :
    token ∈ tokens (n.rewrite text) ∨
      ∃ spelling name, .replaced spelling name ∈ n.segments text ∧ token ∈ tokens spelling := by
  rw [tokens_of_unglued h] at htoken
  obtain ⟨segment, hsegment, hread⟩ := List.mem_flatMap.mp htoken
  cases segment with
  | kept text =>
    rw [tokens_rewrite_iff.mpr h]
    exact .inl (List.mem_flatMap.mpr ⟨_, hsegment, hread⟩)
  | replaced spelling name => exact .inr ⟨spelling, name, hsegment, hread⟩

end Numerator

/-- A derivative in its one form is apart from its neighbours exactly where no name meets it: canonical notation is one
search for derivatives after the other and then the search for logarithms, and for each search the tokens of its result
are those of what is kept and written if and only if nothing is glued. Then the tokens of what is kept are those that
stand there in the searched text; so if nothing is glued in any of the three, and there is no logarithm to rewrite, every
token of the equation is one of its canonical notation or of a spelling that was replaced. -/
theorem canonicalize_unglued (equation : String) :
    plainText equation.toList = Numerator.plain.rewrite (Numerator.applied.rewrite
      (Numerator.wrapped.rewrite (plainMinus equation.toList))) ∧
    canonicalize equation = String.ofList (plainLogarithms (plainText equation.toList)) ∧
    (NoneLogarithm none (plainText equation.toList) → canonicalize equation = String.ofList (plainText equation.toList)) ∧
    (∀ (n : Numerator) (text : List Char),
      (n.segments text).flatMap Segment.read = text ∧ (n.segments text).flatMap Segment.written = n.rewrite text ∧
      (tokens (n.rewrite text) = (n.segments text).flatMap (fun segment => tokens segment.written) ↔
        (n.segments text).IsChain Segment.Unglued) ∧
      ((n.segments text).IsChain Segment.Unglued →
        tokens text = (n.segments text).flatMap fun segment => tokens segment.read)) ∧
    ((∀ n : Numerator, (n.segments (n.searched (plainMinus equation.toList))).IsChain Segment.Unglued) →
      NoneLogarithm none (plainText equation.toList) →
      ∀ token ∈ tokens (plainMinus equation.toList), token ∈ tokens (canonicalize equation).toList ∨
        ∃ n : Numerator, ∃ spelling name,
          .replaced spelling name ∈ n.segments (n.searched (plainMinus equation.toList)) ∧ token ∈ tokens spelling) := by
  have hplain (hnone : NoneLogarithm none (plainText equation.toList)) :
      canonicalize equation = String.ofList (plainText equation.toList) :=
    congrArg String.ofList (plainLogarithmsFrom_eq_self none none _ (fun _ => rfl) hnone)
  refine ⟨rfl, rfl, hplain, fun n text => ⟨n.flatMap_read text, n.flatMap_written text, Numerator.tokens_rewrite_iff,
    Numerator.tokens_of_unglued⟩, fun hchain hnone token htoken => ?_⟩
  rw [hplain hnone, String.toList_ofList]
  rcases Numerator.mem_tokens_rewrite (hchain .wrapped) htoken with hwrapped | hspelling
  · rcases Numerator.mem_tokens_rewrite (hchain .applied) hwrapped with happlied | hspelling
    · rcases Numerator.mem_tokens_rewrite (hchain .plain) happlied with hkept | hspelling
      · exact .inl hkept
      · exact .inr ⟨.plain, hspelling⟩
    · exact .inr ⟨.applied, hspelling⟩
  · exact .inr ⟨.wrapped, hspelling⟩

/-- For one with a number before the derivative and a product behind it. -/
theorem canonicalize_unglued_product :
    NoneLogarithm none (plainText "2(d x)/dt*sin(y)".toList) ∧ canonicalize "2(d x)/dt*sin(y)" = "2dx/dt*sin(y)" ∧
      (∀ n : Numerator,
        (n.segments (n.searched (plainMinus "2(d x)/dt*sin(y)".toList))).IsChain Segment.Unglued) ∧
      tokens "2dx/dt*sin(y)".toList = [.number ['2']] ++ tokens "dx/dt".toList ++ tokens "*sin(y)".toList ∧
      (.name "sin".toList ∈ tokens (canonicalize "2(d x)/dt*sin(y)").toList ∨ ∃ n : Numerator, ∃ spelling name,
        .replaced spelling name ∈ n.segments (n.searched (plainMinus "2(d x)/dt*sin(y)".toList)) ∧
          .name "sin".toList ∈ tokens spelling) := by
  obtain ⟨-, -, hcanonical, hsegments, hmem⟩ := canonicalize_unglued "2(d x)/dt*sin(y)"
  obtain ⟨-, -, htokens, -⟩ := hsegments .wrapped "2(d x)/dt*sin(y)".toList
  have hnone : NoneLogarithm none (plainText "2(d x)/dt*sin(y)".toList) := by decide +kernel
  have hchain (n : Numerator) :
      (n.segments (n.searched (plainMinus "2(d x)/dt*sin(y)".toList))).IsChain Segment.Unglued := by
    cases n <;> decide +kernel
  refine ⟨hnone, ?_, hchain, ?_, hmem hchain hnone (.name "sin".toList) (by decide +kernel)⟩
  · rw [hcanonical hnone]
    decide +kernel
  · exact (by decide +kernel : "2dx/dt*sin(y)".toList = Numerator.wrapped.rewrite "2(d x)/dt*sin(y)".toList) ▸
      (htokens.mpr (by decide +kernel)).trans (by decide +kernel)

/-- Without the parentheses a function runs into the derivative behind it, and the differential of time into the factor
behind it. -/
theorem canonicalize_glued :
    canonicalize "sin(dx)/dt" = "sindx/dt" ∧ .name "sin".toList ∈ tokens "sin(dx)/dt".toList ∧
      .name "sin".toList ∉ tokens "sindx/dt".toList ∧
    canonicalize "dx/(dt)y" = "dx/dty" ∧ .name ['y'] ∈ tokens "dx/(dt)y".toList ∧ .name ['y'] ∉ tokens "dx/dty".toList ∧
    ¬ ∀ (n : Numerator) (text : List Char),
      tokens (n.rewrite text) = (n.segments text).flatMap fun segment => tokens segment.written := by
  refine ⟨by decide +kernel, by decide +kernel, by decide +kernel, by decide +kernel, by decide +kernel,
    by decide +kernel, fun apart => ?_⟩
  have glued : tokens (Numerator.wrapped.rewrite "sin(dx)/dt".toList) ≠
      (Numerator.wrapped.segments "sin(dx)/dt".toList).flatMap fun segment => tokens segment.written := by
    decide +kernel
  exact glued (apart _ _)

end OdeSystem.Notation
