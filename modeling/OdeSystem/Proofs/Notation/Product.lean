import Mathlib.Data.List.Basic
import OdeSystem.Notation.Product
import OdeSystem.Proofs.Notation.Canonical
import OdeSystem.Proofs.Notation.Token

/-!
Normal forms of the sides of an equation. No product reaches over a sign of equality, and blanks around a text come
to nothing; so the normal form of an equation is that of its sides, and it does not matter how these are padded.
-/

namespace OdeSystem.Notation

open Text

variable {isFunction : String → Bool}

/-! ### Functions before operands -/

/-- Whether a token is an operand without parentheses. -/
def Token.isOperand : Token → Bool
  | name _ | number _ => true
  | _ => false

/-- A function that is applied to an operand without parentheses: the two in a row, with a run of blanks between. -/
def SpacedIn (isFunction : String → Bool) (tokens : List Token) : Prop :=
  ∃ f blanks operand, [.name f, .space blanks, operand] <:+: tokens ∧ operand.isOperand = true ∧
    isFunction (String.ofList f) = true

/-- Such a function is found wherever there is one. -/
theorem isSome_findSpacedFunction_iff {tokens : List Token} :
    (findSpacedFunction isFunction tokens).isSome = true ↔ SpacedIn isFunction tokens := by
  fun_induction findSpacedFunction isFunction tokens with
  | case1 f blanks operand rest isOperand h =>
    have hoperand : isOperand = operand.isOperand := by cases operand <;> rfl
    rw [hoperand, Bool.and_eq_true] at h
    exact iff_of_true rfl ⟨f, blanks, operand, ⟨[], rest, rfl⟩, h.1, h.2⟩
  | case2 f blanks operand rest isOperand h ih =>
    have hoperand : isOperand = operand.isOperand := by cases operand <;> rfl
    rw [hoperand, Bool.and_eq_true] at h
    refine ih.trans ⟨fun ⟨f', blanks', operand', hin, hrest⟩ => ⟨f', blanks', operand', ?_, hrest⟩,
      fun ⟨f', blanks', operand', hin, hrest⟩ => ⟨f', blanks', operand', ?_, hrest⟩⟩
    · exact List.infix_cons hin
    · refine (List.infix_cons_iff.mp hin).resolve_left fun ⟨after, heq⟩ => ?_
      cases heq
      exact h hrest
  | case3 token rest h ih =>
    refine ih.trans ⟨fun ⟨f', blanks', operand', hin, hrest⟩ => ⟨f', blanks', operand', ?_, hrest⟩,
      fun ⟨f', blanks', operand', hin, hrest⟩ => ⟨f', blanks', operand', ?_, hrest⟩⟩
    · exact List.infix_cons hin
    · refine (List.infix_cons_iff.mp hin).resolve_left fun ⟨after, heq⟩ => ?_
      cases heq
      exact h f' blanks' operand' after rfl rfl
  | case4 => exact iff_of_false (by simp) fun ⟨_, _, _, hin, _⟩ => by simp at hin

/-- What stands in a row does so on one side of what is no part of it. -/
theorem infix_of_infix_append_cons {α : Type} {l a b : List α} {x : α} (hx : x ∉ l) (h : l <:+: a ++ x :: b) :
    l <:+: a ∨ l <:+: b := by
  induction a with
  | nil =>
    rcases List.infix_cons_iff.mp h with ⟨after, heq⟩ | h
    · cases l with
      | nil => exact .inl (List.infix_refl _)
      | cons y l =>
        obtain rfl := (List.cons.inj heq).1
        exact absurd (List.mem_cons_self ..) hx
    · exact .inr h
  | cons c a ih =>
    rcases List.infix_cons_iff.mp h with hprefix | h
    · rcases Nat.lt_or_ge (c :: a).length l.length with hlt | hge
      · have hinner : (c :: a) ++ [x] <+: l := by
          refine List.prefix_of_prefix_length_le ⟨b, ?_⟩ hprefix (by simpa using Nat.succ_le_of_lt hlt)
          simp
        exact absurd (hinner.subset (List.mem_append_right _ (List.mem_singleton_self x))) hx
      · exact .inl (List.prefix_of_prefix_length_le hprefix ⟨x :: b, rfl⟩ hge).isInfix
    · exact (ih h).imp (fun h => List.infix_cons h) id

theorem spacedIn_append_symbol {left right : List Token} (c : Char) :
    SpacedIn isFunction (left ++ .symbol c :: right) ↔ SpacedIn isFunction left ∨ SpacedIn isFunction right := by
  constructor
  · rintro ⟨f, blanks, operand, hin, hoperand, hfunction⟩
    have hnot : .symbol c ∉ [Token.name f, .space blanks, operand] := by
      cases operand <;> simp_all [Token.isOperand]
    exact (infix_of_infix_append_cons hnot hin).imp (fun h => ⟨f, blanks, operand, h, hoperand, hfunction⟩)
      fun h => ⟨f, blanks, operand, h, hoperand, hfunction⟩
  · rintro (⟨f, blanks, operand, hin, hrest⟩ | ⟨f, blanks, operand, hin, hrest⟩)
    · exact ⟨f, blanks, operand, List.infix_append_of_infix_left hin, hrest⟩
    · exact ⟨f, blanks, operand, List.infix_append_of_infix_right (List.infix_cons hin), hrest⟩

theorem spacedIn_append_spaces {front last : List Token} (hlast : ∀ token ∈ last, token.isSpace = true) :
    SpacedIn isFunction (front ++ last) ↔ SpacedIn isFunction front := by
  constructor
  · rintro ⟨f, blanks, operand, ⟨before, after, heq⟩, hoperand, hfunction⟩
    refine ⟨f, blanks, operand, ?_, hoperand, hfunction⟩
    rcases List.append_eq_append_iff.mp heq with ⟨middle, rfl, -⟩ | ⟨middle, hfront, rfl⟩
    · exact ⟨before, middle, rfl⟩
    · -- The operand is no run of blanks, so it stands in the front.
      rcases List.eq_nil_or_concat middle with rfl | ⟨inner, token, rfl⟩
      · exact ⟨before, [], by simpa using hfront⟩
      · have htoken : operand = token := by
          have := congrArg List.getLast? hfront
          simpa using this
        have := hlast token (by simp)
        rw [← htoken] at this
        cases operand <;> simp_all [Token.isOperand, Token.isSpace]
  · rintro ⟨f, blanks, operand, hin, hrest⟩
    exact ⟨f, blanks, operand, List.infix_append_of_infix_left hin, hrest⟩

theorem spacedIn_spaces_append {first rest : List Token} (hfirst : ∀ token ∈ first, token.isSpace = true) :
    SpacedIn isFunction (first ++ rest) ↔ SpacedIn isFunction rest := by
  constructor
  · rintro ⟨f, blanks, operand, hin, hspaced⟩
    refine ⟨f, blanks, operand, ?_, hspaced⟩
    induction first with
    | nil => exact hin
    | cons token first ih =>
      rcases List.infix_cons_iff.mp hin with ⟨after, heq⟩ | hin
      · obtain rfl := (List.cons.inj heq).1
        exact absurd (hfirst _ (List.mem_cons_self ..)) (by simp [Token.isSpace])
      · exact ih (fun token htoken => hfirst token (List.mem_cons_of_mem _ htoken)) hin
  · rintro ⟨f, blanks, operand, hin, hrest⟩
    exact ⟨f, blanks, operand, List.infix_append_of_infix_right hin, hrest⟩

/-! ### Products -/

/-- Whether runs of blanks hold blanks only, as those of a text do. -/
def Blanked (tokens : List Token) : Prop := ∀ token ∈ tokens, token.isSpace = true → allBlank token.text = true

theorem blanked_tokens (text : List Char) : Blanked (tokens text) := fun _ => allBlank_of_isSpace

/-- Of the symbols only an opening parenthesis begins a factor. -/
theorem areFactors_symbol_right {c : Char} (hc : c ≠ '(') (spaced : Bool) (token : Token) :
    areFactors isFunction spaced token (.symbol c) = false := by
  unfold areFactors
  split <;> simp_all

/-- Of the symbols only a closing parenthesis ends a factor. -/
theorem areFactors_symbol_left {c : Char} (hc : c ≠ ')') (spaced : Bool) (token : Token) :
    areFactors isFunction spaced (.symbol c) token = false := by
  unfold areFactors
  split <;> simp_all

theorem writeProducts_nil (previous : Option Token) (blanks : Option (List Char)) :
    writeProducts isFunction previous blanks [] = blanks.getD [] := rfl

theorem writeProducts_cons_space {token : Token} (h : token.isSpace = true) (previous : Option Token)
    (blanks : Option (List Char)) (rest : List Token) :
    writeProducts isFunction previous blanks (token :: rest) =
      writeProducts isFunction previous (some token.text) rest := by
  rw [writeProducts, if_pos h]

theorem writeProducts_cons_ink {token : Token} (h : token.isSpace = false) (previous : Option Token)
    (blanks : Option (List Char)) (rest : List Token) :
    writeProducts isFunction previous blanks (token :: rest) =
      (if previous.any fun p => areFactors isFunction blanks.isSome p token then ['*'] else blanks.getD []) ++
        token.text ++ writeProducts isFunction (some token) none rest := by
  rw [writeProducts, if_neg (by simp [h])]

theorem writeProducts_behind_symbol {c : Char} (hc : c ≠ ')') (blanks : Option (List Char)) (tokens : List Token) :
    writeProducts isFunction (some (.symbol c)) blanks tokens = writeProducts isFunction none blanks tokens := by
  induction tokens generalizing blanks with
  | nil => rfl
  | cons token rest ih =>
    cases htoken : token.isSpace with
    | true => rw [writeProducts_cons_space htoken, writeProducts_cons_space htoken, ih]
    | false =>
      rw [writeProducts_cons_ink htoken, writeProducts_cons_ink htoken]
      simp [areFactors_symbol_left hc]

/-- Products before a symbol that begins no factor are written apart from those behind it. -/
theorem writeProducts_append_symbol {c : Char} (hc : c ≠ '(') (previous : Option Token)
    (blanks : Option (List Char)) (left right : List Token) :
    writeProducts isFunction previous blanks (left ++ .symbol c :: right) =
      writeProducts isFunction previous blanks left ++ c :: writeProducts isFunction (some (.symbol c)) none right := by
  induction left generalizing previous blanks with
  | nil =>
    have hfactors : (previous.any fun p => areFactors isFunction blanks.isSome p (.symbol c)) = false := by
      cases previous <;> simp [areFactors_symbol_right hc]
    rw [List.nil_append, writeProducts_cons_ink rfl, hfactors, writeProducts_nil]
    simp [Token.text]
  | cons token rest ih =>
    cases htoken : token.isSpace with
    | true => rw [List.cons_append, writeProducts_cons_space htoken, writeProducts_cons_space htoken, ih]
    | false =>
      rw [List.cons_append, writeProducts_cons_ink htoken, writeProducts_cons_ink htoken, ih]
      simp only [List.append_assoc]

theorem strip_writeProducts_spaces {previous : Option Token} {blanks : Option (List Char)} {tokens : List Token}
    (hblanks : allBlank (blanks.getD []) = true) (blanked : Blanked tokens)
    (hspaces : ∀ token ∈ tokens, token.isSpace = true) :
    strip (writeProducts isFunction previous blanks tokens) = [] := by
  induction tokens generalizing blanks with
  | nil => exact strip_eq_nil_of_allBlank hblanks
  | cons token rest ih =>
    have htoken := hspaces token (List.mem_cons_self ..)
    rw [writeProducts_cons_space htoken]
    exact ih (blanked token (List.mem_cons_self ..) htoken) (fun t ht => blanked t (List.mem_cons_of_mem _ ht))
      fun t ht => hspaces t (List.mem_cons_of_mem _ ht)

theorem strip_writeProducts_append_spaces {previous : Option Token} {blanks : Option (List Char)}
    {front last : List Token} (hblanks : allBlank (blanks.getD []) = true) (blanked : Blanked (front ++ last))
    (hspaces : ∀ token ∈ last, token.isSpace = true) :
    strip (writeProducts isFunction previous blanks (front ++ last)) =
      strip (writeProducts isFunction previous blanks front) := by
  induction front generalizing previous blanks with
  | nil =>
    rw [writeProducts_nil, strip_eq_nil_of_allBlank hblanks]
    exact strip_writeProducts_spaces hblanks blanked hspaces
  | cons token rest ih =>
    have hrest : Blanked (rest ++ last) := fun t ht => blanked t (List.mem_cons_of_mem _ ht)
    cases htoken : token.isSpace with
    | true =>
      rw [List.cons_append, writeProducts_cons_space htoken, writeProducts_cons_space htoken]
      exact ih (blanked token (List.mem_cons_self ..) htoken) hrest
    | false =>
      have hbehind := @ih (some token) none rfl hrest
      rw [List.cons_append, writeProducts_cons_ink htoken, writeProducts_cons_ink htoken]
      simp only [strip_append, hbehind]

theorem strip_writeProducts_spaces_append {blanks : Option (List Char)} {first rest : List Token}
    (hblanks : allBlank (blanks.getD []) = true) (blanked : Blanked first)
    (hspaces : ∀ token ∈ first, token.isSpace = true) :
    strip (writeProducts isFunction none blanks (first ++ rest)) =
      strip (writeProducts isFunction none none rest) := by
  induction first generalizing blanks with
  | nil =>
    have hnone : strip (blanks.getD []) = [] := strip_eq_nil_of_allBlank hblanks
    cases rest with
    | nil => exact hnone
    | cons token rest =>
      cases htoken : token.isSpace with
      | true => rw [List.nil_append, writeProducts_cons_space htoken, writeProducts_cons_space htoken]
      | false =>
        rw [List.nil_append, writeProducts_cons_ink htoken, writeProducts_cons_ink htoken]
        simp [hnone]
  | cons token first ih =>
    have htoken := hspaces token (List.mem_cons_self ..)
    rw [List.cons_append, writeProducts_cons_space htoken]
    exact ih (blanked token (List.mem_cons_self ..) htoken) (fun t ht => blanked t (List.mem_cons_of_mem _ ht))
      fun t ht => hspaces t (List.mem_cons_of_mem _ ht)

/-! ### Normal forms -/

/-- Whether a function is applied without parentheses in a text. -/
def SpacedInText (isFunction : String → Bool) (text : List Char) : Prop :=
  SpacedIn isFunction (tokens (canonicalText text))

/-- The normal form of an equation is that of its sides, unless a group reaches from one into the other. -/
theorem normalText_equation {left right : List Char} (apart : '(' ∉ plainText left ∨ ')' ∉ plainText right) :
    normalText isFunction (left ++ '=' :: right) =
      normalText isFunction left ++ '=' :: normalText isFunction right := by
  rw [normalText, canonicalText_equation apart, insertStars, tokens_delimiter rfl,
    writeProducts_append_symbol (by decide), writeProducts_behind_symbol (by decide), strip_append]
  rfl

theorem spacedInText_equation {left right : List Char} (apart : '(' ∉ plainText left ∨ ')' ∉ plainText right) :
    SpacedInText isFunction (left ++ '=' :: right) ↔
      SpacedInText isFunction left ∨ SpacedInText isFunction right := by
  rw [SpacedInText, canonicalText_equation apart, tokens_delimiter rfl, spacedIn_append_symbol]
  rfl

/-- Blanks around a text come to runs of blanks around its tokens. -/
theorem tokens_padded {leading trailing : List Char} (hleading : allBlank leading = true)
    (htrailing : allBlank trailing = true) (text : List Char) :
    ∃ first first' middle last last', tokens text = first ++ (middle ++ last) ∧
      tokens (leading ++ text ++ trailing) = first' ++ (middle ++ last') ∧
      (∀ token ∈ first ++ first', token.isSpace = true) ∧ ∀ token ∈ last ++ last', token.isSpace = true := by
  obtain ⟨first, hfirst, hspaces⟩ := tokens_trimLeft text
  obtain ⟨first', hfirst', hspaces'⟩ := tokens_trimLeft (leading ++ text ++ trailing)
  rw [List.append_assoc, trimLeft_append_of_eq_nil (trimLeft_eq_nil_iff.mpr hleading)] at hfirst'
  by_cases hblank : trimLeft text = []
  · have hnone : trimLeft (text ++ trailing) = [] := by
      rw [trimLeft_append_of_eq_nil hblank, trimLeft_eq_nil_iff.mpr htrailing]
    refine ⟨first, first', [], [], [], by rw [hfirst, hblank]; rfl,
      by rw [List.append_assoc, hfirst', hnone]; rfl, ?_, by simp⟩
    simpa [or_imp, forall_and] using And.intro hspaces hspaces'
  · obtain ⟨middle, last, last', hmiddle, hmiddle', hlast, hlast'⟩ :=
      tokens_append_blanks htrailing (trimLeft text)
    refine ⟨first, first', middle, last, last', by rw [hfirst, hmiddle], ?_, ?_, ?_⟩
    · rw [List.append_assoc, hfirst', trimLeft_append_of_ne_nil hblank, hmiddle']
    · simpa [or_imp, forall_and] using And.intro hspaces hspaces'
    · simpa [or_imp, forall_and] using And.intro hlast hlast'

section
variable {leading trailing : List Char}

/-- Blanks around a text do not show in its normal form. -/
theorem normalText_padded (hleading : allBlank leading = true) (htrailing : allBlank trailing = true)
    (text : List Char) : normalText isFunction (leading ++ text ++ trailing) = normalText isFunction text := by
  obtain ⟨first, first', middle, last, last', htext, hpadded, hfirst, hlast⟩ :=
    tokens_padded hleading htrailing (canonicalText text)
  have core {first last : List Token} (blanked : Blanked (first ++ (middle ++ last)))
      (hfirst : ∀ token ∈ first, token.isSpace = true) (hlast : ∀ token ∈ last, token.isSpace = true) :
      strip (writeProducts isFunction none none (first ++ (middle ++ last))) =
        strip (writeProducts isFunction none none middle) := by
    rw [strip_writeProducts_spaces_append rfl (fun t ht => blanked t (List.mem_append_left _ ht)) hfirst,
      strip_writeProducts_append_spaces rfl (fun t ht => blanked t (List.mem_append_right _ ht)) hlast]
  have hblanked := blanked_tokens (canonicalText text)
  have hblanked' := blanked_tokens (leading ++ canonicalText text ++ trailing)
  rw [htext] at hblanked
  rw [hpadded] at hblanked'
  rw [normalText, normalText, insertStars, insertStars, canonicalText_padded hleading htrailing, hpadded, htext,
    core hblanked (fun t ht => hfirst t (List.mem_append_left _ ht))
      fun t ht => hlast t (List.mem_append_left _ ht),
    core hblanked' (fun t ht => hfirst t (List.mem_append_right _ ht))
      fun t ht => hlast t (List.mem_append_right _ ht)]

theorem spacedInText_padded (hleading : allBlank leading = true) (htrailing : allBlank trailing = true)
    (text : List Char) : SpacedInText isFunction (leading ++ text ++ trailing) ↔ SpacedInText isFunction text := by
  obtain ⟨first, first', middle, last, last', htext, hpadded, hfirst, hlast⟩ :=
    tokens_padded hleading htrailing (canonicalText text)
  have core {first last : List Token} (hfirst : ∀ token ∈ first, token.isSpace = true)
      (hlast : ∀ token ∈ last, token.isSpace = true) :
      SpacedIn isFunction (first ++ (middle ++ last)) ↔ SpacedIn isFunction middle :=
    (spacedIn_spaces_append hfirst).trans (spacedIn_append_spaces hlast)
  rw [SpacedInText, SpacedInText, canonicalText_padded hleading htrailing, hpadded, htext,
    core (fun t ht => hfirst t (List.mem_append_left _ ht)) fun t ht => hlast t (List.mem_append_left _ ht),
    core (fun t ht => hfirst t (List.mem_append_right _ ht)) fun t ht => hlast t (List.mem_append_right _ ht)]

/-- Texts in which the reading of an equation finds the same: they have one normal form, and in both or in neither a
function is applied without parentheses. -/
structure Alike (isFunction : String → Bool) (text text' : List Char) : Prop where
  normal : normalText isFunction text = normalText isFunction text'
  spaced : SpacedInText isFunction text ↔ SpacedInText isFunction text'

theorem Alike.refl (text : List Char) : Alike isFunction text text := ⟨rfl, Iff.rfl⟩

theorem Alike.symm {text text' : List Char} (h : Alike isFunction text text') : Alike isFunction text' text :=
  ⟨h.normal.symm, h.spaced.symm⟩

theorem Alike.trans {text text' text'' : List Char} (h : Alike isFunction text text')
    (h' : Alike isFunction text' text'') : Alike isFunction text text'' :=
  ⟨h.normal.trans h'.normal, h.spaced.trans h'.spaced⟩

theorem alike_padded (hleading : allBlank leading = true) (htrailing : allBlank trailing = true) (text : List Char) :
    Alike isFunction (leading ++ text ++ trailing) text :=
  ⟨normalText_padded hleading htrailing text, spacedInText_padded hleading htrailing text⟩

theorem alike_trim (text : List Char) : Alike isFunction (trim text) text := by
  obtain ⟨leading, trailing, hleading, htrailing, htext⟩ := exists_blanks_append_trim text
  have hpadded : Alike isFunction (leading ++ trim text ++ trailing) (trim text) :=
    alike_padded hleading htrailing (trim text)
  rw [← htext] at hpadded
  exact hpadded.symm

theorem alike_blank_cons (text : List Char) : Alike isFunction (' ' :: text) text := by
  have h : Alike isFunction ([' '] ++ text ++ []) text := alike_padded (by decide) rfl text
  rwa [List.append_nil, List.singleton_append] at h

theorem alike_append_blank (text : List Char) : Alike isFunction (text ++ [' ']) text := by
  have h : Alike isFunction ([] ++ text ++ [' ']) text := alike_padded rfl (by decide) text
  rwa [List.nil_append] at h

end

/-- Writing products brings no other characters than stars. -/
theorem mem_writeProducts {previous : Option Token} {blanks : Option (List Char)} {tokens : List Token} {c : Char}
    (h : c ∈ writeProducts isFunction previous blanks tokens) :
    c = '*' ∨ c ∈ blanks.getD [] ∨ c ∈ textOf tokens := by
  induction tokens generalizing previous blanks with
  | nil => exact .inr (.inl h)
  | cons token rest ih =>
    rw [textOf_cons, List.mem_append]
    cases htoken : token.isSpace with
    | true =>
      rw [writeProducts_cons_space htoken] at h
      rcases ih h with hstar | hblanks | hrest
      · exact .inl hstar
      · exact .inr (.inr (.inl hblanks))
      · exact .inr (.inr (.inr hrest))
    | false =>
      rw [writeProducts_cons_ink htoken, List.mem_append, List.mem_append] at h
      rcases h with (hbetween | htext) | hrest
      · split at hbetween
        · exact .inl (List.mem_singleton.mp hbetween)
        · exact .inr (.inl hbetween)
      · exact .inr (.inr (.inl htext))
      · rcases ih hrest with hstar | hblanks | hrest
        · exact .inl hstar
        · cases hblanks
        · exact .inr (.inr (.inr hrest))

theorem mem_normalText {text : List Char} {c : Char} (h : c ∈ normalText isFunction text) :
    c = '*' ∨ c ∈ canonicalText text := by
  rcases mem_writeProducts (mem_strip.mp h).1 with hstar | hblanks | htext
  · exact .inl hstar
  · cases hblanks
  · rw [textOf_tokens] at htext
    exact .inr htext

/-! ### Derivatives in their one form -/

section
variable {name : List Char}

theorem tokens_derivative (hname : isIdentifier name = true) :
    tokens (derivative name) = [.name ('d' :: name), .symbol '/', .name ['d', 't']] := by
  have hchars : ∀ c ∈ name, isNameChar c = true := fun c hc =>
    isAlphanumeric_of_isIdentifierChar (isIdentifierChar_of_mem hname c hc)
  have hfirst : firstToken 'd' (name ++ ['/', 'd', 't']) = .name ('d' :: name) := by
    have hrun : (name ++ ['/', 'd', 't']).takeWhile isNameChar = name := by
      rw [List.takeWhile_append_of_pos hchars]
      exact (congrArg (name ++ ·) (by decide +kernel : ['/', 'd', 't'].takeWhile isNameChar = [])).trans
        (List.append_nil _)
    rw [firstToken, if_neg (by decide), if_pos (by decide +kernel), hrun]
  have hrest : tokens ['/', 'd', 't'] = [.symbol '/', .name ['d', 't']] := by decide +kernel
  rw [derivative, List.cons_append, tokens_cons, hfirst]
  simp [Token.text, hrest]

theorem normalText_derivative (hname : isIdentifier name = true) :
    normalText isFunction (derivative name) = derivative name := by
  have hstrip : strip (derivative name) = derivative name := by
    refine strip_eq_self fun c hc => ?_
    by_contra hblank
    have hid : isIdentifierChar c = false := by
      by_contra hid
      exact hblank (isBlank_of_isIdentifierChar (by simpa using hid))
    by_cases hslash : c = '/'
    · rw [hslash] at hblank
      revert hblank
      decide
    · exact not_mem_derivative hname hid hslash hc
  have hstars : insertStars isFunction (derivative name) = derivative name := by
    rw [insertStars, tokens_derivative hname, writeProducts_cons_ink rfl, writeProducts_cons_ink rfl,
      writeProducts_cons_ink rfl, writeProducts_nil]
    simp [areFactors, Token.text, derivative]
  rw [normalText, canonicalText_derivative hname, hstars, hstrip]

theorem not_spacedInText_derivative (hname : isIdentifier name = true) :
    ¬ SpacedInText isFunction (derivative name) := by
  rintro ⟨f, blanks, operand, hin, -, -⟩
  rw [canonicalText_derivative hname, tokens_derivative hname] at hin
  have : Token.space blanks ∈ [.name ('d' :: name), .symbol '/', .name ['d', 't']] := hin.subset (by simp)
  simp at this

end

end OdeSystem.Notation
