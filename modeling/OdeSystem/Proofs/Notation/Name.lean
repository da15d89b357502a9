import Mathlib.Data.List.Chain
import OdeSystem.Notation.Dialect
import OdeSystem.Proofs.Notation.Product

/-!
Names in written mathematics. What an equation may define begins with a letter or an underscore, and all its
characters are of words. Notation cuts it up by other rules: into letters, numbers and signs of any script, and, where
it looks like one, into a subscripted logarithm. A name that is no such logarithm, and in which no number is rewritten,
comes through all of this as it is.
-/

namespace OdeSystem.Notation

open Text

section
variable {name text rest : List Char}

theorem isName_cons {c : Char} : isName (c :: rest) = true ↔ isNameStart c = true ∧ ∀ d ∈ rest, isWord d = true := by
  unfold isName takeName
  by_cases hc : isNameStart c = true
  · simp only [hc, ↓reduceIte, true_and]
    rw [← List.dropWhile_eq_nil_iff]
    cases rest.dropWhile isWord <;> simp
  · simp [hc]

theorem isWord_of_isName (h : isName name = true) : ∀ c ∈ name, isWord c = true := by
  cases name with
  | nil => cases h
  | cons d rest =>
    obtain ⟨hfirst, hrest⟩ := isName_cons.mp h
    intro c hc
    rcases List.mem_cons.mp hc with rfl | hc
    · exact isWord_of_isNameStart hfirst
    · exact hrest c hc

theorem isName_of_takeName (h : takeName text = some (name, rest)) : isName name = true := by
  cases text with
  | nil => cases h
  | cons c text =>
    simp only [takeName] at h
    split at h
    · rename_i hc
      cases h
      exact isName_cons.mpr ⟨hc, fun d hd => List.mem_takeWhile_imp hd⟩
    · cases h

/-- A name is read as one up to where its word ends. -/
theorem takeName_of_isName (hname : isName name = true) (hrest : rest.head?.any isWord = false) :
    takeName (name ++ rest) = some (name, rest) := by
  cases name with
  | nil => cases hname
  | cons c tail =>
    obtain ⟨hfirst, hwords⟩ := isName_cons.mp hname
    obtain ⟨htake, hdrop⟩ := takeWhile_append_of_head (p := isWord) (fun c hc => by rw [hc] at hrest; exact hrest) tail
    rw [List.takeWhile_eq_self_iff.mpr hwords] at htake
    rw [List.dropWhile_eq_nil_iff.mpr hwords, List.nil_append] at hdrop
    rw [List.cons_append, takeName, if_pos hfirst, htake, hdrop]

theorem eq_append_of_takeName (h : takeName text = some (name, rest)) : text = name ++ rest := by
  cases text with
  | nil => cases h
  | cons c text =>
    simp only [takeName] at h
    split at h
    · cases h
      rw [List.cons_append, List.takeWhile_append_dropWhile]
    · cases h

theorem accept_suffix (c : Char) (text : List Char) : accept c text <:+ text := by
  unfold accept
  cases h : expect c text with
  | none => exact List.suffix_refl _
  | some rest => exact expect_suffix h

theorem ne_nil_of_isName (h : isName name = true) : name ≠ [] := by
  rintro rfl
  cases h

/-- What a derivative is of is a name, and a line stands in the fraction. -/
theorem of_derivativeOf? (h : derivativeOf? text = some name) : isName name = true ∧ '/' ∈ text := by
  simp only [derivativeOf?, Option.bind_eq_bind, Option.bind_eq_some_iff] at h
  obtain ⟨r₁, h₁, ⟨found, r₂⟩, h₂, r₃, h₃, r₄, -, r₅, -, hlast⟩ := h
  have hname : found = name := by
    split at hlast
    · exact Option.some.inj hlast
    · cases hlast
  have hsuffix : accept ')' r₂ <:+ text :=
    (accept_suffix ..).trans ((takeName_suffix h₂).trans ((expect_suffix h₁).trans (accept_suffix ..)))
  exact ⟨hname ▸ isName_of_takeName h₂, hsuffix.subset (mem_of_expect h₃)⟩

theorem derivativeOf?_eq_none (h : '/' ∉ text) : derivativeOf? text = none := by
  cases hfound : derivativeOf? text with
  | none => rfl
  | some name => exact absurd (of_derivativeOf? hfound).2 h

end

/-! ### Texts of word characters -/

section
variable {text : List Char} (words : ∀ c ∈ text, isWord c = true)
include words

theorem not_mem_of_words {c : Char} (hc : isWord c = false) : c ∉ text := fun hmem =>
  ne_of_isWord (words c hmem) hc rfl

theorem trimLeft_words : trimLeft text = text := by
  cases text with
  | nil => rfl
  | cons c rest => exact trimLeft_cons_of_not_isBlank (isBlank_of_isWord (words c (List.mem_cons_self ..)))

theorem plainText_words : plainText text = text := by
  refine plainText_eq_self (fun c hc => ?_) (not_mem_of_words words (isWord_of_isPunctuation (by decide)))
    (not_mem_of_words words (isWord_of_isPunctuation (by decide)))
  cases hdash : isDash c with
  | false => rfl
  | true =>
    have hpunctuation : isPunctuation c = true := by rcases eq_of_isDash hdash with rfl | rfl | rfl <;> decide
    exact absurd rfl (ne_of_isWord (words c hc) (isWord_of_isPunctuation hpunctuation))

end

theorem equals_not_mem_of_isName {name : List Char} (h : isName name = true) : '=' ∉ name :=
  not_mem_of_words (isWord_of_isName h) (isWord_of_isPunctuation (by decide))

theorem derivativeOf?_of_isName {name : List Char} (h : isName name = true) : derivativeOf? name = none :=
  derivativeOf?_eq_none (not_mem_of_words (isWord_of_isName h) (isWord_of_isPunctuation (by decide)))

/-- Whether a text is a subscripted logarithm with an argument: `log_`, a base, and characters of names behind it that
cannot be of the base. -/
def IsSubscripted (text : List Char) : Prop :=
  ∃ base c rest, text = "log_".toList ++ base ++ c :: rest ∧ base ≠ [] ∧ (∀ d ∈ base, isBaseChar d = true) ∧
    isNameChar c = true ∧ isBaseChar c = false

section
variable {text : List Char} (words : ∀ c ∈ text, isWord c = true)
include words

theorem takeBase_words {base behind : List Char} (h : takeBase text = some (base, behind)) :
    text = "log_".toList ++ base ++ behind ∧ base ≠ [] ∧ (∀ d ∈ base, isBaseChar d = true) ∧
      ∀ c ∈ behind.head?, isBaseChar c = false := by
  simp only [takeBase, Option.bind_eq_some_iff, expectSpaced] at h
  obtain ⟨r₁, h₁, r₂, h₂, r₃, h₃, r₄, h₄, hlast⟩ := h
  obtain rfl := eq_cons_of_expect h₁
  obtain rfl := eq_cons_of_expect h₂
  obtain rfl := eq_cons_of_expect h₃
  rw [trimLeft_words fun c hc => words c (by simp [hc])] at h₄
  obtain rfl := eq_cons_of_expect h₄
  rw [trimLeft_words fun c hc => words c (by simp [hc])] at hlast
  split at hlast
  · cases hlast
  · rename_i hbase
    cases hlast
    refine ⟨?_, by simpa using hbase, fun d hd => List.mem_takeWhile_imp hd, fun c hc => ?_⟩
    · rw [List.append_assoc, List.takeWhile_append_dropWhile]
      rfl
    · have := List.head?_dropWhile_not isBaseChar r₄
      rw [hc] at this
      exact this

/-- Where a base ends in a text of words, and no character of a name follows, no argument is found. -/
theorem takeArgument_words (hargument : ∀ c ∈ text.head?, isNameChar c = false) : takeArgument text = none := by
  cases text with
  | nil => rfl
  | cons c rest =>
    have hc : isWord c = true := words c (List.mem_cons_self ..)
    have hdot : c ≠ '.' := ne_of_isWord hc (isWord_of_isPunctuation (by decide))
    have hnone : isArgumentChar c = false := by simp [isArgumentChar, hargument c rfl, hdot]
    rw [takeArgument_cons_of_ne (ne_of_isWord hc (isWord_of_isPunctuation (by decide))),
      List.takeWhile_cons_of_neg (by simp [hnone])]
    rfl

/-- Inside of a word nothing is replaced, whatever the word is. -/
theorem plainLogarithmsFrom_inside {w : Char} (hw : isWord w = true) : plainLogarithmsFrom (some w) text = text := by
  obtain ⟨last, hinside⟩ := plainLogarithmsFrom_word hw words []
  rw [List.append_nil] at hinside
  rw [hinside]
  exact List.append_nil _

/-- Behind a base nothing begins, for it would begin with a letter that can be of the base. -/
theorem plainLogarithmsFrom_behind_base (hfirst : ∀ c ∈ text.head?, isBaseChar c = false) :
    plainLogarithmsFrom none text = text := by
  cases text with
  | nil => rfl
  | cons c rest =>
    have hl : c ≠ 'l' := by
      rintro rfl
      exact absurd (hfirst 'l' rfl) (by decide)
    have hinside : plainLogarithmsFrom (some c) rest = rest :=
      plainLogarithmsFrom_inside (fun d hd => words d (List.mem_cons_of_mem _ hd)) (words c (List.mem_cons_self ..))
    rw [plainLogarithmsFrom_cons_of_ne hl, hinside]

/-- A word that is no subscripted logarithm with an argument stays as it is. -/
theorem plainLogarithms_words (unsubscripted : ¬ IsSubscripted text) : plainLogarithms text = text := by
  change plainLogarithmsFrom none text = text
  cases text with
  | nil => rfl
  | cons c rest =>
    have hc : isWord c = true := words c (List.mem_cons_self ..)
    have hrest : ∀ d ∈ rest, isWord d = true := fun d hd => words d (List.mem_cons_of_mem _ hd)
    have hboundary : atBoundary none (c :: rest) = true := by simp [atBoundary, hc]
    cases hfound : takeBase (c :: rest) with
    | none =>
      have hinside := plainLogarithmsFrom_inside hrest hc
      rw [plainLogarithmsFrom, pieces_cons, logarithmPiece_eq, if_pos hboundary, hfound]
      exact congrArg (c :: ·) hinside
    | some found =>
      obtain ⟨base, behind⟩ := found
      obtain ⟨htext, hbase, hbases, hends⟩ := takeBase_words words hfound
      have hbehind : ∀ d ∈ behind, isWord d = true := fun d hd => words d (htext ▸ List.mem_append_right _ hd)
      -- A character of a name behind the base would be an argument.
      have hargument : ∀ d ∈ behind.head?, isNameChar d = false := by
        intro d hd
        obtain ⟨more, rfl⟩ : ∃ more, behind = d :: more := by
          cases behind with
          | nil => cases hd
          | cons e more =>
            obtain rfl := Option.some.inj hd
            exact ⟨more, rfl⟩
        by_contra hname
        exact unsubscripted ⟨base, d, more, htext, hbase, hbases, by simpa using hname, hends d rfl⟩
      obtain ⟨rfl, rfl⟩ : c = 'l' ∧ rest = ['o', 'g', '_'] ++ base ++ behind := List.cons.inj htext
      have hlost := plainLogarithmsFrom_lost none 'l' (['o', 'g', '_'] ++ base) behind hboundary hfound
        (trimLeft_words hbehind) (takeArgument_words hbehind hargument)
      rw [hlost, plainLogarithmsFrom_behind_base hbehind hends, List.cons_append]

theorem canonicalText_words (unsubscripted : ¬ IsSubscripted text) : canonicalText text = text := by
  change plainLogarithms (plainText text) = text
  rw [plainText_words words, plainLogarithms_words words unsubscripted]

end

/-! ### Tokens of names -/

/-- Whether a token is one that names are made of: a name, a number, or a sign that is of words. -/
def Token.isPlain : Token → Bool
  | name _ | number _ => true
  | symbol c => isWord c
  | space _ => false

/-- Whether notation rewrites a number that a text holds by itself, one that is no part of a name in it: a number is
written as a float, or multiplies the name behind it. -/
def RewritesNumber (text : List Char) : Prop :=
  ∃ before digits behind, tokens text = before ++ .number digits :: behind ∧
    (literalText digits ≠ digits ∨ ∃ f, behind.head? = some (.name f))

/-- Whether a number among some tokens is rewritten. -/
def rewritesNumberIn : List Token → Bool
  | [] => false
  | .number digits :: rest =>
    literalText digits != digits || rest.head?.any (· matches .name _) || rewritesNumberIn rest
  | _ :: rest => rewritesNumberIn rest

theorem rewritesNumberIn_iff {list : List Token} :
    rewritesNumberIn list = true ↔ ∃ before digits behind, list = before ++ .number digits :: behind ∧
      (literalText digits ≠ digits ∨ ∃ f, behind.head? = some (.name f)) := by
  induction list with
  | nil => simp [rewritesNumberIn]
  | cons token rest ih =>
    have hname : rest.head?.any (· matches .name _) = true ↔ ∃ f, rest.head? = some (.name f) := by
      cases rest.head? with
      | none => simp
      | some next => cases next <;> simp
    have hstep : rewritesNumberIn (token :: rest) = true ↔
        (∃ digits, token = .number digits ∧ (literalText digits ≠ digits ∨ ∃ f, rest.head? = some (.name f))) ∨
          rewritesNumberIn rest = true := by
      cases token <;> simp [rewritesNumberIn, hname, or_assoc]
    rw [hstep, ih]
    constructor
    · rintro (⟨digits, rfl, hrewritten⟩ | ⟨before, digits, behind, rfl, hrewritten⟩)
      · exact ⟨[], digits, rest, rfl, hrewritten⟩
      · exact ⟨token :: before, digits, behind, rfl, hrewritten⟩
    · rintro ⟨before, digits, behind, hsplit, hrewritten⟩
      cases before with
      | nil =>
        obtain ⟨rfl, rfl⟩ := List.cons.inj hsplit
        exact .inl ⟨digits, rfl, hrewritten⟩
      | cons first before =>
        obtain ⟨rfl, rfl⟩ := List.cons.inj hsplit
        exact .inr ⟨before, digits, behind, rfl, hrewritten⟩

instance (text : List Char) : Decidable (RewritesNumber text) :=
  decidable_of_iff (rewritesNumberIn (tokens text) = true) rewritesNumberIn_iff

section
variable {text : List Char} {list : List Token} {isFunction : String → Bool}

theorem isPlain_firstToken {c : Char} {rest : List Char} (hc : isWord c = true) :
    (firstToken c rest).isPlain = true := by
  unfold firstToken
  rw [if_neg (by simp [isBlank_of_isWord hc])]
  split
  · rfl
  · split
    · rfl
    · exact hc

theorem isPlain_of_words (words : ∀ c ∈ text, isWord c = true) : ∀ token ∈ tokens text, token.isPlain = true := by
  induction text using tokens_induction with
  | nil => exact fun token h => nomatch h
  | cons c rest ih =>
    -- What the first token leaves is part of the text, so it is of words as well.
    have hdrop : ∀ d ∈ rest.drop ((firstToken c rest).text.length - 1), isWord d = true :=
      fun d hd => words d (List.mem_cons_of_mem _ (List.mem_of_mem_drop hd))
    intro token htoken
    rw [tokens_cons] at htoken
    rcases List.mem_cons.mp htoken with rfl | htoken
    · exact isPlain_firstToken (words c (List.mem_cons_self ..))
    · exact ih hdrop token htoken

/-- Of two tokens of a name only a number and a name behind it are factors. -/
theorem areFactors_plain {left right : Token} (hleft : left.isPlain = true) (hright : right.isPlain = true)
    (hproduct : ∀ digits f, left = .number digits → right ≠ .name f) : areFactors isFunction false left right = false := by
  have hopen : isWord '(' = false := isWord_of_isPunctuation (by decide)
  have hclose : isWord ')' = false := isWord_of_isPunctuation (by decide)
  unfold areFactors
  split <;> simp_all [Token.isPlain]

/-- Tokens that are no factors of one another, with no blanks between them, are written as they are. -/
theorem writeProducts_of_isChain {previous : Option Token} (ink : ∀ token ∈ list, token.isSpace = false)
    (chain : (previous.toList ++ list).IsChain fun left right => areFactors isFunction false left right = false) :
    writeProducts isFunction previous none list = textOf list := by
  induction list generalizing previous with
  | nil => rfl
  | cons token rest ih =>
    have hrest : writeProducts isFunction (some token) none rest = textOf rest :=
      ih (fun t ht => ink t (List.mem_cons_of_mem _ ht)) chain.right_of_append
    have hfactors : (previous.any fun p => areFactors isFunction false p token) = false := by
      cases previous with
      | none => rfl
      | some p => exact (List.isChain_cons_cons.mp chain).1
    rw [writeProducts_cons_ink (ink token (List.mem_cons_self ..)), hrest, textOf_cons]
    simp [hfactors]

theorem isSpace_of_isPlain {token : Token} (h : token.isPlain = true) : token.isSpace = false := by
  cases token <;> first | rfl | cases h

theorem not_spacedIn_plain (plain : ∀ token ∈ list, token.isPlain = true) : ¬ SpacedIn isFunction list := by
  rintro ⟨f, blanks, operand, hin, -⟩
  have := plain (.space blanks) (hin.subset (by simp))
  cases this

theorem isCall_plain (plain : ∀ token ∈ list, token.isPlain = true) : isCall list = false := by
  refine decide_eq_false fun hcall => ?_
  have hmem : .symbol '(' ∈ list := (List.dropWhile_suffix _).subset (List.mem_of_mem_head? hcall)
  have hopen : isWord '(' = true := plain _ hmem
  rw [isWord_of_isPunctuation (by decide)] at hopen
  cases hopen

/-- Names that are not called stand in a formula as they are, and so do numbers that are not written as floats. -/
theorem formulaOf_plain (plain : ∀ token ∈ list, token.isPlain = true)
    (kept : ∀ digits, .number digits ∈ list → literalText digits = digits) : formulaOf list = textOf list := by
  induction list with
  | nil => rfl
  | cons token rest ih =>
    have hrest : ∀ t ∈ rest, t.isPlain = true := fun t ht => plain t (List.mem_cons_of_mem _ ht)
    have htoken : formulaText token rest = token.text := by
      cases token with
      | name text => rw [formulaText, isCall_plain hrest, if_neg (by decide), Token.text]
      | number digits => exact kept digits (List.mem_cons_self ..)
      | space text => rfl
      | symbol c => rfl
    rw [formulaOf, htoken, ih hrest fun digits hdigits => kept digits (List.mem_cons_of_mem _ hdigits), textOf_cons]

end

/-! ### Names that stay whole -/

/-- A name that notation leaves whole: no subscripted logarithm with an argument, and without a number that is
rewritten. -/
structure Whole (name : List Char) : Prop where
  isName : isName name = true
  unsubscripted : ¬ IsSubscripted name
  unrewritten : ¬ RewritesNumber name

namespace Whole
variable {name : List Char} {isFunction : String → Bool}

theorem isPlain (h : Whole name) : ∀ token ∈ tokens name, token.isPlain = true :=
  isPlain_of_words (isWord_of_isName h.isName)

theorem literalText_eq (h : Whole name) {digits : List Char} (hdigits : .number digits ∈ tokens name) :
    literalText digits = digits := by
  obtain ⟨before, behind, htokens⟩ := List.append_of_mem hdigits
  by_contra hne
  exact h.unrewritten ⟨before, digits, behind, htokens, .inl hne⟩

theorem isChain (h : Whole name) :
    (tokens name).IsChain fun left right => areFactors isFunction false left right = false := by
  rw [List.isChain_iff_forall_rel_of_append_cons_cons]
  intro left right before behind htokens
  refine areFactors_plain (h.isPlain left (by simp [htokens])) (h.isPlain right (by simp [htokens])) ?_
  rintro digits f rfl rfl
  exact h.unrewritten ⟨before, digits, .name f :: behind, htokens, .inr ⟨f, rfl⟩⟩

theorem canonicalText (h : Whole name) : canonicalText name = name :=
  canonicalText_words (isWord_of_isName h.isName) h.unsubscripted

theorem normalText (h : Whole name) : normalText isFunction name = name := by
  have hstars : insertStars isFunction name = name := by
    have ink : ∀ token ∈ tokens name, token.isSpace = false := fun token ht => isSpace_of_isPlain (h.isPlain token ht)
    rw [insertStars, writeProducts_of_isChain ink h.isChain, textOf_tokens]
  rw [Notation.normalText, h.canonicalText, hstars,
    strip_eq_self fun c hc => isBlank_of_isWord (isWord_of_isName h.isName c hc)]

theorem not_spacedInText (h : Whole name) : ¬ SpacedInText isFunction name := by
  rw [SpacedInText, h.canonicalText]
  exact not_spacedIn_plain h.isPlain

theorem formula (h : Whole name) : Notation.formula (String.ofList name) = String.ofList name := by
  rw [Notation.formula, String.toList_ofList, formulaOf_plain h.isPlain fun _ => h.literalText_eq, textOf_tokens]

end Whole

end OdeSystem.Notation
