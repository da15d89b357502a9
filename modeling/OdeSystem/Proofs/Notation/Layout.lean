import Mathlib.Data.List.Forall2
import OdeSystem.Proofs.Notation.Blind
import OdeSystem.Proofs.Notation.Product

/-!
Layout does not matter to notation. The canonical notation of a text in another layout is that of the text, in another
layout; its tokens are the same but for what the runs of blanks hold; and its normal form, where there are no blanks
left, is the same.
-/

namespace OdeSystem.Notation

open Text

/-! ### Rewritings -/

/-- A rule that cuts a text alike in any layout: a blank is a piece of its own, of the character before a piece matters
only whether it is of a word, and in another layout the first piece is the same in another layout, and so is what
follows it. -/
structure BlindRule (rule : Option Char → Char → List Char → Cut (Option Char) (List Char)) : Prop where
  blank : ∀ {before c rest}, isBlank c = true → rule before c rest = ⟨[c], 0, some c⟩
  before : ∀ {before before' : Option Char}, before.any isWord = before'.any isWord → rule before = rule before'
  same : ∀ (before) {c rest rest'}, isBlank c = false → Respaced rest rest' →
    Respaced (rule before c rest).value (rule before c rest').value ∧
      Respaced (rest.drop (rule before c rest).extra) (rest'.drop (rule before c rest').extra) ∧
      (rule before c rest).memory.any isWord = (rule before c rest').memory.any isWord

namespace BlindRule
variable {rule : Option Char → Char → List Char → Cut (Option Char) (List Char)}

/-- A run of blanks is left as it is, and nothing of it is remembered. -/
theorem flatten_pieces_run (h : BlindRule rule) {run : List Char} (hrun : IsRun run) (before : Option Char)
    (text : List Char) :
    (pieces rule before (run ++ text)).flatten = run ++ (pieces rule none text).flatten := by
  have hbegin {c : Char} (hc : isBlank c = true) (before : Option Char) (text : List Char) :
      (pieces rule before (c :: text)).flatten = c :: (pieces rule none text).flatten := by
    have hsame : rule (some c) = rule none := h.before (by simp [isWord_of_isBlank hc])
    rw [pieces_cons, h.blank hc]
    cases text with
    | nil => rfl
    | cons d text => simp [pieces_cons, hsame]
  obtain ⟨c, rest, rfl, hc, hrest⟩ := hrun.exists_cons
  clear hrun
  induction rest generalizing c before with
  | nil => exact hbegin hc before text
  | cons d rest ih =>
    simp only [allBlank, List.all_cons, Bool.and_eq_true] at hrest
    rw [List.cons_append, hbegin hc, ih none d hrest.1 hrest.2]
    rfl

/-- In another layout the pieces put together are the same in another layout. -/
theorem respaced_flatten (h : BlindRule rule) {text text' : List Char} (htext : Respaced text text')
    {before before' : Option Char} (hbefore : before.any isWord = before'.any isWord) :
    Respaced (pieces rule before text).flatten (pieces rule before' text').flatten := by
  induction hn : text.length using Nat.strongRecOn generalizing text text' before before' with
  | ind n ih =>
    cases htext with
    | nil => exact .nil
    | @ink c rest rest' hc hrest =>
      obtain ⟨hvalue, hbehind, hmemory⟩ := h.same before' hc hrest
      have hlength : (rest.drop (rule before' c rest).extra).length < n := by
        rw [← hn, List.length_drop, List.length_cons]
        omega
      rw [pieces_cons, pieces_cons, h.before hbefore, List.flatten_cons, List.flatten_cons]
      exact hvalue.append (ih _ hlength hbehind hmemory rfl)
    | @blanks run run' rest rest' hrun hrun' hrest =>
      rw [h.flatten_pieces_run hrun, h.flatten_pieces_run hrun']
      exact .blanks hrun hrun' (ih _ (hn ▸ hrun.length_lt rest) hrest rfl rfl)

end BlindRule

/-- Two readings that have stopped cut the same off in another layout, and remember the same character. -/
theorem same_cut {c : Char} {rest rest' behind behind' : List Char} (hc : isBlank c = false)
    (hrest : Respaced rest rest') (hstop : StopsAt (c :: rest) behind) (hstop' : StopsAt (c :: rest') behind')
    (hbehind : Respaced behind behind') :
    Respaced (rest.drop (rest.length - behind.length)) (rest'.drop (rest'.length - behind'.length)) ∧
      ((c :: rest).take (rest.length - behind.length + 1)).getLast? =
        ((c :: rest').take (rest'.length - behind'.length + 1)).getLast? := by
  obtain ⟨front, d, htext, hd⟩ := hstop
  obtain ⟨front', d', htext', hd'⟩ := hstop'
  have hboth : Respaced (front ++ d :: behind) (front' ++ d' :: behind') := htext ▸ htext' ▸ .ink hc hrest
  rw [List.append_cons] at htext htext'
  obtain ⟨hdrop, htake, -⟩ := cut_append (by simp) htext
  obtain ⟨hdrop', htake', -⟩ := cut_append (by simp) htext'
  have hlast : d = d' := (Respaced.cancel_right hbehind hd hd' hboth).2
  rw [hdrop, hdrop', htake, htake', hlast]
  exact ⟨hbehind, by simp⟩

/-- The search for a spelling that begins with a character which is no blank is blind to layout. -/
theorem blind_derivativeFinder {take : List Char → Option (List Char × List Char)} (h : BlindTake Eq take)
    {first : Char} (hfirst : isBlank first = false) (begins : ∀ c rest, c ≠ first → take (c :: rest) = none)
    (atWord : Bool) : BlindRule (replaceRule (derivativeFinder atWord take)) where
  blank {before c rest} hc := by
    simp [replaceRule, derivativeFinder, begins c rest (ne_of_isBlank hc hfirst)]
  before {before before'} hbefore := by
    funext c rest
    have hboundary : atBoundary before (c :: rest) = atBoundary before' (c :: rest) := by
      rw [atBoundary, atBoundary, hbefore]
    simp only [replaceRule, derivativeFinder, hboundary]
  same before {c rest rest'} hc hrest := by
    have hboundary : atBoundary before (c :: rest) = atBoundary before (c :: rest') := rfl
    simp only [replaceRule, derivativeFinder, hboundary]
    cases atWord && !atBoundary before (c :: rest') with
    | true => exact ⟨.refl [c], hrest, rfl⟩
    | false =>
      have hread := h.same (.ink hc hrest)
      generalize hx : take (c :: rest) = x at hread ⊢
      generalize hy : take (c :: rest') = y at hread ⊢
      cases hread with
      | none => exact ⟨.refl [c], hrest, rfl⟩
      | @some found found' hfound =>
        obtain ⟨hdrop, hlast⟩ := same_cut hc hrest (h.stops hx) (h.stops hy) hfound.2
        exact ⟨respaced_of_eq _ _ (congrArg derivative hfound.1), hdrop, congrArg (Option.any isWord) hlast⟩

theorem respaced_plainDerivatives {text text' : List Char} (h : Respaced text text') :
    Respaced (plainDerivatives text) (plainDerivatives text') := by
  have begins {c d : Char} (rest : List Char) (h : c ≠ d) : expect d (c :: rest) = none := by simp [expect, h]
  have hwrapped := blind_derivativeFinder blind_takeWrapped (by decide)
    (fun c rest (hc : c ≠ '(') => by simp [takeWrapped, begins rest hc]) false
  have happlied := blind_derivativeFinder blind_takeApplied (by decide)
    (fun c rest (hc : c ≠ 'd') => by simp [takeApplied, begins rest hc]) true
  have hplain := blind_derivativeFinder blind_takePlain (by decide)
    (fun c rest (hc : c ≠ 'd') => by simp [takePlain, begins rest hc]) true
  exact hplain.respaced_flatten (happlied.respaced_flatten (hwrapped.respaced_flatten h rfl) rfl) rfl

/-- A logarithm without an argument is cut off with the blanks behind it, and so it is in another layout. -/
theorem same_lost {c : Char} {rest rest' behind behind' : List Char} (hc : isBlank c = false)
    (hrest : Respaced rest rest') (hstop : StopsAt (c :: rest) behind) (hstop' : StopsAt (c :: rest') behind')
    (hbehind : Respaced behind behind') :
    Respaced ((c :: rest).take ((c :: rest).length - (trimLeft behind).length))
        ((c :: rest').take ((c :: rest').length - (trimLeft behind').length)) ∧
      Respaced (rest.drop (rest.length - (trimLeft behind).length))
        (rest'.drop (rest'.length - (trimLeft behind').length)) := by
  obtain ⟨front, d, htext, hd⟩ := hstop
  obtain ⟨front', d', htext', hd'⟩ := hstop'
  have hboth : Respaced (front ++ d :: behind) (front' ++ d' :: behind') := htext ▸ htext' ▸ .ink hc hrest
  obtain ⟨hfront, rfl⟩ := Respaced.cancel_right hbehind hd hd' hboth
  have hsplit {text front behind : List Char} (h : text = front ++ d :: behind) :
      text = front ++ d :: behind.takeWhile isBlank ++ trimLeft behind := by
    rw [List.append_assoc, List.cons_append, trimLeft, List.takeWhile_append_dropWhile, h]
  obtain ⟨hdrop, htake, hlength⟩ := cut_append (by simp) (hsplit htext)
  obtain ⟨hdrop', htake', hlength'⟩ := cut_append (by simp) (hsplit htext')
  rw [hlength, hlength', htake, htake', hdrop, hdrop']
  exact ⟨hfront.append (.ink hd hbehind.leading), hbehind.trimLeft⟩

theorem blind_logarithmPiece : BlindRule logarithmPiece where
  blank {before c rest} hc := by
    have hl : c ≠ 'l' := ne_of_isBlank hc (by decide)
    have hnone : takeBase (c :: rest) = none := by simp [takeBase, expect, hl]
    rw [logarithmPiece_eq, hnone, ite_self]
  before {before before'} hbefore := by
    funext c rest
    have hboundary : atBoundary before (c :: rest) = atBoundary before' (c :: rest) := by
      rw [atBoundary, atBoundary, hbefore]
    simp only [logarithmPiece_eq, hboundary]
  same before {c rest rest'} hc hrest := by
    have hboundary : atBoundary before (c :: rest) = atBoundary before (c :: rest') := rfl
    simp only [logarithmPiece_eq, hboundary]
    cases atBoundary before (c :: rest') with
    | false => exact ⟨.refl [c], hrest, rfl⟩
    | true =>
      have hread := blind_takeBase.same (.ink hc hrest)
      generalize hx : takeBase (c :: rest) = x at hread ⊢
      generalize hy : takeBase (c :: rest') = y at hread ⊢
      cases hread with
      | none => exact ⟨.refl [c], hrest, rfl⟩
      | @some found found' hfound =>
        obtain ⟨base, behind⟩ := found
        obtain ⟨base', behind'⟩ := found'
        obtain ⟨hbase, hbehind⟩ := hfound
        obtain rfl : base = base' := hbase
        have hstop := blind_takeBase.stops hx
        have hstop' := blind_takeBase.stops hy
        have hargument := blind_takeArgument.same hbehind.trimLeft
        simp only [↓reduceIte]
        generalize hu : takeArgument (trimLeft behind) = u at hargument ⊢
        generalize hv : takeArgument (trimLeft behind') = v at hargument ⊢
        cases hargument with
        | none =>
          -- What is cut off here ends with blanks, not where the reading of the base has stopped.
          obtain ⟨hlost, hdrop⟩ := same_lost hc hrest hstop hstop' hbehind
          exact ⟨hlost, hdrop, rfl⟩
        | @some found found' hfound =>
          have hdrop := (same_cut hc hrest (hstop.trans (blind_takeArgument.stops hu).of_trimLeft)
            (hstop'.trans (blind_takeArgument.stops hv).of_trimLeft) hfound.2).1
          have hopened : Respaced ("log(".toList ++ found.1) ("log(".toList ++ found'.1) :=
            (Respaced.refl _).append hfound.1
          exact ⟨((hopened.append (.refl _)).append (.refl base)).append (.refl _), hdrop, rfl⟩

theorem respaced_plainLogarithms {text text' : List Char} (h : Respaced text text') :
    Respaced (plainLogarithms text) (plainLogarithms text') := blind_logarithmPiece.respaced_flatten h rfl

theorem isBlank_plainMinus (c : Char) : isBlank (if isDash c then '-' else c) = isBlank c := by
  split
  · rename_i hdash
    cases hc : isBlank c with
    | false => rfl
    | true =>
      rw [isDash_of_isSeparator (isSeparator_of_isBlank hc)] at hdash
      cases hdash
  · rfl

/-- The canonical notation of a text in another layout is that of the text, in another layout. -/
theorem respaced_canonicalText {text text' : List Char} (h : Respaced text text') :
    Respaced (canonicalText text) (canonicalText text') :=
  respaced_plainLogarithms (respaced_plainDerivatives (h.map isBlank_plainMinus))

/-! ### Tokens -/

/-- Tokens that are the same, or both runs of blanks. -/
def Token.SameInk (token token' : Token) : Prop := token = token' ∨ token.isSpace = true ∧ token'.isSpace = true

theorem parted_of_isBlank {text : List Char} (h : ∀ c ∈ text.head?, isBlank c = true) : Parted text :=
  fun c hc => isSeparator_of_isBlank (h c hc)

/-- A token that is no run of blanks is the same in any layout, and what follows it is in another layout. -/
theorem firstToken_respaced {c : Char} {rest rest' : List Char} (hc : isBlank c = false) (h : Respaced rest rest') :
    firstToken c rest = firstToken c rest' ∧
      Respaced (rest.drop ((firstToken c rest).text.length - 1))
        (rest'.drop ((firstToken c rest').text.length - 1)) := by
  obtain ⟨word, behind, behind', rfl, rfl, hbehind, hparted, hparted'⟩ := h.exists_ink_append
  have hfirst {behind : List Char} (hparted : ∀ c ∈ behind.head?, isBlank c = true) :
      firstToken c (word ++ behind) = firstToken c word :=
    firstToken_append (apart_of_parted (parted_of_isBlank hparted)) fun hblank => absurd hblank (by simp [hc])
  have hlength := length_firstToken c word
  rw [hfirst hparted, hfirst hparted', List.drop_append_of_le_length hlength, List.drop_append_of_le_length hlength]
  exact ⟨rfl, (Respaced.refl _).append hbehind⟩

theorem tokens_respaced {text text' : List Char} (h : Respaced text text') :
    List.Forall₂ Token.SameInk (tokens text) (tokens text') := by
  induction hn : text.length using Nat.strongRecOn generalizing text text' with
  | ind n ih =>
    cases h with
    | nil => exact .nil
    | @ink c rest rest' hc hrest =>
      obtain ⟨hfirst, hbehind⟩ := firstToken_respaced hc hrest
      have hlength : (rest.drop ((firstToken c rest).text.length - 1)).length < n := by
        rw [← hn, List.length_drop, List.length_cons]
        omega
      rw [tokens_cons, tokens_cons]
      exact .cons (.inl hfirst) (ih _ hlength hbehind rfl)
    | @blanks run run' rest rest' hrun hrun' hrest =>
      -- The run may go on in what follows, and the token is all of it.
      have htokens {run : List Char} (h : IsRun run) (rest : List Char) :
          ∃ blanks, tokens (run ++ rest) = .space blanks :: tokens (trimLeft rest) := by
        obtain ⟨c, inner, rfl, hc, hinner⟩ := h.exists_cons
        rw [List.cons_append, tokens_cons_of_isBlank hc, trimLeft_append_of_eq_nil (trimLeft_eq_nil_iff.mpr hinner)]
        exact ⟨_, rfl⟩
      obtain ⟨blanks, hblanks⟩ := htokens hrun rest
      obtain ⟨blanks', hblanks'⟩ := htokens hrun' rest'
      have hlength : (trimLeft rest).length < n := hn ▸ (length_trimLeft_le rest).trans_lt (hrun.length_lt rest)
      rw [hblanks, hblanks']
      exact .cons (.inr ⟨rfl, rfl⟩) (ih _ hlength hrest.trimLeft rfl)

/-! ### Normal forms -/

section
variable {isFunction : String → Bool} {tokens tokens' : List Token}

theorem Token.SameInk.isSpace_eq {token token' : Token} (h : token.SameInk token') :
    token.isSpace = token'.isSpace := by
  rcases h with rfl | ⟨h, h'⟩
  · rfl
  · rw [h, h']

theorem Token.SameInk.eq_of_ink {token token' : Token} (h : token.SameInk token') (ink : token.isSpace = false) :
    token = token' := by
  rcases h with h | ⟨hspace, -⟩
  · exact h
  · rw [ink] at hspace
    cases hspace

theorem SpacedIn.of_sameInk (same : List.Forall₂ Token.SameInk tokens tokens') (h : SpacedIn isFunction tokens) :
    SpacedIn isFunction tokens' := by
  obtain ⟨f, blanks, operand, hin, hoperand, hfunction⟩ := h
  have hink : operand.isSpace = false := by cases operand <;> simp_all [Token.isOperand, Token.isSpace]
  suffices found : ∃ blanks', [.name f, .space blanks', operand] <:+: tokens' from
    found.elim fun blanks' hin' => ⟨f, blanks', operand, hin', hoperand, hfunction⟩
  induction same with
  | nil => simp at hin
  | @cons token token' rest rest' htoken hrest ih =>
    rcases List.infix_cons_iff.mp hin with ⟨behind, heq⟩ | hin
    · obtain ⟨rfl, rfl⟩ := List.cons.inj heq
      obtain rfl := htoken.eq_of_ink rfl
      obtain ⟨space', _, hspace, hoperands, rfl⟩ := List.forall₂_cons_left_iff.mp hrest
      obtain ⟨operand', rest', hsame, -, rfl⟩ := List.forall₂_cons_left_iff.mp hoperands
      obtain rfl := hsame.eq_of_ink hink
      obtain ⟨blanks', rfl⟩ : ∃ blanks', space' = .space blanks' := by
        have := hspace.isSpace_eq
        cases space' <;> simp_all [Token.isSpace]
      exact ⟨blanks', [], rest', rfl⟩
    · obtain ⟨blanks', hin'⟩ := ih hin
      exact ⟨blanks', List.infix_cons hin'⟩

theorem strip_writeProducts_respaced {previous : Option Token} {blanks blanks' : Option (List Char)}
    (hsome : blanks.isSome = blanks'.isSome) (hblanks : allBlank (blanks.getD []) = true)
    (hblanks' : allBlank (blanks'.getD []) = true) (blanked : Blanked tokens) (blanked' : Blanked tokens')
    (same : List.Forall₂ Token.SameInk tokens tokens') :
    strip (writeProducts isFunction previous blanks tokens) =
      strip (writeProducts isFunction previous blanks' tokens') := by
  induction same generalizing previous blanks blanks' with
  | nil =>
    rw [writeProducts_nil, writeProducts_nil, strip_eq_nil_of_allBlank hblanks, strip_eq_nil_of_allBlank hblanks']
  | @cons token token' rest rest' htoken _ ih =>
    have hrest : Blanked rest := fun t ht => blanked t (List.mem_cons_of_mem _ ht)
    have hrest' : Blanked rest' := fun t ht => blanked' t (List.mem_cons_of_mem _ ht)
    cases hspace : token.isSpace with
    | true =>
      have hspace' : token'.isSpace = true := htoken.isSpace_eq ▸ hspace
      rw [writeProducts_cons_space hspace, writeProducts_cons_space hspace']
      exact ih rfl (blanked token (List.mem_cons_self ..) hspace) (blanked' token' (List.mem_cons_self ..) hspace')
        hrest hrest'
    | false =>
      obtain rfl := htoken.eq_of_ink hspace
      have hbehind := @ih (some token) none none rfl rfl rfl hrest hrest'
      rw [writeProducts_cons_ink hspace, writeProducts_cons_ink hspace, hsome]
      simp only [strip_append, hbehind]
      split
      · rfl
      · rw [strip_eq_nil_of_allBlank hblanks, strip_eq_nil_of_allBlank hblanks']

/-- Texts in two layouts are alike: what the reading of an equation looks at is the same in both. -/
theorem alike_respaced {text text' : List Char} (h : Respaced text text') : Alike isFunction text text' := by
  have hcanonical := respaced_canonicalText h
  have hsame := tokens_respaced hcanonical
  have hsame' := tokens_respaced hcanonical.symm
  exact ⟨strip_writeProducts_respaced rfl rfl rfl (blanked_tokens _) (blanked_tokens _) hsame,
    .of_sameInk hsame, .of_sameInk hsame'⟩

end

end OdeSystem.Notation
