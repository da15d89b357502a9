import Mathlib.Data.List.TakeWhile
import OdeSystem.Proofs.Formula.Frame
import OdeSystem.Proofs.Formula.Name

/-!
Second parentheses in the text of a formula. Without quotes and comments every character has its lexeme, no token reaches
over a parenthesis, and no number is written with one. So second parentheses in a text are second parentheses among its
tokens, and lead to the same tree but for groups around groups.
-/

namespace OdeSystem.Formula

open Text Number

/-! ### Lexemes -/

/-- Whether a text has no quotes and no comments. -/
def isBare : List Char → Bool
  | [] => true
  | c :: rest => c ≠ '"' && !(c = '/' && (rest.head? = some '/' || rest.head? = some '*')) && isBare rest

theorem isBare_append_cons {c : Char} (hc : c = '(' ∨ c = ')') (front rest : List Char) :
    isBare (front ++ c :: rest) = (isBare front && isBare rest) := by
  induction front with
  | nil => rcases hc with rfl | rfl <;> simp [isBare]
  | cons d front ih =>
    have hhead : ((front ++ c :: rest).head? = some '/' ↔ front.head? = some '/') ∧
        ((front ++ c :: rest).head? = some '*' ↔ front.head? = some '*') := by
      cases front with
      | nil => rcases hc with rfl | rfl <;> simp
      | cons _ _ => exact ⟨Iff.rfl, Iff.rfl⟩
    simp only [List.cons_append, isBare, ih, hhead.1, hhead.2, Bool.and_assoc]

theorem isBare_cons {c : Char} (hc : c = '(' ∨ c = ')') (rest : List Char) : isBare (c :: rest) = isBare rest :=
  (isBare_append_cons hc [] rest).trans (Bool.true_and _)

theorem lexicalPiece_of_isBare {c : Char} {rest : List Char} (h : isBare (c :: rest) = true) :
    lexicalPiece () c rest = ⟨.ok (some (.ofChar c)), 0, ()⟩ := by
  simp only [isBare, Bool.and_eq_true, decide_eq_true_eq, Bool.not_eq_true', Bool.and_eq_false_iff] at h
  obtain ⟨⟨hquote, hslash⟩, -⟩ := h
  unfold lexicalPiece
  split
  · exact absurd rfl hquote
  · simp at hslash
  · simp at hslash
  · rfl

/-- The lexemes of a text without quotes and comments. -/
def bareLexemes (text : List Char) : List Lexeme := joinWords (text.map Lexeme.ofChar)

theorem lexemes_of_isBare {text : List Char} (h : isBare text = true) : lexemes text = .ok (bareLexemes text) := by
  have hpieces : pieces lexicalPiece () text = text.map fun c => .ok (some (Lexeme.ofChar c)) := by
    induction text with
    | nil => rfl
    | cons c rest ih =>
      have hrest : isBare rest = true := by
        simp only [isBare, Bool.and_eq_true] at h
        exact h.2
      rw [pieces_cons, lexicalPiece_of_isBare h, List.drop_zero, ih hrest, List.map_cons]
  have hsome : (text.map fun c => some (Lexeme.ofChar c)).filterMap id = text.map Lexeme.ofChar := by
    rw [List.filterMap_map, Function.id_comp]
    exact congrFun (List.filterMap_eq_map (f := Lexeme.ofChar)) _
  unfold lexemes
  rw [hpieces, mapM_id_ok, Except.map, hsome]
  rfl

/-- Words do not join over a sign. -/
theorem joinWords_append_sign (front : List Lexeme) (s : Sign) (rest : List Lexeme) :
    joinWords (front ++ .sign s :: rest) = joinWords front ++ .sign s :: joinWords rest := by
  induction front with
  | nil => rfl
  | cons lexeme front ih =>
    cases lexeme with
    | word text =>
      rw [List.cons_append, joinWords, joinWords, ih]
      rcases joinWords front with _ | ⟨first, others⟩
      · rfl
      · cases first <;> rfl
    | _ => exact congrArg _ ih

theorem bareLexemes_append_cons {c : Char} {s : Sign} (hc : Sign.ofChar? c = some s) (front rest : List Char) :
    bareLexemes (front ++ c :: rest) = bareLexemes front ++ .sign s :: bareLexemes rest := by
  have hsign : Lexeme.ofChar c = .sign s := by
    unfold Lexeme.ofChar
    rw [hc]
  rw [bareLexemes, List.map_append, List.map_cons, hsign, joinWords_append_sign]
  rfl

/-! ### Numbers -/

section
variable {c : Char} {text : List Char}

theorem mem_dropWhile {p : Char → Bool} (hmem : c ∈ text) (hc : p c = false) : c ∈ text.dropWhile p := by
  rw [← List.takeWhile_append_dropWhile (p := p) (l := text), List.mem_append] at hmem
  exact hmem.resolve_left fun h => by simp [List.mem_takeWhile_imp h] at hc

theorem mem_takeSign (hmem : c ∈ text) (hc : c ∉ ['+', '-']) : c ∈ (takeSign text).2 := by
  simp only [List.mem_cons, List.not_mem_nil, or_false, not_or] at hc
  unfold takeSign
  split
  · exact (List.mem_cons.mp hmem).resolve_left hc.2
  · exact (List.mem_cons.mp hmem).resolve_left hc.1
  · exact hmem

theorem isDigits_eq_false_of_mem (hmem : c ∈ text) (hc : isAsciiDigit c = false) : isDigits text = false := by
  have hall : text.all isAsciiDigit = false := List.all_eq_false.mpr ⟨c, hmem, by simp [hc]⟩
  rw [isDigits, hall, Bool.and_false]

/-- A character that no number is written with. -/
def isForeign (c : Char) : Bool := !isAsciiDigit c && !(['+', '-', '.', 'e', 'E'].contains c)

theorem exponent?_eq_none_of_mem (hmem : c ∈ text) (hc : isForeign c = true) : exponent? text = none := by
  obtain ⟨hdigit, hplus, hminus, -, he, hE⟩ :
      isAsciiDigit c = false ∧ c ≠ '+' ∧ c ≠ '-' ∧ c ≠ '.' ∧ c ≠ 'e' ∧ c ≠ 'E' := by
    simpa [isForeign] using hc
  cases text with
  | nil => cases hmem
  | cons d rest =>
    simp only [exponent?]
    split
    · rename_i hd
      have hrest : c ∈ rest := (List.mem_cons.mp hmem).resolve_left fun heq =>
        hd.elim (fun h => he (heq.trans h)) fun h => hE (heq.trans h)
      simp [isDigits_eq_false_of_mem (mem_takeSign hrest (by simp [hplus, hminus])) hdigit]
    · rfl

theorem numeral?_eq_none_of_mem (hmem : c ∈ text) (hc : isForeign c = true) : Numeral.ofText? text = none := by
  obtain ⟨hdigit, hplus, hminus, hdot, -, -⟩ :
      isAsciiDigit c = false ∧ c ≠ '+' ∧ c ≠ '-' ∧ c ≠ '.' ∧ c ≠ 'e' ∧ c ≠ 'E' := by
    simpa [isForeign] using hc
  have hrest : c ∈ (takeSign text).2.dropWhile isAsciiDigit :=
    mem_dropWhile (mem_takeSign hmem (by simp [hplus, hminus])) hdigit
  unfold Numeral.ofText? magnitude?
  dsimp only
  split
  · rename_i tail heq
    rw [heq] at hrest
    have htail : c ∈ tail := (List.mem_cons.mp hrest).resolve_left hdot
    rw [exponent?_eq_none_of_mem (mem_dropWhile htail hdigit) hc]
    exact ite_self _
  · rw [exponent?_eq_none_of_mem hrest hc]
    exact ite_self _

/-- No float is written with a parenthesis. -/
theorem float?_eq_none_of_mem (hmem : c ∈ text) (hc : c = '(' ∨ c = ')') : float? text = none := by
  have hlower : c ∈ (takeSign text).2.map Char.toLower := by
    have hsign : c ∉ ['+', '-'] := by rcases hc with rfl | rfl <;> decide
    exact List.mem_map.mpr ⟨c, mem_takeSign hmem hsign, by rcases hc with rfl | rfl <;> rfl⟩
  have hnot (word : List Char) (hword : '(' ∉ word ∧ ')' ∉ word) : (takeSign text).2.map Char.toLower ≠ word := by
    rintro rfl
    rcases hc with rfl | rfl
    · exact hword.1 hlower
    · exact hword.2 hlower
  have hword : word? text = none := by
    unfold word?
    dsimp only
    rw [if_neg (not_or.mpr ⟨hnot _ (by decide), hnot _ (by decide)⟩), if_neg (hnot _ (by decide))]
  have hforeign : isForeign c = true := by rcases hc with rfl | rfl <;> decide
  rw [float?, hword, numeral?_eq_none_of_mem hmem hforeign]
  rfl

end

/-! ### Tokens -/

/-- A parenthesis as a sign and as a token. -/
inductive IsParenthesis : Sign → Token → Prop
  | opening : IsParenthesis .openParen .openParen
  | closing : IsParenthesis .closeParen .closeParen

/-- Whether a reading of the token at the front of some lexemes sees nothing behind a parenthesis, and takes nothing for
the end of the lexemes that it does not take for a parenthesis. -/
def StopsAtSign (s : Sign) (read : List Lexeme → Except Fault (Token × Nat)) (front : List Lexeme) : Prop :=
  ∃ result, (∀ rest, read (front ++ .sign s :: rest) = result) ∧ (∀ found, read front = .ok found → result = .ok found) ∧
    ∀ found, result = .ok found → found.2 ≤ front.length

theorem wordToken_le (text : List Char) (front : List Lexeme) : (wordToken text front).2 ≤ front.length := by
  unfold wordToken
  split
  · exact Nat.zero_le _
  · split
    · rename_i hfloat
      unfold signedFloat? at hfloat
      split at hfloat
      · simp
      · simp
      · cases hfloat
    · exact Nat.zero_le _

section
variable {p : Sign} {parenthesis : Token} (hp : IsParenthesis p parenthesis)
include hp

theorem wordToken_append (text : List Char) (front rest : List Lexeme) :
    wordToken text (front ++ .sign p :: rest) = wordToken text front := by
  have hsigned : signedFloat? text (front ++ .sign p :: rest) = signedFloat? text front := by
    have hfloat (sign : Char) : float? (text ++ sign :: (Lexeme.sign p).text) = none := by
      cases hp with
      | opening => exact float?_eq_none_of_mem (c := '(') (by simp [Lexeme.text, Sign.char]) (.inl rfl)
      | closing => exact float?_eq_none_of_mem (c := ')') (by simp [Lexeme.text, Sign.char]) (.inr rfl)
    rcases front with _ | ⟨first, _ | ⟨second, front⟩⟩
    · cases hp <;> rfl
    · cases first with
      | sign s =>
        cases s with
        | plus => exact hfloat '+'
        | minus => exact hfloat '-'
        | _ => rfl
      | _ => rfl
    · cases first with
      | sign s => cases s <;> rfl
      | _ => rfl
  unfold wordToken
  rw [hsigned]

theorem stopsAtSign_updatable (token : Token) (front : List Lexeme) :
    StopsAtSign p (fun rest => .ok (updatable token rest)) front := by
  refine ⟨.ok (updatable token front), fun rest => ?_, fun _ h => h, fun found h => ?_⟩
  · rcases front with _ | ⟨first, front⟩
    · cases hp <;> rfl
    · cases first with
      | sign s => cases s <;> rfl
      | _ => rfl
  · cases h
    unfold updatable
    split <;> simp

theorem stopsAtSign_beforeEquals (token changed : Token) (front : List Lexeme) :
    StopsAtSign p (fun rest => .ok (beforeEquals token changed rest)) front := by
  refine ⟨.ok (beforeEquals token changed front), fun rest => ?_, fun _ h => h, fun found h => ?_⟩
  · rcases front with _ | ⟨first, front⟩
    · cases hp <;> rfl
    · cases first with
      | sign s => cases s <;> rfl
      | _ => rfl
  · cases h
    unfold beforeEquals
    split <;> simp

theorem stopsAtSign_doubled {s : Sign} (hs : s ≠ p) (token : Token) (front : List Lexeme) :
    StopsAtSign p (doubled s token) front := by
  have hstray {lexeme : Lexeme} (hread : ∀ rest, doubled s token (front ++ .sign p :: rest) =
      .error (.strayLexeme (.sign s) (some lexeme))) (hfront : ∀ found, doubled s token front ≠ .ok found) :
      StopsAtSign p (doubled s token) front :=
    ⟨_, hread, fun found h => absurd h (hfront found), fun _ h => nomatch h⟩
  rcases front with _ | ⟨first, front⟩
  · exact hstray (fun rest => if_neg hs.symm) fun _ h => nomatch h
  · cases first with
    | sign second =>
      by_cases hsecond : second = s
      · refine ⟨doubled s token (.sign second :: front), fun rest => ?_, fun _ h => h, fun found h => ?_⟩
        · simp only [doubled, List.cons_append, if_pos hsecond]
          rcases front with _ | ⟨third, front⟩
          · cases hp <;> rfl
          · cases third with
            | sign s => cases s <;> rfl
            | _ => rfl
        · simp only [doubled, if_pos hsecond] at h
          split at h <;> (cases h; simp)
      · exact hstray (fun rest => if_neg hsecond) fun _ h => by simp [doubled, if_neg hsecond] at h
    | blank => exact hstray (fun _ => rfl) fun _ h => nomatch h
    | quoted text => exact hstray (fun _ => rfl) fun _ h => nomatch h
    | word text => exact hstray (fun _ => rfl) fun _ h => nomatch h

theorem stopsAtSign_signToken (s : Sign) (front : List Lexeme) : StopsAtSign p (signToken s) front := by
  cases s with
  | ampersand => exact stopsAtSign_doubled hp (by cases hp <;> decide) .and front
  | bar => exact stopsAtSign_doubled hp (by cases hp <;> decide) .or front
  | openParen | closeParen | comma | semicolon =>
    exact ⟨_, fun _ => rfl, fun _ h => h, fun _ h => by cases h; exact Nat.zero_le _⟩
  | plus | minus | star | slash | percent | hat => exact stopsAtSign_updatable hp _ front
  | equals | exclamation | greater | less => exact stopsAtSign_beforeEquals hp _ _ front

/-- Whether the tokens before a parenthesis and those behind it are read apart, the former as they are without what
follows. -/
def ReadsApart (p : Sign) (parenthesis : Token) (skip : Nat) (front : List Lexeme) : Prop :=
  ∃ read : Except Fault (List Token), (∀ rest, tokensFrom skip (front ++ .sign p :: rest) =
    read.bind fun before => (tokensFrom 0 rest).map fun behind => before ++ parenthesis :: behind) ∧
    ∀ found, tokensFrom skip front = .ok found → read = .ok found

omit hp in
/-- One more token in front: it is read with the parenthesis behind the others and, where it is read without, too. -/
theorem ReadsApart.cons {skip skip' : Nat} {lexeme : Lexeme} {front : List Lexeme} (token : Token)
    (h : ReadsApart p parenthesis skip' front)
    (hread : ∀ rest, tokensFrom skip (lexeme :: (front ++ .sign p :: rest)) =
      (tokensFrom skip' (front ++ .sign p :: rest)).map (token :: ·))
    (hfront : ∀ found, tokensFrom skip (lexeme :: front) = .ok found →
      (tokensFrom skip' front).map (token :: ·) = .ok found) :
    ReadsApart p parenthesis skip (lexeme :: front) := by
  obtain ⟨read, happend, hfound⟩ := h
  refine ⟨read.map (token :: ·), fun rest => ?_, fun found h => ?_⟩
  · rw [List.cons_append, hread, happend]
    cases read with
    | error fault => rfl
    | ok before => cases tokensFrom 0 rest <;> rfl
  · obtain ⟨behind, hbehind, rfl⟩ := exists_of_map_eq_ok (hfront found h)
    rw [hfound behind hbehind]
    rfl

theorem readsApart_sign (s : Sign) {front : List Lexeme}
    (h : ∀ skip ≤ front.length, ReadsApart p parenthesis skip front) :
    ReadsApart p parenthesis 0 (.sign s :: front) := by
  obtain ⟨result, hresult, hsame, hle⟩ := stopsAtSign_signToken hp s front
  have hfront {all : List Token} (h : tokensFrom 0 (.sign s :: front) = .ok all) :
      ∃ found, result = .ok found ∧ (tokensFrom found.2 front).map (found.1 :: ·) = .ok all := by
    rw [tokensFrom] at h
    split at h
    · cases h
    · rename_i found heq
      exact ⟨_, hsame _ heq, h⟩
  cases result with
  | error fault =>
    refine ⟨.error fault, fun rest => ?_, fun all h => ?_⟩
    · rw [List.cons_append, tokensFrom, hresult]
      rfl
    · obtain ⟨found, hfound, -⟩ := hfront h
      cases hfound
  | ok found =>
    refine (h found.2 (hle found rfl)).cons found.1 (fun rest => ?_) fun all h => ?_
    · rw [tokensFrom, hresult]
    · obtain ⟨_, hfound, hmap⟩ := hfront h
      cases hfound
      exact hmap

/-- The tokens before a parenthesis and those behind it are read apart. -/
theorem tokensFrom_append {skip : Nat} {front : List Lexeme} (hskip : skip ≤ front.length) :
    ReadsApart p parenthesis skip front := by
  induction front generalizing skip with
  | nil =>
    obtain rfl : skip = 0 := Nat.le_zero.mp hskip
    refine ⟨.ok [], fun rest => ?_, fun _ h => h⟩
    cases hp <;> rfl
  | cons lexeme front ih =>
    cases skip with
    | succ skip => exact ih (Nat.le_of_succ_le_succ hskip)
    | zero =>
      cases lexeme with
      | blank => exact ih (Nat.zero_le _)
      | quoted text =>
        exact (ih (Nat.zero_le _)).cons (.value (.string (String.ofList text))) (fun _ => rfl) fun _ h => h
      | word text =>
        refine (ih (wordToken_le text front)).cons (wordToken text front).1 (fun rest => ?_) fun _ h => h
        rw [tokensFrom, wordToken_append hp]
      | sign s => exact readsApart_sign hp s fun skip => ih

end

/-! ### Texts -/

theorem tokens_of_isBare {text : List Char} (h : isBare text = true) :
    tokens text = tokensFrom 0 (bareLexemes text) := by
  rw [tokens, lexemes_of_isBare h]

/-- No token reaches over a parenthesis. -/
theorem tokens_append_cons {c : Char} {p : Sign} {parenthesis : Token} (hc : Sign.ofChar? c = some p)
    (hp : IsParenthesis p parenthesis) {front : List Char} (hfront : isBare front = true) :
    ∃ read : Except Fault (List Token),
      (∀ rest, isBare rest = true → tokens (front ++ c :: rest) =
        read.bind fun before => (tokens rest).map fun behind => before ++ parenthesis :: behind) ∧
      ∀ found, tokens front = .ok found → read = .ok found := by
  have hchar : c = '(' ∨ c = ')' := by
    cases hp with
    | opening => exact .inl (Sign.char_of_ofChar? hc).symm
    | closing => exact .inr (Sign.char_of_ofChar? hc).symm
  obtain ⟨read, hread, hfound⟩ := tokensFrom_append hp (Nat.zero_le (bareLexemes front).length)
  refine ⟨read, fun rest hrest => ?_, fun found h => hfound found (tokens_of_isBare hfront ▸ h)⟩
  have hbare : isBare (front ++ c :: rest) = true := by
    rw [isBare_append_cons hchar, hfront, hrest]
    rfl
  rw [tokens_of_isBare hbare, bareLexemes_append_cons hc, hread, tokens_of_isBare hrest]

theorem tokens_opening {rest : List Char} (hrest : isBare rest = true) :
    tokens ('(' :: rest) = (tokens rest).map (.openParen :: ·) := by
  obtain ⟨read, hread, hfound⟩ := tokens_append_cons (c := '(') rfl .opening (by rfl : isBare [] = true)
  rw [hfound [] rfl] at hread
  exact hread rest hrest

theorem tokens_closing {rest : List Char} (hrest : isBare rest = true) :
    tokens (')' :: rest) = (tokens rest).map (.closeParen :: ·) := by
  obtain ⟨read, hread, hfound⟩ := tokens_append_cons (c := ')') rfl .closing (by rfl : isBare [] = true)
  rw [hfound [] rfl] at hread
  exact hread rest hrest

theorem tokens_enclosed {inside : List Token → Prop} {xs ys : List Char} (bare : isBare xs = true)
    (h : Enclosed '(' ')' (fun inner => ∃ found, tokens inner = .ok found ∧ inside found) xs ys) :
    Matched Eq (Enclosed .openParen .closeParen inside) (tokens xs) (tokens ys) ∧ isBare ys = true := by
  induction h with
  | plain xs =>
    refine ⟨?_, bare⟩
    cases tokens xs with
    | error fault => exact .error rfl
    | ok found => exact .ok (.plain found)
  | @group front inner xs ys hinner _ ih =>
    have hopening (front rest : List Char) : isBare (front ++ '(' :: rest) = (isBare front && isBare rest) :=
      isBare_append_cons (.inl rfl) front rest
    have hclosing (front rest : List Char) : isBare (front ++ ')' :: rest) = (isBare front && isBare rest) :=
      isBare_append_cons (.inr rfl) front rest
    rw [hopening, hclosing, Bool.and_eq_true, Bool.and_eq_true] at bare
    obtain ⟨hfront, hin, hxs⟩ := bare
    obtain ⟨htokens, hys⟩ := ih hxs
    have hys' : isBare (')' :: ys) = true := (isBare_cons (.inr rfl) ys).trans hys
    have hsingle : isBare (inner ++ ')' :: xs) = true := by
      rw [hclosing, hin, hxs]
      rfl
    have hdouble : isBare (inner ++ ')' :: ')' :: ys) = true := by
      rw [hclosing, hin, hys']
      rfl
    have hdouble' : isBare ('(' :: (inner ++ ')' :: ')' :: ys)) = true := (isBare_cons (.inl rfl) _).trans hdouble
    refine ⟨?_, by rw [hopening, hfront, hdouble']; rfl⟩
    obtain ⟨found, hfound, hinside⟩ := hinner
    obtain ⟨before, hbefore, -⟩ := tokens_append_cons (c := '(') rfl .opening hfront
    obtain ⟨behind, hbehind, hsame⟩ := tokens_append_cons (c := ')') rfl .closing hin
    rw [hsame found hfound] at hbehind
    rw [hbefore _ hsingle, hbefore _ hdouble', tokens_opening hdouble, hbehind _ hxs, hbehind _ hys',
      tokens_closing hys]
    cases before with
    | error fault => exact .error rfl
    | ok before =>
      rcases htokens.ok_or_error with ⟨rest, rest', hxs, hys, hrest⟩ | ⟨fault, fault', hxs, hys, rfl⟩
      · rw [hxs, hys]
        exact .ok (.group hinside hrest)
      · rw [hxs, hys]
        exact .error rfl

namespace Tree

/-- Whether a text is a formula by itself, and not an empty one. -/
def ReadsAlone (text : List Char) : Prop := ∃ group, ofText text = .ok group ∧ group.children ≠ []

instance (text : List Char) : Decidable (ReadsAlone text) :=
  decidable_of_iff ((ofText text).toOption.any (fun group => !group.children.isEmpty) = true) <| by
    unfold ReadsAlone
    cases ofText text <;> simp [Except.toOption]

theorem ReadsAlone.ne_nil {text : List Char} (h : ReadsAlone text) : text ≠ [] := by
  rintro rfl
  obtain ⟨group, hgroup, hne⟩ := h
  cases hgroup
  exact hne rfl

theorem exists_tokens_of_readsAlone {text : List Char} (h : ReadsAlone text) :
    ∃ found, tokens text = .ok found ∧ GrowsAlone found := by
  obtain ⟨group, hgroup, hne⟩ := h
  unfold ofText at hgroup
  split at hgroup
  · cases hgroup
  · rename_i found hfound
    exact ⟨found, hfound, group, hgroup, hne⟩

/-- Second parentheses in the text of a formula lead to the same tree but for groups around groups, or to the same
fault. -/
theorem ofText_enclosed {text text' : List Char} (bare : isBare text = true)
    (h : Enclosed '(' ')' ReadsAlone text text') : Matched Eq Regrouped (ofText text) (ofText text') := by
  obtain ⟨htokens, -⟩ := tokens_enclosed bare (h.imp fun _ => exists_tokens_of_readsAlone)
  unfold ofText
  rcases htokens.ok_or_error with ⟨found, found', hfound, hfound', h⟩ | ⟨fault, fault', hfound, hfound', rfl⟩
  · rw [hfound, hfound']
    exact ofTokens_enclosed h
  · rw [hfound, hfound']
    exact .error rfl

/-- Parentheses around a whole formula become a group around its tree. -/
theorem ofText_parenthesized {text : List Char} (bare : isBare text = true) (h : ReadsAlone text) :
    Matched Eq Regrouped (ofText text) (ofText ('(' :: (text ++ [')']))) := by
  obtain ⟨found, hfound, group, hgroup, hne⟩ := exists_tokens_of_readsAlone h
  obtain ⟨behind, hbehind, hsame⟩ := tokens_append_cons (c := ')') rfl .closing bare
  rw [hsame found hfound] at hbehind
  have hends : tokens (text ++ [')']) = .ok (found ++ [.closeParen]) := hbehind [] rfl
  have hinner : isBare (text ++ [')']) = true := by
    rw [isBare_append_cons (.inr rfl), bare]
    rfl
  have htext : ofText text = .ok group := by
    rw [ofText, hfound]
    exact hgroup
  have hparenthesized : ofText ('(' :: (text ++ [')'])) = .ok (node .group [group]) := by
    rw [ofText, tokens_opening hinner, hends]
    exact ofTokens_parenthesized hgroup hne
  obtain ⟨t, rfl⟩ := exists_operand_of_ofTokens hgroup hne
  rw [htext, hparenthesized]
  exact .ok (.wrap (.refl _))

end Tree

end OdeSystem.Formula
