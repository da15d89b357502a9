import OdeSystem.Proofs.Notation.Lookahead
import OdeSystem.Proofs.Notation.Settled

/-!
Identifiers in which no logarithm begins. The search for subscripted logarithms knows nothing of tokens, so it may cut an
identifier. But its first letter stands in a name wherever it does, and the rest of that name shows whether a subscript
can follow; if no name of a text ends or goes on so, the search finds nothing.
-/

namespace OdeSystem.Notation

open Text

/-! ### What a search for logarithms changes -/

section
variable {memory before : Option Char} {base front text : List Char}

theorem IsOpening.count_comma (h : IsOpening base front) : front.count ',' = 0 ∧ base.count ',' = 0 := by
  have hargument : isArgumentChar ',' = false := isArgumentChar_of_mem (by simp)
  refine ⟨List.count_eq_zero.mpr (h.not_mem (by decide) hargument), List.count_eq_zero.mpr fun hmem => ?_⟩
  have := isArgumentChar_of_isBaseChar (h.isBaseChar ',' hmem)
  rw [hargument] at this
  cases this

theorem count_logarithm (argument base : List Char) :
    (logarithm argument base).count ',' = argument.count ',' + (base.count ',' + 1) := by
  simp [logarithm_eq, List.count_append]

/-- Every logarithm that is replaced brings another comma into the text, so a text that stays as it is has none. -/
theorem count_plainLogarithmsFrom (memory before : Option Char) (text : List Char)
    (hmemory : text.head? = some 'l' → memory.any isWord = before.any isWord) :
    text.count ',' ≤ (plainLogarithmsFrom memory text).count ',' ∧
      ((plainLogarithmsFrom memory text).count ',' = text.count ',' → NoneLogarithm before text) := by
  refine logarithm_induction (motive := fun before text text' => text.count ',' ≤ text'.count ',' ∧
    (text'.count ',' = text.count ',' → NoneLogarithm before text)) (fun _ => ⟨Nat.le_refl _, fun _ => trivial⟩)
    ?_ ?_ ?_ memory before text hmemory
  · rintro before c rest rest' hread ⟨hle, hnone⟩
    rw [List.count_cons, List.count_cons]
    exact ⟨Nat.add_le_add_right hle _, fun heq => ⟨hread, hnone (Nat.add_right_cancel heq)⟩⟩
  · rintro before front base argument behind behind' hfront - ⟨hle, -⟩
    obtain ⟨hfront, hbase⟩ := hfront.count_comma
    have hopen : ('(' :: (argument ++ ')' :: behind)).count ',' = argument.count ',' + behind.count ',' := by simp
    rw [List.count_append, List.count_append, count_logarithm, hopen]
    exact ⟨by omega, fun heq => by omega⟩
  · rintro before front base argument behind behind' hfront - - - - ⟨hle, -⟩
    obtain ⟨hfront, hbase⟩ := hfront.count_comma
    rw [List.count_append, List.count_append, List.count_append, count_logarithm]
    exact ⟨by omega, fun heq => by omega⟩

theorem plainLogarithms_eq_self_iff : plainLogarithms text = text ↔ NoneLogarithm none text := by
  constructor
  · intro heq
    exact (count_plainLogarithmsFrom none none text fun _ => rfl).2 (congrArg (List.count ',') heq)
  · exact plainLogarithmsFrom_eq_self none none text fun _ => rfl

end

/-! ### Names and their letters -/

/-- Whether a logarithm with a subscript may begin with the end of a name: with `log`, or with `log_` if there is nothing
or a base behind it. -/
def opensLogarithm : List Char → Bool
  | ['l', 'o', 'g'] => true
  | ['l', 'o', 'g', '_'] => true
  | 'l' :: 'o' :: 'g' :: '_' :: c :: _ => isBaseChar c
  | _ => false

/-- Whether no logarithm can begin in a token: if it is a name, none opens where a word begins in it. -/
def Token.Ordinary : Token → Prop
  | .name f => Everywhere (fun before rest => before.any isWord = false → opensLogarithm rest = false) none f
  | _ => True

instance : DecidablePred Token.Ordinary
  | .name f => inferInstanceAs (Decidable (Everywhere _ none f))
  | .number _ | .space _ | .symbol _ => inferInstanceAs (Decidable True)

section
variable {text : List Char}

/-- The first letter of a logarithm stands in a name, which goes on with the characters of names behind it. -/
theorem mem_tokens_of_letter (text : List Char) : ∀ {front rest : List Char}, text = front ++ 'l' :: rest →
    ∃ shorter inner, front = shorter ++ inner ∧ .name (inner ++ 'l' :: rest.takeWhile isNameChar) ∈ tokens text := by
  refine token_induction (motive := fun text list => ∀ {front rest : List Char}, text = front ++ 'l' :: rest →
    ∃ shorter inner, front = shorter ++ inner ∧ .name (inner ++ 'l' :: rest.takeWhile isNameChar) ∈ list)
    (fun h => by simp at h) ?_ text
  intro c inner behind token htoken ih front rest htext
  rw [← List.cons_append] at htext
  rcases List.append_eq_append_iff.mp htext with ⟨between, rfl, hbehind⟩ | ⟨longer, hinner, hrest⟩
  · obtain ⟨shorter, inner', rfl, hmem⟩ := ih hbehind
    exact ⟨c :: inner ++ shorter, inner', (List.append_assoc ..).symm, List.mem_cons_of_mem _ hmem⟩
  · cases longer with
    | nil =>
      -- The letter is the first behind the token.
      obtain ⟨shorter, inner', hshorter, hmem⟩ := @ih [] rest hrest.symm
      obtain ⟨rfl, rfl⟩ := List.append_eq_nil_iff.mp hshorter.symm
      exact ⟨front, [], (List.append_nil _).symm, List.mem_cons_of_mem _ hmem⟩
    | cons e longer =>
      obtain ⟨rfl, rfl⟩ : 'l' = e ∧ rest = longer ++ behind := List.cons.inj hrest
      have hletter : 'l' ∈ c :: inner := hinner ▸ List.mem_append_right _ (List.mem_cons_self ..)
      cases htoken with
      | space hc hblanks =>
        rcases List.mem_cons.mp hletter with rfl | hletter
        · exact absurd hc (by decide)
        · exact absurd (hblanks _ hletter) (by decide)
      | number hc hname hbegins hparts parts =>
        rcases parts.mem (hparts ▸ hletter) with h | h <;> exact absurd h (by decide)
      | symbol hc hname =>
        obtain rfl := List.mem_singleton.mp hletter
        exact absurd hname (by decide)
      | name hc hname hnames hmore =>
        have hlonger : ∀ d ∈ longer, isNameChar d = true := by
          cases front with
          | nil => exact (List.cons.inj hinner).2 ▸ hnames
          | cons d front => exact fun e he => hnames e ((List.cons.inj hinner).2 ▸ by simp [he])
        refine ⟨[], front, rfl, ?_⟩
        rw [(takeWhile_ended hlonger hmore).1, ← hinner]
        exact List.mem_cons_self ..

/-! ### Dashes and names -/

theorem isNameChar_of_isDash {c : Char} (h : isDash c = true) : isNameChar c = false := by
  rcases eq_of_isDash h with rfl | rfl | rfl <;> decide +kernel

theorem isDash_of_isNameChar {c : Char} (h : isNameChar c = true) : isDash c = false := by
  cases hdash : isDash c with
  | false => rfl
  | true => rw [← h, isNameChar_of_isDash hdash]

/-- Names are read alike whichever sign stands for a minus. -/
theorem takeWhile_plainMinus (text : List Char) : (plainMinus text).takeWhile isNameChar = text.takeWhile isNameChar := by
  induction text with
  | nil => rfl
  | cons c text ih =>
    cases hc : isDash c with
    | true =>
      rw [List.takeWhile_cons_of_neg (by simp [isNameChar_of_isDash hc]), plainMinus, List.map_cons, if_pos hc,
        List.takeWhile_cons_of_neg (by decide +kernel)]
    | false =>
      rw [plainMinus, List.map_cons, hc, if_neg Bool.false_ne_true, ← plainMinus, List.takeWhile_cons, List.takeWhile_cons,
        ih]

theorem isWord_last_plainMinus (text : List Char) :
    (lastOf none (plainMinus text)).any isWord = (lastOf none text).any isWord := by
  rcases List.eq_nil_or_concat' text with rfl | ⟨shorter, c, rfl⟩
  · rfl
  · rw [plainMinus, List.map_append, lastOf_append, lastOf_append]
    cases hc : isDash c with
    | true =>
      have hword : isWord c = false := by
        cases hword : isWord c with
        | false => rfl
        | true => rw [← hc, isDash_of_isWord hword]
      simp [lastOf, hc, hword, isWord_of_isPunctuation (show isPunctuation '-' = true by decide)]
    | false => simp [lastOf, hc]

theorem exists_of_plainMinus {text shorter longer : List Char} (h : plainMinus text = shorter ++ 'l' :: longer) :
    ∃ front rest, text = front ++ 'l' :: rest ∧ plainMinus front = shorter ∧ plainMinus rest = longer := by
  obtain ⟨front, back, rfl, hfront, hback⟩ := List.map_eq_append_iff.mp h
  obtain ⟨c, rest, rfl, hc, hrest⟩ := List.map_eq_cons_iff.mp hback
  have hletter : c = 'l' := by
    split at hc
    · cases hc
    · exact hc
  exact ⟨front, rest, by rw [hletter], hfront, hrest⟩

/-- Where a base is read, the name that begins there opens a logarithm. -/
theorem opensLogarithm_of_takeBase (h : (takeBase ('l' :: text)).isSome = true) :
    opensLogarithm ('l' :: text.takeWhile isNameChar) = true := by
  obtain ⟨⟨base, behind⟩, hbase⟩ := Option.isSome_iff_exists.mp h
  obtain ⟨b₁, b₂, hb₁, hb₂, htext, hne, hbases, -⟩ := takeBase_eq_some_iff.mp hbase
  have hnone {c : Char} (hc : isBlank c = true) : isNameChar c = false :=
    isNameChar_of_isSeparator (isSeparator_of_isBlank hc)
  have hname (c : Char) (hc : c ∈ ['o', 'g', '_']) : isNameChar c = true :=
    List.all_eq_true.mp (by decide : ['o', 'g', '_'].all isNameChar = true) c hc
  rw [(List.cons.inj htext).2, List.takeWhile_cons_of_pos (hname _ (by simp)),
    List.takeWhile_cons_of_pos (hname _ (by simp))]
  cases b₁ with
  | cons c b₁ =>
    -- Blanks behind the letters end the name.
    have hc : isBlank c = true := List.all_eq_true.mp hb₁ c (List.mem_cons_self ..)
    rw [List.cons_append, List.takeWhile_cons_of_neg (by simp [hnone hc])]
    rfl
  | nil =>
    rw [List.nil_append, List.takeWhile_cons_of_pos (hname _ (by simp))]
    cases b₂ with
    | cons c b₂ =>
      have hc : isBlank c = true := List.all_eq_true.mp hb₂ c (List.mem_cons_self ..)
      rw [List.cons_append, List.takeWhile_cons_of_neg (by simp [hnone hc])]
      rfl
    | nil =>
      obtain ⟨c, base, rfl⟩ := List.exists_cons_of_ne_nil hne
      have hc : isBaseChar c = true := hbases c (List.mem_cons_self ..)
      rw [List.nil_append, List.cons_append, List.takeWhile_cons]
      split
      · exact hc
      · rfl

/-! ### Texts of ordinary identifiers -/

/-- In a text of ordinary tokens no logarithm is read. -/
theorem noneLogarithm_of_ordinary (ordinary : ∀ token ∈ tokens text, token.Ordinary) :
    NoneLogarithm none (plainMinus text) := by
  refine everywhere_iff.mpr fun shorter c longer htext => readAt_eq_none_iff.mpr fun hboundary => ?_
  by_cases hc : c = 'l'
  · subst hc
    obtain ⟨front, rest, hletter, rfl, rfl⟩ := exists_of_plainMinus htext
    obtain ⟨outer, inner, rfl, hmem⟩ := mem_tokens_of_letter text hletter
    -- What stands before the letter in its name stands before it in the text.
    have hbefore : (lastOf none inner).any isWord = false := by
      rw [atBoundary, isWord_last_plainMinus, lastOf_append, List.head?_cons, Option.any_some,
        isWord_of_isIdentifierChar (show isIdentifierChar 'l' = true by decide), bne_iff_ne, ne_eq,
        Bool.not_eq_true] at hboundary
      cases inner with
      | nil => rfl
      | cons d inner => exact hboundary
    have hopens := (ordinary _ hmem : Everywhere _ none _).drop.1 hbefore
    cases hread : takeBase ('l' :: plainMinus rest) with
    | none => simp [takeLogarithm, hread]
    | some found =>
      have hsome := opensLogarithm_of_takeBase (Option.isSome_iff_exists.mpr ⟨found, hread⟩)
      rw [takeWhile_plainMinus, hopens] at hsome
      cases hsome
  · exact takeLogarithm_of_ne hc

end

/-- If no derivative is rewritten in an equation, canonical notation changes nothing but the signs for minus just where no
logarithm with a subscript is read; and none is if all identifiers are ordinary. -/
theorem canonicalize_ordinary (equation : String)
    (derivatives : plainDerivatives (plainMinus equation.toList) = plainMinus equation.toList) :
    (canonicalize equation = String.ofList (plainMinus equation.toList) ↔
      NoneLogarithm none (plainMinus equation.toList)) ∧
    ((∀ token ∈ tokens equation.toList, token.Ordinary) →
      canonicalize equation = String.ofList (plainMinus equation.toList)) := by
  have hcanonical : canonicalize equation = String.ofList (plainLogarithms (plainMinus equation.toList)) := by
    rw [canonicalize, canonicalText, derivatives]
  rw [hcanonical, String.ofList_inj, plainLogarithms_eq_self_iff]
  exact ⟨Iff.rfl, noneLogarithm_of_ordinary⟩

/-- For one with underscores, dashes, and names with the letters of a logarithm in them. -/
theorem canonicalize_ordinary_underscores :
    plainDerivatives (plainMinus "x_log_2 \u2212 log__b*logx(y_1_2 \u2013 log1p_2)".toList) =
      plainMinus "x_log_2 \u2212 log__b*logx(y_1_2 \u2013 log1p_2)".toList ∧
    (∀ token ∈ tokens "x_log_2 \u2212 log__b*logx(y_1_2 \u2013 log1p_2)".toList, token.Ordinary) ∧
    canonicalize "x_log_2 \u2212 log__b*logx(y_1_2 \u2013 log1p_2)" = "x_log_2 - log__b*logx(y_1_2 - log1p_2)" := by
  have derivatives : plainDerivatives (plainMinus "x_log_2 \u2212 log__b*logx(y_1_2 \u2013 log1p_2)".toList) =
      plainMinus "x_log_2 \u2212 log__b*logx(y_1_2 \u2013 log1p_2)".toList := by decide +kernel
  have ordinary : ∀ token ∈ tokens "x_log_2 \u2212 log__b*logx(y_1_2 \u2013 log1p_2)".toList, token.Ordinary := by
    decide +kernel
  exact ⟨derivatives, ordinary, ((canonicalize_ordinary _ derivatives).2 ordinary).trans (by decide +kernel)⟩

/-- Whether a token is the name of a logarithm, or has a base of letters and digits of ASCII behind that name. -/
def Token.IsSubscript : Token → Prop
  | .name f => f = "log".toList ∨ (f.take 4 = "log_".toList ∧ (f.drop 4).all (fun c => isLatin c || isAsciiDigit c) = true)
  | _ => False

instance : DecidablePred Token.IsSubscript
  | .name f => inferInstanceAs (Decidable (f = _ ∨ (f.take 4 = _ ∧ (f.drop 4).all _ = true)))
  | .number _ | .space _ | .symbol _ => inferInstanceAs (Decidable False)

/-- An identifier that goes on behind a base is cut into a logarithm and its argument. -/
theorem canonicalize_cut : canonicalize "log_a_b" = "log(_b, a)" ∧
    ¬ ∀ equation : String, plainDerivatives (plainMinus equation.toList) = plainMinus equation.toList →
      (∀ token ∈ tokens equation.toList, ¬ token.IsSubscript) →
        canonicalize equation = String.ofList (plainMinus equation.toList) := by
  have cut : canonicalize "log_a_b" = "log(_b, a)" := by decide +kernel
  have single : tokens "log_a_b".toList = [.name "log_a_b".toList] := by decide +kernel
  refine ⟨cut, fun ordinary => ?_⟩
  have same := ordinary "log_a_b" (by decide +kernel) fun token htoken => by
    rw [single, List.mem_singleton] at htoken
    rw [htoken]
    decide
  rw [cut] at same
  exact absurd same (by decide +kernel)

end OdeSystem.Notation
