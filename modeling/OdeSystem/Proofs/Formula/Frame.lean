import OdeSystem.Proofs.Formula.Regroup
import OdeSystem.Proofs.Text.Enclosed

/-!
Tokens in parentheses. What grows into a tree by itself grows so between parentheses, whatever unfinished trees stand
below, and is then placed as a whole. So a second pair of parentheses leads to the same tree, but for a group around a
group.
-/

namespace OdeSystem.Formula.Tree

/-! ### One token -/

/-- Adds a token to the stack of unfinished trees, given whether an operand stands before it and the token behind it. -/
def placeToken (afterOperand : Bool) (next : Option Token) (stack : List Tree) : Token → Except Fault (List Tree)
  | .openParen => .ok (emptyGroup :: stack)
  | .closeParen =>
    match stack with
    | top :: lower :: stack => (collapse top (lower :: stack)).bind fun (group, stack) => place group stack
    | _ => .error .unmatchedClosing
  | token =>
    match operator? afterOperand next token with
    | some op => place (leaf op) stack
    | none => .ok stack

theorem grow_cons (afterOperand : Bool) (token : Token) (rest : List Token) (stack : List Tree) :
    grow afterOperand (token :: rest) stack =
      (placeToken afterOperand rest.head? stack token).bind (grow token.endsOperand rest) := by
  cases token with
  | openParen => rfl
  | closeParen =>
    rcases stack with _ | ⟨top, _ | ⟨lower, stack⟩⟩
    · rfl
    · rfl
    · simp only [grow, placeToken]
      cases collapse top (lower :: stack) with
      | error fault => rfl
      | ok closed =>
        simp only [Except.bind]
        cases place closed.1 closed.2 <;> rfl
  | _ =>
    simp only [grow, placeToken]
    generalize operator? afterOperand rest.head? _ = op
    cases op with
    | none => rfl
    | some op =>
      dsimp only
      cases place (leaf op) stack <;> rfl

theorem placeToken_paired {stack stack' : List Tree} (h : Paired stack stack') (afterOperand : Bool)
    (next : Option Token) (token : Token) :
    Matched Eq Paired (placeToken afterOperand next stack token) (placeToken afterOperand next stack' token) := by
  cases token with
  | openParen => exact .ok h.emptyGroup
  | closeParen =>
    obtain ⟨trees, settled⟩ := h
    cases trees with
    | nil => exact .error rfl
    | @cons top top' _ _ htop hstack =>
      cases hstack with
      | nil => exact .error rfl
      | @cons lower lower' stack stack' hlower hstack =>
        have hcollapse : Matched Eq (fun r r' => Level r.1 r'.1 ∧ Paired r.2 r'.2)
            (collapse top (lower :: stack)) (collapse top' (lower' :: stack')) :=
          (htop.collapse (.cons hlower hstack)).imp_ok fun _ _ hr hvalues =>
            ⟨hvalues.1, hvalues.2, collapse_settled settled.tail hr⟩
        exact hcollapse.bind fun _ _ h => place_paired h.1.regrouped h.2
  | _ =>
    simp only [placeToken]
    split
    · exact place_paired (.refl _) h
    · exact .ok h

/-! ### Tokens between parentheses -/

section
variable {top t new : Tree} {stack stack' : List Tree}

theorem collapseTo_append {precedence : Nat} (h : collapseTo precedence top stack = .ok (t, stack'))
    (more : List Tree) : collapseTo precedence top (stack ++ more) = .ok (t, stack' ++ more) := by
  induction stack generalizing top with
  | nil => cases h
  | cons lower stack ih =>
    unfold collapseTo at h
    rw [List.cons_append]
    unfold collapseTo
    split at h
    · rename_i hlt
      rw [if_pos hlt, ih h]
    · rename_i hlt
      cases h
      rw [if_neg hlt]
      rfl

theorem collapse_append (h : collapse top stack = .ok (t, stack')) (more : List Tree) :
    collapse top (stack ++ more) = .ok (t, stack' ++ more) := by
  induction stack generalizing top with
  | nil =>
    unfold collapse at h
    split at h
    · rename_i hgroup
      split at h
      · cases h
      · rename_i hone
        cases h
        cases more <;> simp [collapse, hgroup, hone]
    · cases h
  | cons lower stack ih =>
    unfold collapse at h
    rw [List.cons_append]
    unfold collapse
    split at h
    · rename_i hgroup
      rw [if_pos hgroup]
      split at h
      · cases h
      · rename_i hone
        cases h
        rw [if_neg hone]
        rfl
    · rename_i hgroup
      rw [if_neg hgroup, ih h]

/-- What closing parentheses leave is a group with at most one operand. -/
theorem group_of_collapse (h : collapse top stack = .ok (t, stack')) : t.op = .group ∧ t.children.length ≤ 1 := by
  have hgroup {t : Tree} (hop : t.op.isGroup = true) : t.op = .group := by
    cases ht : t.op <;> simp [ht, Operator.isGroup] at hop ⊢
  induction stack generalizing top with
  | nil =>
    unfold collapse at h
    split at h
    · rename_i hop
      split at h
      · cases h
      · cases h
        exact ⟨hgroup hop, by omega⟩
    · cases h
  | cons lower stack ih =>
    unfold collapse at h
    split at h
    · rename_i hop
      split at h
      · cases h
      · cases h
        exact ⟨hgroup hop, by omega⟩
    · exact ih h

theorem placeSeparator_append {separator : Operator} (h : placeSeparator separator top stack = .ok stack')
    (more : List Tree) : placeSeparator separator top (stack ++ more) = .ok (stack' ++ more) := by
  unfold placeSeparator at h ⊢
  split at h
  · rename_i hsame
    cases h
    rw [if_pos hsame]
    rfl
  · rename_i hsame
    rw [if_neg hsame]
    split at h
    · rename_i hgroup
      cases h
      rw [if_pos hgroup]
      rfl
    · rename_i hgroup
      rw [if_neg hgroup]
      split at h
      · rename_i hlt
        rw [if_pos hlt]
        split at h <;> (cases h; rfl)
      · rename_i hlt
        obtain ⟨⟨top', rest⟩, hcollapse, rfl⟩ := exists_of_map_eq_ok h
        rw [if_neg hlt, collapseTo_append hcollapse]
        rfl

theorem place_append (h : place new stack = .ok stack') (more : List Tree) :
    place new (stack ++ more) = .ok (stack' ++ more) := by
  cases stack with
  | nil => cases h
  | cons top stack =>
    simp only [place, List.cons_append] at h ⊢
    split at h
    · rename_i hsequence
      rw [if_pos hsequence, placeSeparator_append h]
    · rename_i hsequence
      rw [if_neg hsequence]
      split at h
      · rename_i htop
        obtain ⟨children, hinsert, rfl⟩ := exists_of_map_eq_ok h
        rw [if_pos htop, hinsert]
        rfl
      · rename_i htop
        obtain ⟨top', hinsert, rfl⟩ := exists_of_map_eq_ok h
        rw [if_neg htop, hinsert]
        rfl

theorem placeToken_append {afterOperand : Bool} {next : Option Token} {token : Token}
    (h : placeToken afterOperand next stack token = .ok stack') (more : List Tree) :
    placeToken afterOperand next (stack ++ more) token = .ok (stack' ++ more) := by
  cases token with
  | openParen =>
    cases h
    rfl
  | closeParen =>
    simp only [placeToken] at h ⊢
    split at h
    · rename_i top lower stack
      obtain ⟨⟨group, rest⟩, hcollapse, hplace⟩ := bind_eq_ok.mp h
      have hmore := collapse_append hcollapse more
      rw [List.cons_append] at hmore
      simp only [List.cons_append, hmore, Except.bind]
      exact place_append hplace more
    · cases h
  | _ =>
    simp only [placeToken] at h ⊢
    split at h
    · exact place_append h more
    · cases h
      rfl

/-- A closing parenthesis behind a token is as good as the end. -/
theorem placeToken_before_closing (afterOperand : Bool) (stack : List Tree) (token : Token) :
    placeToken afterOperand (some .closeParen) stack token = placeToken afterOperand none stack token := by
  cases token <;> rfl

theorem grow_append {afterOperand : Bool} {inner : List Token} (h : grow afterOperand inner stack = .ok stack')
    (rest : List Token) :
    ∃ behind, ∀ more, grow afterOperand (inner ++ .closeParen :: rest) (stack ++ more) =
      grow behind (.closeParen :: rest) (stack' ++ more) := by
  induction inner generalizing afterOperand stack with
  | nil =>
    cases h
    exact ⟨afterOperand, fun _ => rfl⟩
  | cons token inner ih =>
    rw [grow_cons] at h
    obtain ⟨between, hplace, hgrow⟩ := bind_eq_ok.mp h
    obtain ⟨behind, hbehind⟩ := ih hgrow
    refine ⟨behind, fun more => ?_⟩
    have hnext : placeToken afterOperand (inner ++ .closeParen :: rest).head? (stack ++ more) token =
        .ok (between ++ more) := by
      cases inner with
      | nil => exact (placeToken_before_closing _ _ _).trans (placeToken_append hplace more)
      | cons _ _ => exact placeToken_append hplace more
    rw [List.cons_append, grow_cons, hnext]
    exact hbehind more

end

section
variable {inner : List Token} {group : Tree}

/-- What has a tree by itself is placed as that tree when it stands between parentheses. -/
theorem grow_group (h : ofTokens inner = .ok group) (afterOperand : Bool) (rest : List Token) (stack : List Tree) :
    grow afterOperand (.openParen :: (inner ++ .closeParen :: rest)) stack =
      (place group stack).bind (grow true rest) := by
  unfold ofTokens at h
  split at h
  · cases h
  · cases h
  · rename_i top above hgrow
    split at h
    · cases h
    · rename_i hcollapse
      cases h
      obtain ⟨behind, hinner⟩ := grow_append hgrow rest
      have hclosing : placeToken behind rest.head? (top :: above ++ stack) .closeParen = place group stack := by
        have hmore := collapse_append hcollapse stack
        rw [List.cons_append]
        cases hbelow : above ++ stack with
        | nil =>
          obtain ⟨-, rfl⟩ := List.append_eq_nil_iff.mp hbelow
          rfl
        | cons lower below =>
          rw [hbelow] at hmore
          simp only [placeToken, hmore, Except.bind, List.nil_append]
      rw [grow_cons]
      refine (hinner stack).trans ?_
      rw [grow_cons, hclosing]
      rfl
    · cases h

/-- The tree of tokens is a group, which has an operand unless it is empty. -/
theorem exists_operand_of_ofTokens (h : ofTokens inner = .ok group) (hne : group.children ≠ []) :
    ∃ t, group = node .group [t] := by
  unfold ofTokens at h
  split at h
  · cases h
  · cases h
  · split at h
    · cases h
    · rename_i hcollapse
      cases h
      obtain ⟨hop, hlength⟩ := group_of_collapse hcollapse
      obtain ⟨op, children⟩ := group
      obtain rfl : op = .group := hop
      rcases children with _ | ⟨t, _ | ⟨_, _⟩⟩
      · exact absurd rfl hne
      · exact ⟨t, rfl⟩
      · simp [children] at hlength
    · cases h

/-- Parentheses around all tokens become a group around the tree. -/
theorem ofTokens_parenthesized (h : ofTokens inner = .ok group) (hne : group.children ≠ []) :
    ofTokens (.openParen :: (inner ++ [.closeParen])) = .ok (node .group [group]) := by
  obtain ⟨t, rfl⟩ := exists_operand_of_ofTokens h hne
  unfold ofTokens
  rw [grow_group h]
  rfl

end

/-! ### Second parentheses -/

section
variable {xs ys : List Token}

/-- What stands before two lists of tokens does not tell them apart if they begin with the same token. -/
theorem grow_front (hhead : xs.head? = ys.head?)
    (hgrow : ∀ afterOperand stack stack', Paired stack stack' →
      Matched Eq Paired (grow afterOperand xs stack) (grow afterOperand ys stack'))
    (front : List Token) (afterOperand : Bool) {stack stack' : List Tree} (h : Paired stack stack') :
    Matched Eq Paired (grow afterOperand (front ++ xs) stack) (grow afterOperand (front ++ ys) stack') := by
  induction front generalizing afterOperand stack stack' with
  | nil => exact hgrow _ _ _ h
  | cons token front ih =>
    have hnext : (front ++ xs).head? = (front ++ ys).head? := by
      cases front with
      | nil => exact hhead
      | cons _ _ => rfl
    rw [List.cons_append, List.cons_append, grow_cons, grow_cons, hnext]
    exact (placeToken_paired h _ _ token).bind fun _ _ => ih _

/-- Whether tokens have a tree by themselves, and one that is not empty. -/
def GrowsAlone (inner : List Token) : Prop := ∃ group, ofTokens inner = .ok group ∧ group.children ≠ []

theorem grow_enclosed (h : Enclosed .openParen .closeParen GrowsAlone xs ys) (afterOperand : Bool)
    {stack stack' : List Tree} (hstack : Paired stack stack') :
    Matched Eq Paired (grow afterOperand xs stack) (grow afterOperand ys stack') := by
  induction h generalizing afterOperand stack stack' with
  | plain xs =>
    have hnil (afterOperand : Bool) (stack stack' : List Tree) (h : Paired stack stack') :
        Matched Eq Paired (grow afterOperand [] stack) (grow afterOperand [] stack') := .ok h
    have hgrow := grow_front (by rfl) hnil xs afterOperand hstack
    rwa [List.append_nil] at hgrow
  | @group front inner xs ys hinner _ ih =>
    obtain ⟨tree, htree, hne⟩ := hinner
    have hgroup (afterOperand : Bool) (stack stack' : List Tree) (hstack : Paired stack stack') :
        Matched Eq Paired (grow afterOperand (.openParen :: (inner ++ .closeParen :: xs)) stack)
          (grow afterOperand (.openParen :: .openParen :: (inner ++ .closeParen :: .closeParen :: ys)) stack') := by
      have hsecond := grow_group (ofTokens_parenthesized htree hne) afterOperand ys stack'
      rw [List.cons_append, List.append_assoc, List.singleton_append] at hsecond
      rw [grow_group htree, hsecond]
      obtain ⟨t, rfl⟩ := exists_operand_of_ofTokens htree hne
      exact (place_paired (.wrap (.refl _)) hstack).bind fun _ _ => ih _
    exact grow_front (by rfl) hgroup front afterOperand hstack

/-- Second parentheses lead to the same tree but for groups around groups, or to the same fault. -/
theorem ofTokens_enclosed (h : Enclosed .openParen .closeParen GrowsAlone xs ys) :
    Matched Eq Regrouped (ofTokens xs) (ofTokens ys) := by
  unfold ofTokens
  rcases (grow_enclosed h false paired_emptyGroup).ok_or_error with
    ⟨stack, stack', hxs, hys, trees, -⟩ | ⟨fault, fault', hxs, hys, rfl⟩
  · rw [hxs, hys]
    cases trees with
    | nil => exact .error rfl
    | cons htop hstack =>
      dsimp only
      rcases (htop.collapse hstack).ok_or_error with
        ⟨⟨group, rest⟩, ⟨group', rest'⟩, hgroup, hgroup', hlevel, hrest⟩ | ⟨fault, fault', hgroup, hgroup', rfl⟩
      · rw [hgroup, hgroup']
        cases hrest with
        | nil => exact .ok hlevel.regrouped
        | cons _ _ => exact .error rfl
      · rw [hgroup, hgroup']
        exact .error rfl
  · rw [hxs, hys]
    exact .error rfl

end

end OdeSystem.Formula.Tree
