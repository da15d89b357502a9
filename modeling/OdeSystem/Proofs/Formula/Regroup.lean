import Mathlib.Data.List.Chain
import Mathlib.Data.List.Forall2
import OdeSystem.Formula.Eval
import OdeSystem.Proofs.Formula.Tree

/-!
Groups around groups. A tree that has further groups around some of its groups has the same value and reads the same
names. Nodes find their places alike in both, for a node goes into a closed group or takes it over whatever groups stand
around it, and only at the top of an unfinished tree could it tell them apart.
-/

namespace OdeSystem.Formula.Tree

/-- Trees that are the same but for groups: around a group with something in it the other may have further ones. -/
inductive Regrouped : Tree → Tree → Prop
  | node (op : Operator) {children children' : List Tree} (h : List.Forall₂ Regrouped children children') :
      Regrouped (node op children) (node op children')
  | wrap {t t' : Tree} (h : Regrouped (node .group [t]) t') : Regrouped (node .group [t]) (node .group [t'])

mutual
theorem Regrouped.refl : ∀ t, Regrouped t t
  | .node op children => .node op (regrouped_all children)

theorem regrouped_all : ∀ ts, List.Forall₂ Regrouped ts ts
  | [] => .nil
  | t :: rest => .cons (Regrouped.refl t) (regrouped_all rest)
end

section
variable {t t' : Tree}

theorem Regrouped.op_eq (h : Regrouped t t') : t.op = t'.op := by
  cases h <;> rfl

theorem Regrouped.isEmpty_eq (h : Regrouped t t') : t.children.isEmpty = t'.children.isEmpty := by
  cases h with
  | node op h => cases h <;> rfl
  | wrap h => rfl

end

/-! ### Values and names -/

section
variable {lookup : String → Option Float}

theorem eval_group (t : Tree) : (node .group [t]).eval lookup = t.eval lookup := by
  simp only [eval, evalAll]
  cases t.eval lookup <;> rfl

mutual
theorem Regrouped.eval_eq : ∀ {t t' : Tree}, Regrouped t t' → t.eval lookup = t'.eval lookup
  | _, _, .node op h => by simp only [eval, evalAll_regrouped h]
  | _, _, .wrap h => h.eval_eq.trans (eval_group _).symm

theorem evalAll_regrouped : ∀ {ts ts' : List Tree}, List.Forall₂ Regrouped ts ts' →
    evalAll lookup ts = evalAll lookup ts'
  | _, _, .nil => rfl
  | _, _, .cons h rest => by simp only [evalAll, h.eval_eq, evalAll_regrouped rest]
end

mutual
theorem Regrouped.names_eq : ∀ {t t' : Tree}, Regrouped t t' → t.names = t'.names
  | _, _, .node op h => by
    have hall := namesAll_regrouped h
    cases op with
    | read name => rfl
    | _ => exact hall
  | _, _, .wrap h => h.names_eq.trans (List.append_nil _).symm

theorem namesAll_regrouped : ∀ {ts ts' : List Tree}, List.Forall₂ Regrouped ts ts' → namesAll ts = namesAll ts'
  | _, _, .nil => rfl
  | _, _, .cons h rest => by simp only [namesAll, h.names_eq, namesAll_regrouped rest]
end

end

/-! ### Nodes find their places -/

/-- What is inserted into a group with something in it leaves such a group. -/
theorem exists_group_of_insert {new t u : Tree} {force : Bool} (h : insert new force (node .group [t]) = .ok u) :
    ∃ s, u = node .group [s] := by
  unfold insert at h
  split at h
  · cases h
  · obtain ⟨children, hchildren, rfl⟩ := exists_of_map_eq_ok h
    unfold insertLast at hchildren
    split at hchildren
    · obtain ⟨s, -, rfl⟩ := exists_of_map_eq_ok hchildren
      exact ⟨s, rfl⟩
    · obtain ⟨s, -, rfl⟩ := exists_of_map_eq_ok hchildren
      exact ⟨s, rfl⟩

theorem insert_group (new t : Tree) : insert new false (node .group [t]) =
    if Operator.group.binds new.op then (insertLast new .group [t]).map (node .group)
    else .error .precedenceViolation := by
  unfold insert
  cases Operator.group.binds new.op <;> rfl

section
variable {new new' : Tree} (hnew : Regrouped new new')
include hnew

theorem takeOver_regrouped (upper : Operator) {last last' : Tree} (h : Regrouped last last') :
    Matched Eq Regrouped (takeOver upper new last) (takeOver upper new' last') := by
  unfold takeOver
  rw [hnew.op_eq, hnew.isEmpty_eq, h.op_eq]
  split
  · exact .error rfl
  · split
    · exact .error rfl
    · rename_i hgroup
      cases hnew with
      | node op hchildren => exact .ok (.node op (List.rel_append hchildren (.cons h .nil)))
      | wrap => simp [op, children, Operator.isGroup] at hgroup

mutual
theorem insert_regrouped : ∀ {t t' : Tree}, Regrouped t t' →
    Matched Eq Regrouped (insert new false t) (insert new' false t')
  | _, _, .node op h => by
    unfold insert
    rw [hnew.op_eq, h.length_eq]
    split
    · exact .error rfl
    · split
      · exact .error rfl
      · split
        · exact .ok (.node op (List.rel_append h (.cons hnew .nil)))
        · exact (insertLast_regrouped op h).map fun _ _ => .node op
  | _, _, @Regrouped.wrap t t' h => by
    have hinner := insert_regrouped h
    cases hbinds : Operator.group.binds new.op with
    | true =>
      -- The node goes on into the inner group.
      have houter : insert new' false (node .group [t']) =
          (insert new' false t').map fun inner => node .group [inner] := by
        have hop : t'.op = .group := h.op_eq.symm
        rw [hnew.op_eq] at hbinds
        rw [insert_group, hbinds, if_pos rfl, insertLast, hop, hbinds, if_pos rfl]
        cases insert new' false t' <;> rfl
      rw [houter]
      rcases hinner.ok_or_error with ⟨u, u', hu, hu', h⟩ | ⟨fault, fault', hu, hu', rfl⟩
      · obtain ⟨s, rfl⟩ := exists_group_of_insert hu
        rw [hu, hu']
        exact .ok (.wrap h)
      · rw [hu, hu']
        exact .error rfl
    | false =>
      rw [insert_group, insert_group, ← hnew.op_eq, hbinds]
      exact .error rfl

theorem insertLast_regrouped (upper : Operator) : ∀ {ts ts' : List Tree}, List.Forall₂ Regrouped ts ts' →
    Matched Eq (List.Forall₂ Regrouped) (insertLast new upper ts) (insertLast new' upper ts')
  | _, _, .nil => .ok (.cons hnew .nil)
  | _, _, .cons h .nil => by
    unfold insertLast
    rw [h.op_eq, hnew.op_eq]
    split
    · exact (insert_regrouped h).map fun _ _ h => .cons h .nil
    · exact (takeOver_regrouped hnew upper h).map fun _ _ h => .cons h .nil
  | _, _, .cons h (.cons hnext rest) => by
    unfold insertLast
    exact (insertLast_regrouped upper (.cons hnext rest)).map fun _ _ => .cons h
end

end

/-! ### Unfinished trees -/

/-- Trees that are the same but for groups below their top. -/
inductive Level : Tree → Tree → Prop
  | node (op : Operator) {children children' : List Tree} (h : List.Forall₂ Regrouped children children') :
      Level (node op children) (node op children')

namespace Level
variable {t t' child child' new new' : Tree}

theorem regrouped (h : Level t t') : Regrouped t t' := by
  cases h with
  | node op h => exact .node op h

theorem op_eq (h : Level t t') : t.op = t'.op := h.regrouped.op_eq

theorem length_eq (h : Level t t') : t.children.length = t'.children.length := by
  cases h with
  | node op h => exact h.length_eq

theorem push (h : Level t t') (hchild : Regrouped child child') : Level (t.push child) (t'.push child') := by
  cases h with
  | node op h => exact .node op (List.rel_append h (.cons hchild .nil))

/-- A node is let in at the top alike, since the groups there are the same. -/
theorem insert (hnew : Regrouped new new') (h : Level t t') :
    Matched Eq Level (insert new true t) (insert new' true t') := by
  cases h with
  | node op h =>
    unfold Tree.insert
    rw [hnew.op_eq, h.length_eq]
    split
    · exact .error rfl
    · split
      · exact .error rfl
      · split
        · exact .ok (.node op (List.rel_append h (.cons hnew .nil)))
        · exact (insertLast_regrouped hnew op h).map fun _ _ => .node op

theorem insertBehindSeparator (hnew : Regrouped new new') {ts ts' : List Tree} (hne : ts ≠ [])
    (h : List.Forall₂ Level ts ts') :
    Matched Eq (List.Forall₂ Level) (insertBehindSeparator new ts) (insertBehindSeparator new' ts') := by
  induction h with
  | nil => exact absurd rfl hne
  | cons h rest ih =>
    cases rest with
    | nil => exact (h.insert hnew).map fun _ _ h => .cons h .nil
    | cons hnext rest => exact (ih (List.cons_ne_nil _ _)).map fun _ _ => .cons h

end Level

theorem forall₂_concat {α β : Type} {R : α → β → Prop} {xs : List α} {ys : List β} (h : List.Forall₂ R xs ys) :
    (xs = [] ∧ ys = []) ∨ ∃ front last front' last', xs = front ++ [last] ∧ ys = front' ++ [last'] ∧
      List.Forall₂ R front front' ∧ R last last' := by
  induction h with
  | nil => exact .inl ⟨rfl, rfl⟩
  | @cons x y xs ys hxy _ ih =>
    rcases ih with ⟨rfl, rfl⟩ | ⟨front, last, front', last', rfl, rfl, hfront, hlast⟩
    · exact .inr ⟨[], x, [], y, rfl, rfl, .nil, hxy⟩
    · exact .inr ⟨x :: front, last, y :: front', last', rfl, rfl, .cons hxy hfront, hlast⟩

/-- Only a sequence binds less tightly than a separator. -/
theorem isSequence_of_precedence_lt {op separator : Operator} (hseparator : separator.isSequence = true)
    (h : op.precedence < separator.precedence) : op.isSequence = true := by
  have hlt : op.precedence < 40 := by
    cases separator with
    | tuple => exact h
    | chain => exact absurd h (Nat.not_lt_zero _)
    | _ => cases hseparator
  cases op with
  | tuple | chain => rfl
  | arithmetic operation => cases operation <;> simp [Operator.precedence] at hlt
  | _ => simp [Operator.precedence] at hlt

/-- Unfinished trees that are the same but for groups below their top and, in sequences, below the tops of the parts. -/
structure Open (t t' : Tree) : Prop where
  level : Level t t'
  parts : t.op.isSequence = true → List.Forall₂ Level t.children t'.children

namespace Open
variable {t t' top top' : Tree} {stack stack' : List Tree}

theorem emptyGroup : Open emptyGroup emptyGroup := ⟨.node _ .nil, fun _ => .nil⟩

theorem push (h : Open t t') (hchild : Level top top') : Open (t.push top) (t'.push top') :=
  ⟨h.level.push hchild.regrouped, fun hop => List.rel_append (h.parts hop) (.cons hchild .nil)⟩

theorem sequence {op : Operator} {ts ts' : List Tree} (h : List.Forall₂ Level ts ts') :
    Open (node op ts) (node op ts') :=
  ⟨.node op (h.imp fun _ _ => Level.regrouped), fun _ => h⟩

theorem collapseTo {precedence : Nat} (htop : Open top top') (h : List.Forall₂ Open stack stack') :
    Matched Eq (fun r r' => Open r.1 r'.1 ∧ List.Forall₂ Open r.2 r'.2) (collapseTo precedence top stack)
      (collapseTo precedence top' stack') := by
  induction h generalizing top top' with
  | nil => exact .error rfl
  | cons hlower hstack ih =>
    unfold Tree.collapseTo
    rw [hlower.level.op_eq]
    split
    · exact ih (hlower.push htop.level)
    · exact .ok ⟨htop, .cons hlower hstack⟩

theorem collapse (htop : Open top top') (h : List.Forall₂ Open stack stack') :
    Matched Eq (fun r r' => Level r.1 r'.1 ∧ List.Forall₂ Open r.2 r'.2) (collapse top stack)
      (collapse top' stack') := by
  induction h generalizing top top' with
  | nil =>
    unfold Tree.collapse
    rw [htop.level.op_eq, htop.level.length_eq]
    split
    · split
      · exact .error rfl
      · exact .ok ⟨htop.level, .nil⟩
    · exact .error rfl
  | cons hlower hstack ih =>
    unfold Tree.collapse
    rw [htop.level.op_eq, htop.level.length_eq]
    split
    · split
      · exact .error rfl
      · exact .ok ⟨htop.level, .cons hlower hstack⟩
    · exact ih (hlower.push htop.level)

theorem placeSeparator {separator : Operator} (hseparator : separator.isSequence = true) (htop : Open top top')
    (h : List.Forall₂ Open stack stack') :
    Matched Eq (List.Forall₂ Open) (placeSeparator separator top stack) (placeSeparator separator top' stack') := by
  have hempty : Level Tree.emptyGroup Tree.emptyGroup := emptyGroup.level
  unfold Tree.placeSeparator
  rw [htop.level.op_eq]
  split
  · exact .ok (.cons (htop.push hempty) h)
  · split
    · exact .ok (.cons (sequence (.cons htop.level (.cons hempty .nil))) (.cons emptyGroup h))
    · split
      · rename_i hlt
        rw [← htop.level.op_eq] at hlt
        rcases forall₂_concat (htop.parts (isSequence_of_precedence_lt hseparator hlt)) with
          ⟨hnil, hnil'⟩ | ⟨front, last, front', last', hconcat, hconcat', hfront, hlast⟩
        · rw [hnil, hnil']
          exact .ok (.cons (sequence (.cons hempty .nil)) (.cons htop h))
        · simp only [hconcat, hconcat', List.getLast?_concat, List.dropLast_concat]
          exact .ok (.cons (sequence (.cons hlast (.cons hempty .nil))) (.cons (sequence hfront) h))
      · exact (htop.collapseTo h).map fun _ _ h => .cons (sequence (.cons h.1.level .nil)) h.2

end Open

/-! ### Sequences without parts -/

/-- Whether what stands below a tree is no sequence without parts, if the tree is a group. -/
def Carries (upper lower : Tree) : Prop :=
  upper.op.isGroup = true → lower.op.isSequence = true → lower.children ≠ []

/-- Stacks with no sequence without parts on top or below a group. Such sequences come up when a tuple begins with the
last part of a chain, and the tuple then stands on them. -/
def Settled (stack : List Tree) : Prop := (emptyGroup :: stack).IsChain Carries

section
variable {t new top : Tree} {stack stack' : List Tree}

theorem isChain_congr (h : (top :: stack).IsChain Carries) (hop : t.op = top.op) : (t :: stack).IsChain Carries := by
  cases stack with
  | nil => exact .singleton t
  | cons lower stack =>
    rw [List.isChain_cons_cons] at h ⊢
    exact ⟨fun hgroup => h.1 (hop ▸ hgroup), h.2⟩

theorem isChain_sequence (hop : t.op.isSequence = true) (h : stack.IsChain Carries) :
    (t :: stack).IsChain Carries := by
  cases stack with
  | nil => exact .singleton t
  | cons lower stack =>
    refine List.isChain_cons_cons.mpr ⟨fun hgroup => ?_, h⟩
    cases ht : t.op <;> simp [ht, Operator.isGroup, Operator.isSequence] at hop hgroup

theorem settled_cons (hparts : t.op.isSequence = true → t.children ≠ []) (h : (t :: stack).IsChain Carries) :
    Settled (t :: stack) :=
  List.isChain_cons_cons.mpr ⟨fun _ => hparts, h⟩

theorem settled_of_isGroup (hop : top.op.isGroup = true) (h : (top :: stack).IsChain Carries) : Settled stack := by
  cases stack with
  | nil => exact .singleton _
  | cons lower stack =>
    rw [List.isChain_cons_cons] at h
    exact List.isChain_cons_cons.mpr ⟨fun _ => h.1 hop, h.2⟩

theorem push_children_ne_nil (t child : Tree) : (t.push child).children ≠ [] := by
  simp [push, children]

theorem isChain_of_collapseTo {precedence : Nat} {top' : Tree} (h : stack.IsChain Carries)
    (hcollapse : collapseTo precedence top stack = .ok (top', stack')) : stack'.IsChain Carries := by
  induction stack generalizing top with
  | nil => cases hcollapse
  | cons lower stack ih =>
    unfold collapseTo at hcollapse
    split at hcollapse
    · exact ih h.tail hcollapse
    · cases hcollapse
      exact h

theorem collapse_settled {group : Tree} (h : (top :: stack).IsChain Carries)
    (hcollapse : collapse top stack = .ok (group, stack')) : Settled stack' := by
  induction stack generalizing top with
  | nil =>
    unfold collapse at hcollapse
    split at hcollapse
    · split at hcollapse
      · cases hcollapse
      · cases hcollapse
        exact .singleton _
    · cases hcollapse
  | cons lower stack ih =>
    unfold collapse at hcollapse
    split at hcollapse
    · split at hcollapse
      · cases hcollapse
      · rename_i hgroup _
        cases hcollapse
        exact settled_of_isGroup hgroup h
    · exact ih (isChain_congr (t := lower.push top) h.tail rfl) hcollapse

theorem placeSeparator_settled {separator : Operator} (hseparator : separator.isSequence = true)
    (h : Settled (top :: stack)) (hplace : placeSeparator separator top stack = .ok stack') : Settled stack' := by
  have hstack : (top :: stack).IsChain Carries := List.IsChain.tail h
  -- The new sequence has parts, and what stands below it does not matter.
  have hnew {ts below : List Tree} (hne : ts ≠ []) (hbelow : below.IsChain Carries) :
      Settled (node separator ts :: below) :=
    settled_cons (fun _ => hne) (isChain_sequence hseparator hbelow)
  unfold placeSeparator at hplace
  split at hplace
  · cases hplace
    exact settled_cons (fun _ => push_children_ne_nil _ _) (isChain_congr hstack rfl)
  · split at hplace
    · rename_i hgroup
      cases hplace
      exact hnew (List.cons_ne_nil _ _) (settled_of_isGroup hgroup hstack)
    · split at hplace
      · split at hplace
        · cases hplace
          exact hnew (List.cons_ne_nil _ _) (isChain_congr hstack rfl)
        · cases hplace
          exact hnew (List.cons_ne_nil _ _) hstack
      · obtain ⟨⟨top', rest⟩, hcollapse, rfl⟩ := exists_of_map_eq_ok hplace
        exact hnew (List.cons_ne_nil _ _) (isChain_of_collapseTo hstack.tail hcollapse)

theorem insertBehindSeparator_ne_nil {children children' : List Tree}
    (h : insertBehindSeparator new children = .ok children') : children' ≠ [] := by
  fun_induction insertBehindSeparator new children generalizing children' with
  | case1 =>
    cases h
    exact List.cons_ne_nil _ _
  | case2 last =>
    obtain ⟨_, -, rfl⟩ := exists_of_map_eq_ok h
    exact List.cons_ne_nil _ _
  | case3 first rest _ _ =>
    obtain ⟨_, -, rfl⟩ := exists_of_map_eq_ok h
    exact List.cons_ne_nil _ _

theorem place_settled (h : Settled stack) (hplace : place new stack = .ok stack') : Settled stack' := by
  cases stack with
  | nil => cases hplace
  | cons top stack =>
    have hstack : (top :: stack).IsChain Carries := List.IsChain.tail h
    simp only [place] at hplace
    split at hplace
    · rename_i hsequence
      exact placeSeparator_settled hsequence h hplace
    · split at hplace
      · obtain ⟨children, hinsert, rfl⟩ := exists_of_map_eq_ok hplace
        exact settled_cons (fun _ => insertBehindSeparator_ne_nil hinsert) (isChain_congr hstack rfl)
      · rename_i hsequence
        obtain ⟨top', hinsert, rfl⟩ := exists_of_map_eq_ok hplace
        have hop : top'.op = top.op := op_of_insert hinsert
        exact settled_cons (fun hsequence' => absurd (hop ▸ hsequence') hsequence) (isChain_congr hstack hop)

end

/-! ### The stack of unfinished trees -/

/-- Stacks of unfinished trees that are the same but for groups in the operands. -/
structure Paired (stack stack' : List Tree) : Prop where
  trees : List.Forall₂ Open stack stack'
  settled : Settled stack

section
variable {new new' : Tree} {stack stack' : List Tree}

theorem paired_emptyGroup : Paired [emptyGroup] [emptyGroup] :=
  ⟨.cons .emptyGroup .nil, settled_cons (by rintro ⟨⟩) (.singleton _)⟩

theorem Paired.emptyGroup (h : Paired stack stack') : Paired (emptyGroup :: stack) (Tree.emptyGroup :: stack') :=
  ⟨.cons .emptyGroup h.trees, settled_cons (by rintro ⟨⟩) h.settled⟩

/-- A node is placed alike whatever groups stand around groups, in it and in the trees so far. -/
theorem place_paired (hnew : Regrouped new new') (h : Paired stack stack') :
    Matched Eq Paired (place new stack) (place new' stack') := by
  have hplace : Matched Eq (List.Forall₂ Open) (place new stack) (place new' stack') := by
    obtain ⟨trees, settled⟩ := h
    cases trees with
    | nil => exact .error rfl
    | @cons top top' stack stack' htop hstack =>
      simp only [place]
      rw [← hnew.op_eq, ← htop.level.op_eq]
      split
      · rename_i hsequence
        exact htop.placeSeparator hsequence hstack
      · split
        · rename_i hsequence
          have hne : top.children ≠ [] := (List.isChain_cons_cons.mp settled).1 rfl hsequence
          exact (Level.insertBehindSeparator hnew hne (htop.parts hsequence)).map fun _ _ h =>
            .cons (.sequence h) hstack
        · rename_i hsequence
          have hinsert : Matched Eq Open (insert new true top) (insert new' true top') :=
            (htop.level.insert hnew).imp_ok fun _ _ hu hlevel =>
              ⟨hlevel, fun hop => absurd (op_of_insert hu ▸ hop) hsequence⟩
          exact hinsert.map fun _ _ h => .cons h hstack
  exact hplace.imp_ok fun _ _ hnext trees => ⟨trees, place_settled h.settled hnext⟩

end

end OdeSystem.Formula.Tree
