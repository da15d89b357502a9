import OdeSystem.Formula.Tree
import OdeSystem.Proofs.Logged

/-!
The shape of trees. A node finds its place as an operand of a node that takes operands, so in the tree of a formula the
leaves have none: constants, targets and the names that are read. What a formula reads is therefore all that its leaves
read.
-/

namespace OdeSystem.Formula.Tree

/-- Trees in which no leaf has operands. -/
inductive Proper : Tree → Prop
  | intro {op : Operator} {children : List Tree} (leaf : op.isLeaf = true → children = [])
    (operands : ∀ t ∈ children, Proper t) : Proper (node op children)

/-- Unfinished trees: proper ones that take further operands. -/
def Unfinished (stack : List Tree) : Prop := ∀ t ∈ stack, t.Proper ∧ t.op.isLeaf = false

theorem proper_leaf (op : Operator) : (leaf op).Proper :=
  .intro (fun _ => rfl) fun _ h => nomatch h

theorem Proper.operands {t : Tree} (h : t.Proper) : ∀ child ∈ t.children, child.Proper := by
  cases h with
  | intro _ operands => exact operands

/-- A node that takes operands, with proper ones. -/
theorem proper_node {op : Operator} {children : List Tree} (hop : op.isLeaf = false)
    (operands : ∀ t ∈ children, t.Proper) : (node op children).Proper :=
  .intro (fun hleaf => nomatch hop.symm.trans hleaf) operands

theorem Proper.push {t child : Tree} (h : t.Proper) (hop : t.op.isLeaf = false) (hchild : child.Proper) :
    (t.push child).Proper := by
  refine proper_node hop fun u hu => ?_
  rcases List.mem_append.mp hu with hu | hu
  · exact h.operands u hu
  · exact List.mem_singleton.mp hu ▸ hchild

theorem isLeaf_of_isSequence {op : Operator} (h : op.isSequence = true) : op.isLeaf = false := by
  cases op <;> first | rfl | cases h

/-! ### Nodes find their places -/

section
variable {new : Tree} (hnew : new.Proper)
include hnew

theorem takeOver_proper {upper : Operator} {last t : Tree} (hlast : last.Proper) (h : takeOver upper new last = .ok t) :
    t.Proper := by
  unfold takeOver at h
  split at h
  · cases h
  · rename_i hop
    split at h
    · cases h
    · cases h
      exact hnew.push (by simpa using hop) hlast

mutual
theorem insert_proper {force : Bool} : ∀ {t t' : Tree}, t.Proper → insert new force t = .ok t' → t'.Proper
  | node op children, t', hproper, h => by
    have operands := hproper.operands
    unfold insert at h
    split at h
    · cases h
    · split at h
      · cases h
      · rename_i hleaf
        have hop : op.isLeaf = false := by simpa using hleaf
        split at h
        · cases h
          exact hproper.push hop hnew
        · obtain ⟨children', hchildren, rfl⟩ := exists_of_map_eq_ok h
          exact proper_node hop (insertLast_proper operands hchildren)

theorem insertLast_proper {upper : Operator} : ∀ {children children' : List Tree}, (∀ t ∈ children, t.Proper) →
    insertLast new upper children = .ok children' → ∀ t ∈ children', t.Proper
  | [], children', _, h => by
    cases h
    exact List.forall_mem_singleton.mpr hnew
  | [last], children', hproper, h => by
    have hlast : last.Proper := hproper last (List.mem_singleton_self _)
    unfold insertLast at h
    split at h
    · obtain ⟨last', hinsert, rfl⟩ := exists_of_map_eq_ok h
      exact List.forall_mem_singleton.mpr (insert_proper hlast hinsert)
    · obtain ⟨last', htake, rfl⟩ := exists_of_map_eq_ok h
      exact List.forall_mem_singleton.mpr (takeOver_proper hnew hlast htake)
  | first :: second :: rest, children', hproper, h => by
    rw [List.forall_mem_cons] at hproper
    unfold insertLast at h
    obtain ⟨rest', hrest, rfl⟩ := exists_of_map_eq_ok h
    exact List.forall_mem_cons.mpr ⟨hproper.1, insertLast_proper hproper.2 hrest⟩
end

theorem insertBehindSeparator_proper {children children' : List Tree} (hproper : ∀ t ∈ children, t.Proper)
    (h : insertBehindSeparator new children = .ok children') : ∀ t ∈ children', t.Proper := by
  fun_induction insertBehindSeparator new children generalizing children' with
  | case1 =>
    cases h
    exact List.forall_mem_singleton.mpr hnew
  | case2 last =>
    obtain ⟨last', hinsert, rfl⟩ := exists_of_map_eq_ok h
    exact List.forall_mem_singleton.mpr (insert_proper hnew (hproper last (List.mem_singleton_self _)) hinsert)
  | case3 first rest _ ih =>
    rw [List.forall_mem_cons] at hproper
    obtain ⟨rest', hrest, rfl⟩ := exists_of_map_eq_ok h
    exact List.forall_mem_cons.mpr ⟨hproper.1, ih hproper.2 hrest⟩

end

theorem op_of_insert {new t t' : Tree} {force : Bool} (h : insert new force t = .ok t') : t'.op = t.op := by
  obtain ⟨op, children⟩ := t
  unfold insert at h
  split at h
  · cases h
  · split at h
    · cases h
    · split at h
      · cases h
        rfl
      · obtain ⟨children', -, rfl⟩ := exists_of_map_eq_ok h
        rfl

/-! ### The stack of unfinished trees -/

section
variable {top : Tree} {stack stack' : List Tree}

theorem Unfinished.cons (hproper : top.Proper) (hop : top.op.isLeaf = false) (h : Unfinished stack) :
    Unfinished (top :: stack) :=
  List.forall_mem_cons.mpr ⟨⟨hproper, hop⟩, h⟩

theorem Unfinished.head (h : Unfinished (top :: stack)) : top.Proper ∧ top.op.isLeaf = false :=
  h top (List.mem_cons_self ..)

theorem Unfinished.tail (h : Unfinished (top :: stack)) : Unfinished stack :=
  fun t ht => h t (List.mem_cons_of_mem _ ht)

theorem unfinished_emptyGroup (h : Unfinished stack) : Unfinished (emptyGroup :: stack) :=
  .cons (proper_leaf _) rfl h

theorem collapseTo_proper {precedence : Nat} {top' : Tree} (htop : top.Proper) (h : Unfinished stack)
    (hcollapse : collapseTo precedence top stack = .ok (top', stack')) : top'.Proper ∧ Unfinished stack' := by
  induction stack generalizing top with
  | nil => cases hcollapse
  | cons lower stack ih =>
    unfold collapseTo at hcollapse
    split at hcollapse
    · exact ih (h.head.1.push h.head.2 htop) h.tail hcollapse
    · cases hcollapse
      exact ⟨htop, h⟩

/-- What closing parentheses leave is a group. -/
theorem collapse_proper {group : Tree} (htop : top.Proper) (h : Unfinished stack)
    (hcollapse : collapse top stack = .ok (group, stack')) : group.Proper ∧ Unfinished stack' := by
  induction stack generalizing top with
  | nil =>
    unfold collapse at hcollapse
    split at hcollapse
    · split at hcollapse
      · cases hcollapse
      · cases hcollapse
        exact ⟨htop, h⟩
    · cases hcollapse
  | cons lower stack ih =>
    unfold collapse at hcollapse
    split at hcollapse
    · split at hcollapse
      · cases hcollapse
      · cases hcollapse
        exact ⟨htop, h⟩
    · exact ih (h.head.1.push h.head.2 htop) h.tail hcollapse

theorem placeSeparator_unfinished {separator : Operator} (hseparator : separator.isSequence = true)
    (h : Unfinished (top :: stack)) (hplace : placeSeparator separator top stack = .ok stack') :
    Unfinished stack' := by
  have hop : separator.isLeaf = false := isLeaf_of_isSequence hseparator
  have hempty : emptyGroup.Proper := proper_leaf _
  unfold placeSeparator at hplace
  split at hplace
  · cases hplace
    exact .cons (h.head.1.push h.head.2 hempty) h.head.2 h.tail
  · split at hplace
    · cases hplace
      refine .cons (proper_node hop ?_) hop (unfinished_emptyGroup h.tail)
      simp [h.head.1, hempty]
    · split at hplace
      · split at hplace
        · rename_i last hlast
          cases hplace
          have hproper : last.Proper := h.head.1.operands last (List.mem_of_getLast? hlast)
          refine .cons (proper_node hop (by simp [hproper, hempty])) hop
            (.cons (proper_node h.head.2 ?_) h.head.2 h.tail)
          exact fun t ht => h.head.1.operands t (List.dropLast_subset _ ht)
        · cases hplace
          exact .cons (proper_node hop (by simp [hempty])) hop h
      · obtain ⟨⟨top', rest⟩, hcollapse, rfl⟩ := exists_of_map_eq_ok hplace
        obtain ⟨htop, hrest⟩ := collapseTo_proper h.head.1 h.tail hcollapse
        exact .cons (proper_node hop (by simp [htop])) hop hrest

theorem place_unfinished {new : Tree} (hnew : new.Proper) (h : Unfinished stack)
    (hplace : place new stack = .ok stack') : Unfinished stack' := by
  cases stack with
  | nil => cases hplace
  | cons top stack =>
    simp only [place] at hplace
    split at hplace
    · rename_i hsequence
      exact placeSeparator_unfinished hsequence h hplace
    · split at hplace
      · obtain ⟨children, hinsert, rfl⟩ := exists_of_map_eq_ok hplace
        have operands := insertBehindSeparator_proper hnew h.head.1.operands hinsert
        exact .cons (proper_node h.head.2 operands) h.head.2 h.tail
      · obtain ⟨top', hinsert, rfl⟩ := exists_of_map_eq_ok hplace
        exact .cons (insert_proper hnew h.head.1 hinsert) (op_of_insert hinsert ▸ h.head.2) h.tail

/-- Every token leaves the stack one of unfinished trees. -/
theorem grow_unfinished {afterOperand : Bool} {tokens : List Token} (h : Unfinished stack)
    (hgrow : grow afterOperand tokens stack = .ok stack') : Unfinished stack' := by
  induction tokens generalizing afterOperand stack with
  | nil =>
    cases hgrow
    exact h
  | cons token rest ih =>
    simp only [grow] at hgrow
    split at hgrow
    · cases hgrow
    · rename_i next hplaced
      refine ih ?_ hgrow
      split at hplaced
      · cases hplaced
        exact unfinished_emptyGroup h
      · split at hplaced
        · split at hplaced
          · cases hplaced
          · rename_i hcollapse
            obtain ⟨hgroup, hstack⟩ := collapse_proper h.head.1 h.tail hcollapse
            exact place_unfinished hgroup hstack hplaced
        · cases hplaced
      · split at hplaced
        · exact place_unfinished (proper_leaf _) h hplaced
        · cases hplaced
          exact h

/-- In the tree of a formula no leaf has operands. -/
theorem proper_of_ofText {text : List Char} {t : Tree} (h : ofText text = .ok t) : t.Proper := by
  unfold ofText at h
  split at h
  · cases h
  · unfold ofTokens at h
    split at h
    · cases h
    · cases h
    · rename_i hgrow
      have hstack := grow_unfinished (unfinished_emptyGroup (List.forall_mem_nil _)) hgrow
      split at h
      · cases h
      · rename_i hcollapse
        cases h
        exact (collapse_proper hstack.head.1 hstack.tail hcollapse).1
      · cases h

end

/-! ### The names of a tree -/

theorem mem_namesAll {name : String} {trees : List Tree} : name ∈ namesAll trees ↔ ∃ t ∈ trees, name ∈ t.names := by
  induction trees with
  | nil => simp [namesAll]
  | cons t rest ih => simp [namesAll, ih]

/-- A proper node reads its own name, if it is to read one, and whatever its operands read. -/
theorem Proper.mem_names {op : Operator} {children : List Tree} (h : (node op children).Proper) {name : String} :
    name ∈ (node op children).names ↔ op = .read name ∨ ∃ t ∈ children, name ∈ t.names := by
  cases h with
  | intro hleaf _ =>
    cases op with
    | read other => simp [names, hleaf rfl, eq_comm]
    | _ => simp [names, mem_namesAll]

end OdeSystem.Formula.Tree
