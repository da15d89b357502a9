import OdeSystem.Formula.Eval
import OdeSystem.Proofs.Formula.Tree

/-!
Names without a value. The only part of an evaluation that can miss a name is the look-up at a leaf that reads it;
functions and operators may fail on their arguments, but not for want of a name. So a formula that fails on a name reads
that name, and the name has no value.
-/

namespace OdeSystem.Formula

/-- Whether a computation never fails for want of a name. -/
def MissesNothing {α : Type} (r : Except Fault α) : Prop := ∀ name, r ≠ .error (.variableNotFound name)

namespace MissesNothing
variable {α β : Type}

@[simp] theorem ok (a : α) : MissesNothing (.ok a) := fun _ h => nomatch h

@[simp] theorem pure (a : α) : MissesNothing (Pure.pure a) := ok a

@[simp] theorem error_iff {fault : Fault} :
    MissesNothing (.error fault : Except Fault α) ↔ ∀ name, fault ≠ .variableNotFound name := by
  simp [MissesNothing]

@[simp] theorem throw_iff {fault : Fault} :
    MissesNothing (throw fault : Except Fault α) ↔ ∀ name, fault ≠ .variableNotFound name := error_iff

theorem bind {x : Except Fault α} {f : α → Except Fault β} (hx : MissesNothing x)
    (hf : ∀ a, MissesNothing (f a)) : MissesNothing (x >>= f) := by
  cases x with
  | error fault => exact fun name h => hx name (congrArg _ (Except.error.inj h))
  | ok a => exact hf a

theorem map {x : Except Fault α} (f : α → β) (hx : MissesNothing x) : MissesNothing (x.map f) :=
  fun name h => hx name (map_eq_error h)

theorem foldlM {f : β → α → Except Fault β} (hf : ∀ b a, MissesNothing (f b a)) (xs : List α) (b : β) :
    MissesNothing (xs.foldlM f b) := by
  induction xs generalizing b with
  | nil => exact pure b
  | cons a rest ih => exact bind (hf b a) ih

theorem forM {f : α → Except Fault PUnit} (hf : ∀ a, MissesNothing (f a)) (xs : List α) :
    MissesNothing (xs.forM f) := by
  induction xs with
  | nil => exact pure _
  | cons a rest ih => exact bind (hf a) fun _ => ih

end MissesNothing

/-! ### What is asked of arguments -/

section Arguments
variable (v : Value)

@[simp] theorem missesNothing_expectNumber : MissesNothing v.expectNumber := by
  unfold Value.expectNumber
  split <;> simp

@[simp] theorem missesNothing_expectNumberOrString : MissesNothing v.expectNumberOrString := by
  unfold Value.expectNumberOrString
  split <;> simp

@[simp] theorem missesNothing_expectInt : MissesNothing v.expectInt := by
  unfold Value.expectInt
  split <;> simp

@[simp] theorem missesNothing_expectString : MissesNothing v.expectString := by
  unfold Value.expectString
  split <;> simp

@[simp] theorem missesNothing_expectBoolean : MissesNothing v.expectBoolean := by
  unfold Value.expectBoolean
  split <;> simp

@[simp] theorem missesNothing_expectTuple : MissesNothing v.expectTuple := by
  unfold Value.expectTuple
  split <;> simp

@[simp] theorem missesNothing_expectScalar : MissesNothing v.expectScalar := by
  unfold Value.expectScalar
  split <;> simp

@[simp] theorem missesNothing_expectPair : MissesNothing v.expectPair := by
  refine .bind (missesNothing_expectTuple v) fun elements => ?_
  split <;> simp

@[simp] theorem missesNothing_expectTriple : MissesNothing v.expectTriple := by
  refine .bind (missesNothing_expectTuple v) fun elements => ?_
  split <;> simp

@[simp] theorem missesNothing_expectPairOrTriple : MissesNothing v.expectPairOrTriple := by
  refine .bind (missesNothing_expectTuple v) fun elements => ?_
  split <;> simp

end Arguments

/-! ### Functions -/

namespace Function
variable (v : Value)

theorem missesNothing_abs : MissesNothing (abs v) := by
  unfold abs
  split
  · simp
  · split <;> simp
  · simp

theorem missesNothing_take (before : Float → Float → Bool) (beforeInt : Int → Int → Bool) (found : Extreme) :
    MissesNothing (found.take before beforeInt v) := by
  unfold Extreme.take
  split <;> simp

theorem missesNothing_extreme (before : Float → Float → Bool) (beforeInt : Int → Int → Bool) (begin : Extreme) :
    MissesNothing (extreme before beforeInt begin v) :=
  .bind (missesNothing_expectTuple v) fun elements =>
    .bind (.foldlM (fun found v => missesNothing_take v before beforeInt found) elements begin) fun _ => .pure _

theorem missesNothing_contains : MissesNothing (contains v) :=
  .bind (missesNothing_expectPair v) fun (elements, sought) =>
    .bind (missesNothing_expectTuple elements) fun _ => .bind (missesNothing_expectScalar sought) fun _ => .pure _

theorem missesNothing_containsAny : MissesNothing (containsAny v) :=
  .bind (missesNothing_expectPair v) fun (elements, sought) =>
    .bind (missesNothing_expectTuple elements) fun _ => .bind (missesNothing_expectTuple sought) fun sought =>
      .bind (.forM missesNothing_expectScalar sought) fun _ => .pure _

theorem missesNothing_expectPlace : MissesNothing (expectPlace v) := by
  refine .bind (missesNothing_expectInt v) fun n => ?_
  split <;> simp

theorem missesNothing_substring : MissesNothing (substring v) := by
  refine .bind (missesNothing_expectPairOrTriple v) fun (subject, first, last) => ?_
  refine .bind (missesNothing_expectString subject) fun text => .bind (missesNothing_expectPlace first) fun first => ?_
  refine .bind ?_ fun last => ?_
  · cases last with
    | none => exact .pure _
    | some last => exact missesNothing_expectPlace last
  · split <;> simp

theorem missesNothing_length : MissesNothing (length v) := by
  unfold length
  split <;> simp

theorem missesNothing_choose : MissesNothing (choose v) :=
  .bind (missesNothing_expectTriple v) fun (condition, _, _) =>
    .bind (missesNothing_expectBoolean condition) fun _ => .pure _

theorem missesNothing_callSimple (name : String) : MissesNothing (callSimple name v) := by
  unfold callSimple
  split
  · exact .bind (missesNothing_expectNumber v) fun _ => .pure _
  · split
    · exact .bind (missesNothing_expectPair v) fun (a, b) =>
        .bind (missesNothing_expectNumber a) fun _ => .bind (missesNothing_expectNumber b) fun _ => .pure _
    · split
      · exact .bind (missesNothing_expectNumber v) fun _ => .pure _
      · split
        · exact .bind (missesNothing_expectString v) fun _ => .pure _
        · split
          · exact .bind (missesNothing_expectPair v) fun (a, b) =>
              .bind (missesNothing_expectInt a) fun _ => .bind (missesNothing_expectInt b) fun _ => .pure _
          · simp

/-- No function looks a name up: one that is not there is no variable. -/
theorem missesNothing_call (name : String) : MissesNothing (call name v) := by
  unfold call
  split
  · exact missesNothing_abs v
  · simp
  · exact missesNothing_extreme v _ _ _
  · exact missesNothing_extreme v _ _ _
  · exact missesNothing_choose v
  · exact missesNothing_contains v
  · exact missesNothing_containsAny v
  · exact missesNothing_length v
  · simp
  · exact missesNothing_substring v
  · exact .map _ (missesNothing_expectInt v)
  · exact missesNothing_callSimple v _

end Function

/-! ### Operators -/

section Operators
variable (a b : Value)

theorem missesNothing_onIntegers (operation : Arithmetic) (m n : Int) : MissesNothing (operation.onIntegers m n) := by
  unfold Arithmetic.onIntegers
  split <;> simp

theorem missesNothing_addValues : MissesNothing (addValues a b) := by
  refine .bind (missesNothing_expectNumberOrString a) fun _ => .bind (missesNothing_expectNumberOrString b) fun _ => ?_
  split
  · simp
  · exact missesNothing_onIntegers _ _ _
  · split <;> simp

theorem missesNothing_arithmetic (operation : Arithmetic) : MissesNothing (operation.onValues a b) := by
  unfold Arithmetic.onValues
  split
  · exact missesNothing_addValues a b
  · refine .bind (missesNothing_expectNumber a) fun x => .bind (missesNothing_expectNumber b) fun y => ?_
    split
    · exact missesNothing_onIntegers _ _ _
    · simp

theorem missesNothing_powerOfValues : MissesNothing (powerOfValues a b) :=
  .bind (missesNothing_expectNumber a) fun _ => .bind (missesNothing_expectNumber b) fun _ => .pure _

theorem missesNothing_negateValue : MissesNothing (negateValue a) := by
  refine .bind (missesNothing_expectNumber a) fun x => ?_
  split
  · split <;> simp
  · simp

theorem missesNothing_orderValues (strings : String → String → Bool) (ints : Int → Int → Bool)
    (floats : Float → Float → Bool) : MissesNothing (orderValues strings ints floats a b) := by
  refine .bind (missesNothing_expectNumberOrString a) fun _ => .bind (missesNothing_expectNumberOrString b) fun _ => ?_
  split
  · simp
  · simp
  · exact .bind (missesNothing_expectNumber _) fun _ => .bind (missesNothing_expectNumber _) fun _ => .pure _

theorem missesNothing_comparison (comparison : Comparison) : MissesNothing (comparison.onValues a b) := by
  unfold Comparison.onValues
  split
  · simp
  · simp
  all_goals exact missesNothing_orderValues _ _ _ _ _

end Operators

/-- An operator misses a name only if it is the one that reads it. -/
theorem Operator.apply_eq_variableNotFound {lookup : String → Option Float} {op : Operator} {operands : List Value}
    {name : String} (h : op.apply lookup operands = .error (.variableNotFound name)) :
    op = .read name ∧ lookup name = none := by
  unfold apply at h
  split at h
  case h_8 read =>
    split at h
    · cases h
    · rename_i hnone
      cases h
      exact ⟨rfl, hnone⟩
  case h_9 called v => exact absurd h (Function.missesNothing_call v called name)
  case h_10 v => exact absurd h (missesNothing_negateValue v name)
  case h_11 v => exact absurd h (MissesNothing.map _ (missesNothing_expectBoolean v) name)
  case h_12 operation a b => exact absurd h (missesNothing_arithmetic a b operation name)
  case h_13 a b => exact absurd h (missesNothing_powerOfValues a b name)
  case h_14 comparison a b => exact absurd h (missesNothing_comparison a b comparison name)
  case h_15 a b =>
    exact absurd h (MissesNothing.bind (missesNothing_expectBoolean a)
      (fun _ => .bind (missesNothing_expectBoolean b) fun _ => .pure _) name)
  case h_16 a b =>
    exact absurd h (MissesNothing.bind (missesNothing_expectBoolean a)
      (fun _ => .bind (missesNothing_expectBoolean b) fun _ => .pure _) name)
  all_goals cases h

namespace Tree
variable {lookup : String → Option Float}

theorem evalAll_eq_error {fault : Fault} {trees : List Tree} (h : evalAll lookup trees = .error fault) :
    ∃ t ∈ trees, t.eval lookup = .error fault := by
  induction trees with
  | nil => cases h
  | cons t rest ih =>
    unfold evalAll at h
    split at h
    · rename_i heval
      cases h
      exact ⟨t, List.mem_cons_self .., heval⟩
    · obtain ⟨u, hu, heval⟩ := ih (map_eq_error h)
      exact ⟨u, List.mem_cons_of_mem _ hu, heval⟩

/-- A formula that fails on a name reads it, and it has no value. -/
theorem Proper.eval_eq_variableNotFound {t : Tree} (proper : t.Proper) {name : String}
    (h : t.eval lookup = .error (.variableNotFound name)) : name ∈ t.names ∧ lookup name = none := by
  induction proper with
  | @intro op children leaf operands ih =>
    rw [Proper.mem_names (.intro leaf operands)]
    unfold eval at h
    split at h
    · rename_i hall
      cases h
      obtain ⟨u, hu, heval⟩ := evalAll_eq_error hall
      obtain ⟨hname, hnone⟩ := ih u hu heval
      exact ⟨.inr ⟨u, hu, hname⟩, hnone⟩
    · obtain ⟨hop, hnone⟩ := Operator.apply_eq_variableNotFound h
      exact ⟨.inl hop, hnone⟩

end Tree

end OdeSystem.Formula
