import OdeSystem.Proofs.Formula.Tree
import OdeSystem.Proofs.Reading

/-!
Contexts. A tree looks up names at its leaves only, and each of these names is among those that the tree reads, so two
contexts that agree on the names of a tree give it the same value, or the same fault. An expression sees the values of
its own names and nothing else of a scope; it would see no more in the whole of the scope.
-/

namespace OdeSystem

namespace Formula

/-- An operator looks up no name but the one that it reads. -/
theorem Operator.apply_congr {lookup lookup' : String → Option Float} {op : Operator}
    (h : ∀ name, op = .read name → lookup name = lookup' name) (operands : List Value) :
    op.apply lookup operands = op.apply lookup' operands := by
  cases op with
  | read name =>
    cases operands with
    | nil => simp only [apply, h name rfl]
    | cons _ _ => rfl
  | _ => rcases operands with _ | ⟨a, _ | ⟨b, _ | ⟨c, rest⟩⟩⟩ <;> rfl

namespace Tree

/-- Lists of trees that each have the same value by two look-ups have the same values by them. -/
theorem evalAll_congr {lookup lookup' : String → Option Float} {trees : List Tree}
    (h : ∀ t ∈ trees, t.eval lookup = t.eval lookup') : evalAll lookup trees = evalAll lookup' trees := by
  induction trees with
  | nil => rfl
  | cons t rest ih =>
    rw [List.forall_mem_cons] at h
    unfold evalAll
    rw [h.1, ih h.2]

/-- A tree has the same value, or the same fault, by all look-ups that agree on the names it reads. -/
theorem Proper.eval_congr {lookup lookup' : String → Option Float} {t : Tree} (proper : t.Proper)
    (h : ∀ name ∈ t.names, lookup name = lookup' name) : t.eval lookup = t.eval lookup' := by
  induction proper with
  | @intro op children leaf operands ih =>
    have hnode := Proper.intro leaf operands
    have hchildren : evalAll lookup children = evalAll lookup' children :=
      evalAll_congr fun child hchild =>
        ih child hchild fun name hname => h name (hnode.mem_names.mpr (.inr ⟨child, hchild, hname⟩))
    unfold eval
    rw [hchildren]
    split
    · rfl
    · exact Operator.apply_congr (fun name hread => h name (hnode.mem_names.mpr (.inl hread))) _

end Tree

end Formula

/-! ### All that a scope defines -/

/-- The constants that every scope has. -/
def constants : Table Float := .ofList [("pi", 3.141592653589793), ("e", 2.718281828459045)]

theorem get?_constants (name : String) : constants.get? name = constant? name := by
  unfold constants constant?
  by_cases hpi : name = "pi"
  · subst hpi
    rfl
  · by_cases he : name = "e"
    · subst he
      rfl
    · rw [Table.get?_ofList_cons, Table.get?_ofList_cons]
      simp only [hpi, he, ↓reduceIte, Option.or_none]
      rfl

/-- The values of all names that a scope defines: the constants, the state before them, the helpers before the state,
and the time before everything. -/
def Scope.all (scope : Scope) : Table Float :=
  ((constants.insertAll scope.state.entries).insertAll scope.helpers.entries).insert "t" scope.time

theorem Scope.get?_all (scope : Scope) (name : String) : scope.all.get? name = scope.get? name := by
  unfold Scope.all Scope.get?
  rw [Table.get?_insert, Table.get?_insertAll, Table.get?_insertAll, Table.ofList_entries, Table.ofList_entries,
    get?_constants]

/-- The result of an expression in a context: what its tree evaluates to there. -/
def Expression.evalIn (e : Expression) (context : Table Float) : Except EvalError Outcome :=
  match e.tree.eval context.get? with
  | .error fault => .error (.formula e.source fault)
  | .ok v => .ok (.ofValue v)

theorem Expression.eval_eq_evalIn (e : Expression) (scope : Scope) : e.eval scope = e.evalIn (scope.restrict e.names) :=
  rfl

/-- The names of an expression are those of its tree, which is that of a formula. -/
theorem Expression.of_ofText {source : String} {e : Expression} (h : ofText source = .ok e) :
    e.tree.Proper ∧ ∀ name, name ∈ e.names ↔ name ∈ e.tree.names := by
  unfold ofText at h
  dsimp only at h
  split at h
  · cases h
  · rename_i tree htree
    cases h
    exact ⟨Formula.Tree.proper_of_ofText htree, fun name => by simp [Table.sortNames, Table.mem_names_ofList]⟩

/-- An expression has the same result, or the same error, among the values of its names as among the values of all
names that the scope defines. -/
theorem Expression.eval_eq_evalIn_all {source : String} {e : Expression} (read : ofText source = .ok e)
    (scope : Scope) : e.eval scope = e.evalIn scope.all := by
  obtain ⟨proper, hnames⟩ := of_ofText read
  have hvalue : e.tree.eval (scope.restrict e.names).get? = e.tree.eval scope.all.get? :=
    proper.eval_congr fun name hname => by
      rw [Scope.get?_restrict, if_pos ((hnames name).mpr hname), Scope.get?_all]
  rw [eval_eq_evalIn]
  unfold evalIn
  rw [hvalue]

/-- A read name that nothing defines, one that the state and the helpers have, and names that are not read. -/
theorem Expression.eval_eq_evalIn_all_missing :
    ∃ e, ofText "max(x, 2*pi) / (t, y) + if(x > 1, y, missing)" = .ok e ∧
      e.names = ["missing", "pi", "t", "x", "y"] ∧
      e.eval ⟨.ofList [("x", 1), ("z", 2)], 3, .ofList [("x", 4), ("pi", 5)]⟩ =
        e.evalIn (Scope.all ⟨.ofList [("x", 1), ("z", 2)], 3, .ofList [("x", 4), ("pi", 5)]⟩) := by
  have hread : (ofText "max(x, 2*pi) / (t, y) + if(x > 1, y, missing)").toOption.any
      (fun e => e.names == ["missing", "pi", "t", "x", "y"]) = true := by
    decide +kernel
  obtain ⟨e, he, hnames⟩ := exists_ok_of_any hread
  exact ⟨e, he, by simpa using hnames, eval_eq_evalIn_all he _⟩

end OdeSystem
