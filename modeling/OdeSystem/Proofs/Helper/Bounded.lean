import OdeSystem.Helper.Traversal

/-!
Evaluations that handle only so many frames. They recurse on that number and not on what is unmarked, so they can be
computed; one that is over in time has the result of the evaluation itself.
-/

namespace OdeSystem.Helper

/-- The result of a run that handles at most so many frames, if it is over by then. -/
def runWithin (helpers : Helpers) (state : State) (time : Float) : Nat → Walk → Option (Except EvalError Walk)
  | _, ⟨values, marks, []⟩ => some (.ok ⟨values, marks, []⟩)
  | 0, ⟨_, _, _ :: _⟩ => none
  | bound + 1, ⟨values, marks, frame :: stack⟩ =>
    match (step helpers state time ⟨values, marks, stack⟩ frame).result with
    | .error e => some (.error e)
    | .ok next => runWithin helpers state time bound next

/-- Walks from several helpers, each walk handling at most so many frames. -/
def walkWithin (helpers : Helpers) (state : State) (time : Float) (bound : Nat) :
    List String → Walk → Option (Except EvalError Walk)
  | [], walk => some (.ok walk)
  | root :: rest, walk =>
    if walk.marks.contains root then walkWithin helpers state time bound rest walk
    else
      match runWithin helpers state time bound { walk with stack := [.enter root] } with
      | none => none
      | some (.error e) => some (.error e)
      | some (.ok next) => walkWithin helpers state time bound rest next

/-- The values of all helpers, if no walk handles more than so many frames. -/
def evaluateWithin (helpers : Helpers) (state : State) (time : Float) (bound : Nat) :
    Option (Except EvalError HelperValues) :=
  (walkWithin helpers state time bound helpers.names Walk.initial).map fun result => result.map Walk.values

section
variable {helpers : Helpers} {state : State} {time : Float} {bound : Nat} {walk : Walk}
  {result : Except EvalError Walk}

theorem run_eq_of_within (h : runWithin helpers state time bound walk = some result) :
    (run helpers state time walk).result = result := by
  fun_induction run helpers state time walk generalizing bound with
  | case1 values marks =>
    cases bound <;> exact Option.some.inj h
  | case2 values marks frame stack stepped e =>
    rename_i he
    cases bound with
    | zero => cases h
    | succ bound =>
      simp only [runWithin] at h
      rw [he] at h
      exact Option.some.inj h
  | case3 values marks frame stack stepped middle hmiddle rest =>
    rename_i ih
    cases bound with
    | zero => cases h
    | succ bound =>
      simp only [runWithin] at h
      rw [hmiddle] at h
      exact ih h

theorem walks_eq_of_within {roots : List String} (h : walkWithin helpers state time bound roots walk = some result) :
    (roots.foldlM (walkFrom helpers state time) walk).result = result := by
  induction roots generalizing walk with
  | nil => exact Option.some.inj h
  | cons root rest ih =>
    rw [List.foldlM_cons, Logged.result_bind, walkFrom]
    unfold walkWithin at h
    split at h
    · rename_i hmark
      rw [if_pos hmark]
      exact ih h
    · rename_i hmark
      rw [if_neg hmark]
      split at h
      · cases h
      · rename_i e hrun
        rw [run_eq_of_within hrun]
        exact Option.some.inj h
      · rename_i next hrun
        rw [run_eq_of_within hrun]
        exact ih h

theorem evaluate_eq_of_within {result : Except EvalError HelperValues}
    (h : evaluateWithin helpers state time bound = some result) :
    (evaluate helpers state time).result = result := by
  obtain ⟨walked, hwalked, rfl⟩ := Option.map_eq_some_iff.mp h
  unfold evaluate
  rw [Logged.result_bind, walks_eq_of_within hwalked]
  cases walked <;> rfl

/-- An evaluation that gives values within a bound gives them. -/
theorem exists_values_of_within
    (h : (evaluateWithin helpers state time bound).any (fun result => result.toOption.isSome) = true) :
    ∃ values, (evaluate helpers state time).result = .ok values := by
  cases hwithin : evaluateWithin helpers state time bound with
  | none => simp [hwithin] at h
  | some result =>
    rw [evaluate_eq_of_within hwithin]
    cases result with
    | error e => simp [hwithin, Except.toOption] at h
    | ok values => exact ⟨values, rfl⟩

end

end OdeSystem.Helper
