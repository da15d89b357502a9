import OdeSystem.Equation
import OdeSystem.Logged

/-!
Evaluation of helpers in the order of their dependencies. A walk over the graph of dependencies keeps a stack of
helpers to enter and to finish: entering one marks it and puts its dependencies on top of it, and it is finished,
that is evaluated, when everything above it is gone. A dependency that is met again before it is finished closes
a cycle. Every helper is entered once, so the walk ends.
-/

namespace OdeSystem.Helper

/-- The helpers of a model, by name. -/
abbrev Helpers := Table Equation

/-- How far a helper has come: entered, or evaluated. -/
inductive Mark
  | inProgress
  | done
  deriving DecidableEq, Repr

/-- A helper on the stack: to be entered, or to be finished after all that lies above it. -/
inductive Frame
  | enter (name : String)
  | finish (name : String)
  deriving DecidableEq, Repr

/-- The name of the helper of a frame. -/
def Frame.name : Frame → String
  | enter name | finish name => name

/-- The state of a walk: the values so far, the marks, and the stack with its top in front. -/
structure Walk where
  values : HelperValues
  marks : Table Mark
  stack : List Frame

/-- A walk that has not begun. -/
def Walk.initial : Walk := ⟨Table.empty, Table.empty, []⟩

/-- Puts dependencies on the stack, one after the other. Names that are no helpers are left to the scope, and
what is done is not entered again. -/
def pushDependencies (helpers : Helpers) (marks : Table Mark) :
    List String → List Frame → Except EvalError (List Frame)
  | [], stack => .ok stack
  | name :: rest, stack =>
    if helpers.contains name then
      match marks.get? name with
      | some .done => pushDependencies helpers marks rest stack
      | some .inProgress => .error (.cyclicDependency name)
      | none => pushDependencies helpers marks rest (.enter name :: stack)
    else pushDependencies helpers marks rest stack

/-- Enters a helper, whose first dependency is to be on top. -/
def enter (helpers : Helpers) (walk : Walk) (helper : Equation) (name : String) : Except EvalError Walk :=
  match walk.marks.get? name with
  | some .done => .ok walk
  | some .inProgress => .error (.cyclicDependency name)
  | none =>
    let marks := walk.marks.insert name .inProgress
    (pushDependencies helpers marks helper.dependencies.reverse (.finish name :: walk.stack)).map fun stack =>
      { walk with marks, stack }

/-- Evaluates a helper against the values so far. -/
def finish (state : State) (time : Float) (walk : Walk) (helper : Equation) (name : String) :
    Logged EvalError Walk := do
  let value ← .ofResult (helper.eval state time walk.values)
  Logged.report (.helperEvaluated name value)
  pure { walk with values := walk.values.insert name value, marks := walk.marks.insert name .done }

/-- Handles a frame that has been taken off the stack. -/
def step (helpers : Helpers) (state : State) (time : Float) (walk : Walk) (frame : Frame) :
    Logged EvalError Walk :=
  match helpers.get? frame.name with
  | none => pure walk
  | some helper =>
    match frame with
    | .enter name => .ofResult (enter helpers walk helper name)
    | .finish name => finish state time walk helper name

/-! ### The walk ends -/

/-- The number of names without a mark. -/
def unmarkedAmong (names : List String) (marks : Table Mark) : Nat :=
  names.countP fun name => (marks.get? name).isNone

/-- The number of helpers that have not been entered. -/
def unmarked (helpers : Helpers) (marks : Table Mark) : Nat := unmarkedAmong helpers.names marks

theorem unmarkedAmong_insert_le (names : List String) (marks : Table Mark) (name : String) (mark : Mark) :
    unmarkedAmong names (marks.insert name mark) ≤ unmarkedAmong names marks := by
  refine List.countP_mono_left fun other _ h => ?_
  rw [Table.get?_insert] at h
  split at h
  · simp at h
  · exact h

theorem unmarkedAmong_insert_lt {names : List String} {marks : Table Mark} {name : String} (mark : Mark)
    (hname : name ∈ names) (hmark : marks.get? name = none) :
    unmarkedAmong names (marks.insert name mark) < unmarkedAmong names marks := by
  induction names with
  | nil => simp at hname
  | cons first rest ih =>
    have hle := unmarkedAmong_insert_le rest marks name mark
    simp only [unmarkedAmong, List.countP_cons] at hle ih ⊢
    by_cases hfirst : first = name
    · simp only [hfirst, Table.get?_insert_self, hmark, Option.isNone_none, Option.isNone_some, ↓reduceIte,
        Bool.false_eq_true]
      omega
    · have hrest : name ∈ rest := (List.mem_cons.mp hname).resolve_left (Ne.symm hfirst)
      have := ih hrest
      rw [Table.get?_insert_of_ne _ _ hfirst]
      omega

/-- A step off the stack either enters a helper or leaves the stack as short as it was. -/
theorem step_decreases {helpers : Helpers} {state : State} {time : Float} {walk next : Walk} {frame : Frame}
    (h : (step helpers state time walk frame).result = .ok next) :
    unmarked helpers next.marks < unmarked helpers walk.marks ∨
      unmarked helpers next.marks ≤ unmarked helpers walk.marks ∧ next.stack = walk.stack := by
  unfold step at h
  split at h
  · cases h
    exact .inr ⟨Nat.le_refl _, rfl⟩
  · rename_i helper hhelper
    split at h
    · simp only [Logged.result_ofResult, enter] at h
      split at h
      · cases h
        exact .inr ⟨Nat.le_refl _, rfl⟩
      · cases h
      · rename_i hmark
        simp only [Frame.name] at hhelper
        generalize pushDependencies _ _ _ _ = pushed at h
        cases pushed with
        | error e => simp [Except.map] at h
        | ok stack =>
          simp only [Except.map, Except.ok.injEq] at h
          subst h
          exact .inl (unmarkedAmong_insert_lt _ (Table.mem_names.mpr (by simp [hhelper])) hmark)
    · simp only [finish, Logged.result_bind, Logged.result_ofResult] at h
      cases hval : helper.eval state time walk.values with
      | error e => simp [hval, Except.bind] at h
      | ok value =>
        simp only [hval, Except.bind, Logged.result_report, Logged.result_pure, Except.ok.injEq] at h
        subst h
        exact .inr ⟨unmarkedAmong_insert_le .., rfl⟩

/-- Handles the frames on the stack until it is empty. -/
def run (helpers : Helpers) (state : State) (time : Float) (walk : Walk) : Logged EvalError Walk :=
  match walk with
  | ⟨values, marks, []⟩ => pure ⟨values, marks, []⟩
  | ⟨values, marks, frame :: stack⟩ =>
    let stepped := step helpers state time ⟨values, marks, stack⟩ frame
    match _h : stepped.result with
    | .error e => ⟨stepped.events, .error e⟩
    | .ok next =>
      let rest := run helpers state time next
      ⟨stepped.events ++ rest.events, rest.result⟩
termination_by (unmarked helpers walk.marks, walk.stack.length)
decreasing_by
  rcases step_decreases _h with h | ⟨h, hstack⟩
  · exact Prod.Lex.left _ _ h
  · rcases Nat.lt_or_eq_of_le h with h | h
    · exact Prod.Lex.left _ _ h
    · rw [h, hstack]
      exact Prod.Lex.right _ (Nat.lt_succ_self _)

/-- Walks from a helper, unless it has been entered already. -/
def walkFrom (helpers : Helpers) (state : State) (time : Float) (walk : Walk) (root : String) :
    Logged EvalError Walk :=
  if walk.marks.contains root then pure walk
  else run helpers state time { walk with stack := [.enter root] }

/-- The values of all helpers for a state and a time. -/
def evaluate (helpers : Helpers) (state : State) (time : Float) : Logged EvalError HelperValues := do
  let walk ← helpers.names.foldlM (walkFrom helpers state time) Walk.initial
  pure walk.values

end OdeSystem.Helper
