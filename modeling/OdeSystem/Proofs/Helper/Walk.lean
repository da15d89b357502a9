import Mathlib.Logic.Relation
import OdeSystem.Helper.Traversal
import OdeSystem.Proofs.Logged

/-!
The walk over the graph of dependencies, move by move. What a frame off the stack can do is said once, in
`Moves`, and every state that an evaluation passes through is `Reachable`; an invariant of the evaluation is an
induction over that. An evaluation that succeeds ends in such a state with an empty stack and a mark on every
helper, and one that fails does so in a move from such a state.
-/

namespace OdeSystem.Helper

/-! ### The graph -/

/-- A helper depends on another when the name of that stands among its dependencies. -/
def DependsOn (helpers : Helpers) (helper dependency : String) : Prop :=
  ∃ e, helpers.get? helper = some e ∧ dependency ∈ e.dependencies ∧ helpers.contains dependency = true

/-- A helper lies on a cycle when it depends on itself, directly or through others. -/
def OnCycle (helpers : Helpers) (name : String) : Prop := Relation.TransGen (DependsOn helpers) name name

theorem DependsOn.contains_left {helpers : Helpers} {helper dependency : String}
    (h : DependsOn helpers helper dependency) : helpers.contains helper = true := by
  obtain ⟨e, he, -, -⟩ := h
  simp [Table.contains, he]

theorem DependsOn.contains_right {helpers : Helpers} {helper dependency : String}
    (h : DependsOn helpers helper dependency) : helpers.contains dependency = true := by
  obtain ⟨-, -, -, hd⟩ := h
  exact hd

/-! ### Moves -/

section Moves
variable {helpers : Helpers} {state : State} {time : Float} {walk next : Walk} {frame : Frame} {e : EvalError}

/-- What is put on the stack for the dependencies of a helper: each that is a helper and not done, and none with
a mark. -/
theorem pushDependencies_eq_ok {marks : Table Mark} {names : List String} {stack stack' : List Frame}
    (h : pushDependencies helpers marks names stack = .ok stack') :
    ∃ pushed : List String, stack' = pushed.map Frame.enter ++ stack ∧
      (∀ d ∈ pushed, d ∈ names ∧ helpers.contains d = true ∧ marks.get? d = none) ∧
      ∀ d ∈ names, helpers.contains d = true → marks.get? d = some .done ∨ d ∈ pushed := by
  induction names generalizing stack with
  | nil => exact ⟨[], by simpa [pushDependencies] using h.symm, by simp, by simp⟩
  | cons name rest ih =>
    -- The name itself is passed over, or is put below what the rest puts on the stack.
    have passed (h : pushDependencies helpers marks rest stack = .ok stack')
        (hname : helpers.contains name = true → marks.get? name = some .done) :
        ∃ pushed : List String, stack' = pushed.map Frame.enter ++ stack ∧
          (∀ d ∈ pushed, d ∈ name :: rest ∧ helpers.contains d = true ∧ marks.get? d = none) ∧
          ∀ d ∈ name :: rest, helpers.contains d = true → marks.get? d = some .done ∨ d ∈ pushed := by
      obtain ⟨pushed, hstack, hfrom, hall⟩ := ih h
      refine ⟨pushed, hstack, fun d hd => (hfrom d hd).imp_left (List.mem_cons_of_mem _), fun d hd hd' => ?_⟩
      rcases List.mem_cons.mp hd with rfl | hd
      · exact .inl (hname hd')
      · exact hall d hd hd'
    unfold pushDependencies at h
    split at h
    · rename_i hhelper
      split at h
      · rename_i hdone
        exact passed h fun _ => hdone
      · cases h
      · rename_i hnone
        obtain ⟨pushed, hstack, hfrom, hall⟩ := ih h
        refine ⟨pushed ++ [name], by simp [hstack], fun d hd => ?_, fun d hd hd' => ?_⟩
        · rcases List.mem_append.mp hd with hd | hd
          · exact (hfrom d hd).imp_left (List.mem_cons_of_mem _)
          · obtain rfl := List.mem_singleton.mp hd
            exact ⟨List.mem_cons_self .., hhelper, hnone⟩
        · rcases List.mem_cons.mp hd with rfl | hd
          · exact .inr (List.mem_append_right _ (List.mem_singleton_self _))
          · exact (hall d hd hd').imp_right (List.mem_append_left _)
    · rename_i hforeign
      exact passed h fun hhelper => absurd hhelper hforeign

theorem pushDependencies_eq_error {marks : Table Mark} {names : List String} {stack : List Frame}
    (h : pushDependencies helpers marks names stack = .error e) :
    ∃ d ∈ names, helpers.contains d = true ∧ marks.get? d = some .inProgress ∧ e = .cyclicDependency d := by
  induction names generalizing stack with
  | nil => cases h
  | cons name rest ih =>
    have later {stack : List Frame} (h : pushDependencies helpers marks rest stack = .error e) :
        ∃ d ∈ name :: rest, helpers.contains d = true ∧ marks.get? d = some .inProgress ∧
          e = .cyclicDependency d := by
      obtain ⟨d, hd, hrest⟩ := ih h
      exact ⟨d, List.mem_cons_of_mem _ hd, hrest⟩
    unfold pushDependencies at h
    split at h
    · rename_i hhelper
      split at h
      · exact later h
      · rename_i hmark
        cases h
        exact ⟨name, List.mem_cons_self .., hhelper, hmark, rfl⟩
      · exact later h
    · exact later h

/-- What a frame that has been taken off the stack does to the walk, and the events it reports. -/
inductive Moves (helpers : Helpers) (state : State) (time : Float) (walk : Walk) :
    Frame → Walk → List Event → Prop
  | foreign {frame : Frame} (foreign : helpers.contains frame.name = false) :
    Moves helpers state time walk frame walk []
  | skip {name : String} (done : walk.marks.get? name = some .done) :
    Moves helpers state time walk (.enter name) walk []
  | enter {name : String} {helper : Equation} (pushed : List String)
    (found : helpers.get? name = some helper) (unmarked : walk.marks.get? name = none)
    (fresh : ∀ d ∈ pushed, DependsOn helpers name d ∧ d ≠ name ∧ walk.marks.get? d = none)
    (complete : ∀ d, DependsOn helpers name d → walk.marks.get? d = some .done ∨ d ∈ pushed) :
    Moves helpers state time walk (.enter name)
      { walk with
        marks := walk.marks.insert name .inProgress
        stack := pushed.map Frame.enter ++ .finish name :: walk.stack } []
  | finish {name : String} {helper : Equation} {value : Float} (found : helpers.get? name = some helper)
    (evaluated : helper.eval state time walk.values = .ok value) :
    Moves helpers state time walk (.finish name)
      { walk with values := walk.values.insert name value, marks := walk.marks.insert name .done }
      [.helperEvaluated name value]

theorem moves_of_enter {name : String} {helper : Equation} (found : helpers.get? name = some helper)
    (h : enter helpers walk helper name = .ok next) : Moves helpers state time walk (.enter name) next [] := by
  unfold enter at h
  split at h
  · rename_i hmark
    cases h
    exact .skip hmark
  · cases h
  · rename_i hmark
    obtain ⟨stack, hpush, rfl⟩ := exists_of_map_eq_ok h
    obtain ⟨pushed, rfl, hfrom, hall⟩ := pushDependencies_eq_ok hpush
    refine .enter pushed found hmark (fun d hd => ?_) (fun d hd => ?_)
    · obtain ⟨hmem, hd', hnone⟩ := hfrom d hd
      have hne : d ≠ name := by
        rintro rfl
        simp at hnone
      rw [Table.get?_insert_of_ne _ _ hne] at hnone
      exact ⟨⟨helper, found, List.mem_reverse.mp hmem, hd'⟩, hne, hnone⟩
    · obtain ⟨helper', found', hmem, hd'⟩ := hd
      obtain rfl : helper = helper' := Option.some.inj (found.symm.trans found')
      refine (hall d (List.mem_reverse.mpr hmem) hd').imp_left fun hdone => ?_
      have hne : d ≠ name := by
        rintro rfl
        simp at hdone
      rwa [Table.get?_insert_of_ne _ _ hne] at hdone

theorem moves_of_step (h : (step helpers state time walk frame).result = .ok next) :
    Moves helpers state time walk frame next (step helpers state time walk frame).events := by
  unfold step at h ⊢
  cases found : helpers.get? frame.name with
  | none =>
    simp only [found, Logged.result_pure, Except.ok.injEq] at h ⊢
    subst h
    exact .foreign (by simp [Table.contains, found])
  | some helper =>
    simp only [found] at h ⊢
    cases frame with
    | enter name => exact moves_of_enter found h
    | finish name =>
      obtain ⟨value, hvalue, h⟩ := Logged.bind_eq_ok.mp h
      rw [Logged.result_ofResult] at hvalue
      cases h
      simp only [Helper.finish, hvalue]
      exact .finish found hvalue

/-- Entering a helper fails on one in progress, which is the helper itself or one of its dependencies. -/
theorem enter_eq_error {name : String} {helper : Equation} (found : helpers.get? name = some helper)
    (h : enter helpers walk helper name = .error e) :
    (walk.marks.get? name = some .inProgress ∧ e = .cyclicDependency name) ∨
    ∃ d, DependsOn helpers name d ∧ (d = name ∨ walk.marks.get? d = some .inProgress) ∧
      e = .cyclicDependency d := by
  unfold enter at h
  split at h
  · cases h
  · rename_i hmark
    cases h
    exact .inl ⟨hmark, rfl⟩
  · obtain ⟨d, hmem, hd, hmark, rfl⟩ := pushDependencies_eq_error (map_eq_error h)
    refine .inr ⟨d, ⟨helper, found, List.mem_reverse.mp hmem, hd⟩, ?_, rfl⟩
    by_cases hne : d = name
    · exact .inl hne
    · exact .inr (by rwa [Table.get?_insert_of_ne _ _ hne] at hmark)

/-- How a frame off the stack may fail: it is entered again before it is finished, one of its dependencies is
such a helper, or its evaluation fails. -/
theorem step_eq_error (h : (step helpers state time walk frame).result = .error e) :
    (∃ name, frame = .enter name ∧ walk.marks.get? name = some .inProgress ∧ e = .cyclicDependency name) ∨
    (∃ name d, frame = .enter name ∧ DependsOn helpers name d ∧
      (d = name ∨ walk.marks.get? d = some .inProgress) ∧ e = .cyclicDependency d) ∨
    ∃ name helper, frame = .finish name ∧ helpers.get? name = some helper ∧
      helper.eval state time walk.values = .error e := by
  unfold step at h
  cases found : helpers.get? frame.name with
  | none => simp [found] at h
  | some helper =>
    simp only [found] at h
    cases frame with
    | enter name =>
      rcases enter_eq_error found h with ⟨hmark, rfl⟩ | ⟨d, hd, hmark, rfl⟩
      · exact .inl ⟨name, rfl, hmark, rfl⟩
      · exact .inr (.inl ⟨name, d, rfl, hd, hmark, rfl⟩)
    | finish name =>
      rcases Logged.bind_eq_error.mp h with hvalue | ⟨value, -, hreport⟩
      · rw [Logged.result_ofResult] at hvalue
        exact .inr (.inr ⟨name, helper, rfl, found, hvalue⟩)
      · cases hreport

end Moves

/-! ### Runs -/

/-- The states that an evaluation passes through, each with the events reported on the way to it: it begins at the
initial walk, puts an unmarked helper on an empty stack, and handles the frame on top. -/
inductive Reachable (helpers : Helpers) (state : State) (time : Float) : List Event → Walk → Prop
  | initial : Reachable helpers state time [] Walk.initial
  | root {events : List Event} {walk : Walk} (name : String) (before : Reachable helpers state time events walk)
    (idle : walk.stack = []) (known : helpers.contains name = true) (unmarked : walk.marks.get? name = none) :
    Reachable helpers state time events { walk with stack := [.enter name] }
  | move {events moved : List Event} {walk next : Walk} {frame : Frame} {rest : List Frame}
    (before : Reachable helpers state time events walk) (top : walk.stack = frame :: rest)
    (moves : Moves helpers state time { walk with stack := rest } frame next moved) :
    Reachable helpers state time (events ++ moved) next

/-- A helper has been seen when it has a mark or waits on the stack to be entered. -/
def Seen (walk : Walk) (name : String) : Prop :=
  (walk.marks.get? name).isSome = true ∨ .enter name ∈ walk.stack

section Runs
variable {helpers : Helpers} {state : State} {time : Float} {walk next : Walk} {frame : Frame} {e : EvalError}
  {events moved : List Event}

/-- No move forgets a helper that has been seen. -/
theorem Seen.moves {rest : List Frame} {name : String} (h : Seen walk name) (top : walk.stack = frame :: rest)
    (known : helpers.contains name = true)
    (hm : Moves helpers state time { walk with stack := rest } frame next moved) : Seen next name := by
  unfold Seen at h ⊢
  rw [top] at h
  cases hm with
  | foreign foreign =>
    rcases h with h | h
    · exact .inl h
    · rcases List.mem_cons.mp h with rfl | h
      · simp only [Frame.name] at foreign
        rw [known] at foreign
        cases foreign
      · exact .inr h
  | skip done =>
    rcases h with h | h
    · exact .inl h
    · rcases List.mem_cons.mp h with h | h
      · cases h
        exact .inl (by simp only [done, Option.isSome_some])
      · exact .inr h
  | @enter entered helper pushed found unmarked fresh complete =>
    by_cases heq : name = entered
    · exact .inl (by simp [heq])
    · rcases h with h | h
      · exact .inl (by simpa only [Table.get?_insert_of_ne _ _ heq] using h)
      · rcases List.mem_cons.mp h with h | h
        · cases h
          exact absurd rfl heq
        · exact .inr (List.mem_append_right _ (List.mem_cons_of_mem _ h))
  | @finish finished helper value found evaluated =>
    by_cases heq : name = finished
    · exact .inl (by simp [heq])
    · rcases h with h | h
      · exact .inl (by simpa only [Table.get?_insert_of_ne _ _ heq] using h)
      · rcases List.mem_cons.mp h with h | h
        · cases h
        · exact .inr h

/-- A run that succeeds ends with an empty stack, and has not forgotten a helper. -/
theorem run_eq_ok (before : Reachable helpers state time events walk)
    (h : (run helpers state time walk).result = .ok next) :
    Reachable helpers state time (events ++ (run helpers state time walk).events) next ∧ next.stack = [] ∧
      ∀ name, helpers.contains name = true → Seen walk name → (next.marks.get? name).isSome = true := by
  fun_induction run helpers state time walk generalizing events with
  | case1 values marks =>
    cases h
    refine ⟨by simpa using before, rfl, fun name _ hseen => hseen.resolve_right (by simp)⟩
  | case2 values marks frame stack stepped e => cases h
  | case3 values marks frame stack stepped middle hmiddle rest =>
    rename_i ih
    have hm : Moves helpers state time ⟨values, marks, stack⟩ frame middle stepped.events := moves_of_step hmiddle
    obtain ⟨hreach, hempty, hmarked⟩ := ih (before.move rfl hm) h
    refine ⟨by simpa only [List.append_assoc] using hreach, hempty, fun name known hseen => ?_⟩
    exact hmarked name known (hseen.moves rfl known hm)

/-- A run that fails does so in a move from a state that it has reached. -/
theorem run_eq_error (before : Reachable helpers state time events walk)
    (h : (run helpers state time walk).result = .error e) :
    ∃ events walk frame rest, Reachable helpers state time events walk ∧ walk.stack = frame :: rest ∧
      (step helpers state time { walk with stack := rest } frame).result = .error e := by
  fun_induction run helpers state time walk generalizing events with
  | case1 values marks => cases h
  | case2 values marks frame stack stepped e' =>
    rename_i he'
    cases h
    exact ⟨events, _, frame, stack, before, rfl, he'⟩
  | case3 values marks frame stack stepped middle hmiddle rest =>
    rename_i ih
    exact ih (before.move rfl (moves_of_step hmiddle)) h

/-! ### Walks from several helpers -/

theorem walkFrom_eq_ok {root : String} (known : helpers.contains root = true)
    (before : Reachable helpers state time events walk) (idle : walk.stack = [])
    (h : (walkFrom helpers state time walk root).result = .ok next) :
    Reachable helpers state time (events ++ (walkFrom helpers state time walk root).events) next ∧
      next.stack = [] ∧ (next.marks.get? root).isSome = true ∧
      ∀ name, helpers.contains name = true → (walk.marks.get? name).isSome = true →
        (next.marks.get? name).isSome = true := by
  unfold walkFrom at h ⊢
  split at h
  · rename_i hmark
    cases h
    simp only [hmark, ↓reduceIte, Logged.events_pure, List.append_nil]
    exact ⟨before, idle, hmark, fun _ _ h => h⟩
  · rename_i hmark
    have hnone : walk.marks.get? root = none := by simpa [Table.contains] using hmark
    obtain ⟨hreach, hempty, hseen⟩ := run_eq_ok (before.root root idle known hnone) h
    simp only [hmark, Bool.false_eq_true, ↓reduceIte]
    exact ⟨hreach, hempty, hseen root known (.inr (List.mem_singleton_self _)), fun name hname hsome =>
      hseen name hname (.inl hsome)⟩

theorem foldlM_walkFrom_eq_ok {roots : List String} (known : ∀ root ∈ roots, helpers.contains root = true)
    (before : Reachable helpers state time events walk) (idle : walk.stack = [])
    (h : (roots.foldlM (walkFrom helpers state time) walk).result = .ok next) :
    Reachable helpers state time (events ++ (roots.foldlM (walkFrom helpers state time) walk).events) next ∧
      next.stack = [] ∧ (∀ root ∈ roots, (next.marks.get? root).isSome = true) ∧
      ∀ name, helpers.contains name = true → (walk.marks.get? name).isSome = true →
        (next.marks.get? name).isSome = true := by
  induction roots generalizing walk events with
  | nil =>
    cases h
    exact ⟨by simpa using before, idle, by simp, fun _ _ h => h⟩
  | cons root rest ih =>
    rw [List.foldlM_cons] at h ⊢
    obtain ⟨middle, hfirst, hrest⟩ := Logged.bind_eq_ok.mp h
    have hroot := known root (List.mem_cons_self ..)
    obtain ⟨hreach, hempty, hmarked, hkept⟩ := walkFrom_eq_ok hroot before idle hfirst
    obtain ⟨hreach', hempty', hmarked', hkept'⟩ :=
      ih (fun r hr => known r (List.mem_cons_of_mem _ hr)) hreach hempty hrest
    rw [Logged.events_bind_of_ok hfirst]
    refine ⟨by simpa only [List.append_assoc] using hreach', hempty', fun r hr => ?_, fun name hname hsome =>
      hkept' name hname (hkept name hname hsome)⟩
    rcases List.mem_cons.mp hr with rfl | hr
    · exact hkept' r hroot hmarked
    · exact hmarked' r hr

theorem foldlM_walkFrom_eq_error {roots : List String} (known : ∀ root ∈ roots, helpers.contains root = true)
    (before : Reachable helpers state time events walk) (idle : walk.stack = [])
    (h : (roots.foldlM (walkFrom helpers state time) walk).result = .error e) :
    ∃ events walk frame rest, Reachable helpers state time events walk ∧ walk.stack = frame :: rest ∧
      (step helpers state time { walk with stack := rest } frame).result = .error e := by
  induction roots generalizing walk events with
  | nil => cases h
  | cons root rest ih =>
    rw [List.foldlM_cons] at h
    have hroot := known root (List.mem_cons_self ..)
    rcases Logged.bind_eq_error.mp h with hfirst | ⟨middle, hfirst, hrest⟩
    · unfold walkFrom at hfirst
      split at hfirst
      · cases hfirst
      · rename_i hmark
        exact run_eq_error (before.root root idle hroot (by simpa [Table.contains] using hmark)) hfirst
    · obtain ⟨hreach, hempty, -, -⟩ := walkFrom_eq_ok hroot before idle hfirst
      exact ih (fun r hr => known r (List.mem_cons_of_mem _ hr)) hreach hempty hrest

end Runs

/-! ### Evaluations -/

section Evaluation
variable {helpers : Helpers} {state : State} {time : Float}

theorem contains_of_mem_names {name : String} (h : name ∈ helpers.names) : helpers.contains name = true :=
  Table.mem_names.mp h

/-- An evaluation that succeeds ends with an empty stack and every helper marked. -/
theorem evaluate_eq_ok {values : HelperValues} (h : (evaluate helpers state time).result = .ok values) :
    ∃ walk, Reachable helpers state time (evaluate helpers state time).events walk ∧ walk.stack = [] ∧
      walk.values = values ∧ ∀ name, helpers.contains name = true → (walk.marks.get? name).isSome = true := by
  unfold evaluate at h ⊢
  obtain ⟨walk, hwalk, hvalues⟩ := Logged.bind_eq_ok.mp h
  obtain ⟨hreach, hempty, hmarked, -⟩ :=
    foldlM_walkFrom_eq_ok (fun _ => contains_of_mem_names) .initial rfl hwalk
  refine ⟨walk, ?_, hempty, Except.ok.inj hvalues, fun name hname => hmarked name (Table.mem_names.mpr hname)⟩
  simpa only [Logged.events_bind_of_ok hwalk, Logged.events_pure, List.append_nil, List.nil_append] using hreach

/-- An evaluation that fails does so in a move from a state that it has reached. -/
theorem evaluate_eq_error {e : EvalError} (h : (evaluate helpers state time).result = .error e) :
    ∃ events walk frame rest, Reachable helpers state time events walk ∧ walk.stack = frame :: rest ∧
      (step helpers state time { walk with stack := rest } frame).result = .error e := by
  unfold evaluate at h
  rcases Logged.bind_eq_error.mp h with hwalk | ⟨walk, -, hvalues⟩
  · exact foldlM_walkFrom_eq_error (fun _ => contains_of_mem_names) .initial rfl hwalk
  · cases hvalues

end Evaluation

end OdeSystem.Helper
