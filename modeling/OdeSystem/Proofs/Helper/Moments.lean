import Mathlib.Data.List.Chain
import OdeSystem.Model.Basic
import OdeSystem.Proofs.Helper.Reads
import OdeSystem.Proofs.Helper.Stack

/-!
The moments of an evaluation: the states in which it takes a frame off the stack, one for every time it does. An
evaluation that records its moments has the same result as one that does not, and each moment follows from the one
before by handling the frame that is taken off. At every moment the stack is in order: what is in progress is what is to
be finished, once each and along a path of the graph, so what is taken off the stack is a helper, and is not entered
while it is in progress.
-/

namespace OdeSystem.Helper

/-! ### Recording the moments -/

/-- A result together with the moments on the way to it. -/
structure Traced (α : Type) where
  moments : List Walk
  result : Except EvalError α

/-- Goes on from a result, if there is one. -/
def Traced.andThen {α β : Type} (x : Traced α) (f : α → Traced β) : Traced β :=
  match x.result with
  | .error e => ⟨x.moments, .error e⟩
  | .ok a => ⟨x.moments ++ (f a).moments, (f a).result⟩

/-- A run that records its moments. -/
def tracedRun (helpers : Helpers) (state : State) (time : Float) (walk : Walk) : Traced Walk :=
  match walk with
  | ⟨values, marks, []⟩ => ⟨[], .ok ⟨values, marks, []⟩⟩
  | ⟨values, marks, frame :: stack⟩ =>
    match _h : (step helpers state time ⟨values, marks, stack⟩ frame).result with
    | .error e => ⟨[⟨values, marks, frame :: stack⟩], .error e⟩
    | .ok next =>
      ⟨⟨values, marks, frame :: stack⟩ :: (tracedRun helpers state time next).moments,
        (tracedRun helpers state time next).result⟩
termination_by (unmarked helpers walk.marks, walk.stack.length)
decreasing_by all_goals
  rcases step_decreases _h with h | ⟨h, hstack⟩
  · exact Prod.Lex.left _ _ h
  · rcases Nat.lt_or_eq_of_le h with h | h
    · exact Prod.Lex.left _ _ h
    · rw [h, hstack]
      exact Prod.Lex.right _ (Nat.lt_succ_self _)

/-- Walks from several helpers, with their moments. -/
def tracedWalks (helpers : Helpers) (state : State) (time : Float) : List String → Walk → Traced Walk
  | [], walk => ⟨[], .ok walk⟩
  | root :: roots, walk =>
    if walk.marks.contains root then tracedWalks helpers state time roots walk
    else
      (tracedRun helpers state time { walk with stack := [.enter root] }).andThen
        (tracedWalks helpers state time roots)

/-- The evaluation of all helpers, with its moments. -/
def traced (helpers : Helpers) (state : State) (time : Float) : Traced HelperValues :=
  (tracedWalks helpers state time helpers.names Walk.initial).andThen fun walk => ⟨[], .ok walk.values⟩

theorem Traced.result_andThen {α β : Type} (x : Traced α) (f : α → Traced β) :
    (x.andThen f).result = x.result.bind fun a => (f a).result := by
  obtain ⟨moments, result⟩ := x
  cases result <;> rfl

theorem Traced.mem_moments_andThen {α β : Type} {x : Traced α} {f : α → Traced β} {moment : Walk}
    (h : moment ∈ (x.andThen f).moments) :
    moment ∈ x.moments ∨ ∃ a, x.result = .ok a ∧ moment ∈ (f a).moments := by
  obtain ⟨moments, result⟩ := x
  cases result with
  | error e => exact .inl h
  | ok a => exact (List.mem_append.mp h).imp_right fun h => ⟨a, rfl, h⟩

theorem Traced.mem_andThen_left {α β : Type} {x : Traced α} {f : α → Traced β} {moment : Walk}
    (h : moment ∈ x.moments) : moment ∈ (x.andThen f).moments := by
  obtain ⟨moments, result⟩ := x
  cases result with
  | error e => exact h
  | ok a => exact List.mem_append_left _ h

section
variable {helpers : Helpers} {state : State} {time : Float} {walk : Walk} {events : List Event}

theorem result_tracedRun (walk : Walk) :
    (tracedRun helpers state time walk).result = (run helpers state time walk).result := by
  fun_induction tracedRun helpers state time walk with
  | case1 values marks => rw [run]; rfl
  | case2 values marks frame stack e he => rw [run_of_error he]
  | case3 values marks frame stack next hnext ih => rw [run_of_ok hnext, ih]

theorem result_tracedWalks (roots : List String) (walk : Walk) :
    (tracedWalks helpers state time roots walk).result =
      (roots.foldlM (walkFrom helpers state time) walk).result := by
  induction roots generalizing walk with
  | nil => rfl
  | cons root roots ih =>
    rw [List.foldlM_cons, Logged.result_bind, walkFrom, tracedWalks]
    split
    · exact ih walk
    · rw [Traced.result_andThen, result_tracedRun]
      exact congrArg _ (funext ih)

/-- Recording the moments changes nothing. -/
theorem result_traced (helpers : Helpers) (state : State) (time : Float) :
    (traced helpers state time).result = (evaluate helpers state time).result := by
  unfold traced evaluate
  rw [Traced.result_andThen, Logged.result_bind, result_tracedWalks]
  rfl

/-! ### From moment to moment -/

/-- How an evaluation goes on from a state: with its moments from there on, and its result. It takes frames off the
stack and handles them; with nothing on the stack it begins at the next root that has no mark. -/
inductive Proceeds (helpers : Helpers) (state : State) (time : Float) :
    List String → Walk → List Walk → Except EvalError HelperValues → Prop
  | ended {walk : Walk} (idle : walk.stack = []) : Proceeds helpers state time [] walk [] (.ok walk.values)
  | pass {root : String} {roots : List String} {walk : Walk} {moments : List Walk}
    {result : Except EvalError HelperValues} (idle : walk.stack = []) (marked : walk.marks.contains root = true)
    (rest : Proceeds helpers state time roots walk moments result) :
    Proceeds helpers state time (root :: roots) walk moments result
  | start {root : String} {roots : List String} {walk : Walk} {moments : List Walk}
    {result : Except EvalError HelperValues} (idle : walk.stack = []) (unmarked : walk.marks.contains root = false)
    (rest : Proceeds helpers state time roots { walk with stack := [.enter root] } moments result) :
    Proceeds helpers state time (root :: roots) walk moments result
  | turn {roots : List String} {walk next : Walk} {frame : Frame} {stack : List Frame} {moments : List Walk}
    {result : Except EvalError HelperValues} (top : walk.stack = frame :: stack)
    (handled : (step helpers state time { walk with stack } frame).result = .ok next)
    (rest : Proceeds helpers state time roots next moments result) :
    Proceeds helpers state time roots walk (walk :: moments) result
  | failure {roots : List String} {walk : Walk} {frame : Frame} {stack : List Frame} {e : EvalError}
    (top : walk.stack = frame :: stack)
    (failed : (step helpers state time { walk with stack } frame).result = .error e) :
    Proceeds helpers state time roots walk [walk] (.error e)

theorem Traced.andThen_assoc {α β γ : Type} (x : Traced α) (f : α → Traced β) (g : β → Traced γ) :
    (x.andThen f).andThen g = x.andThen fun a => (f a).andThen g := by
  obtain ⟨moments, result⟩ := x
  cases result with
  | error e => rfl
  | ok a =>
    show Traced.andThen ⟨moments ++ (f a).moments, (f a).result⟩ g = ⟨moments ++ ((f a).andThen g).moments, _⟩
    cases hresult : (f a).result with
    | error e => simp [Traced.andThen, hresult]
    | ok b => simp [Traced.andThen, hresult]

theorem Traced.andThen_cons {α β : Type} (moment : Walk) (x : Traced α) (f : α → Traced β) :
    Traced.andThen ⟨moment :: x.moments, x.result⟩ f =
      ⟨moment :: (x.andThen f).moments, (x.andThen f).result⟩ := by
  obtain ⟨moments, result⟩ := x
  cases result <;> rfl

namespace Proceeds
variable {roots : List String} {moments moments' : List Walk} {result result' : Except EvalError HelperValues}

/-- What goes on where a run ends goes on from where it begins, with the moments of the run before its own. -/
theorem of_run {after : Walk → Traced HelperValues}
    (hafter : ∀ next, next.stack = [] →
      Proceeds helpers state time roots next (after next).moments (after next).result) (walk : Walk) :
    Proceeds helpers state time roots walk ((tracedRun helpers state time walk).andThen after).moments
      ((tracedRun helpers state time walk).andThen after).result := by
  fun_induction tracedRun helpers state time walk with
  | case1 values marks => exact hafter ⟨values, marks, []⟩ rfl
  | case2 values marks frame stack e he => exact .failure rfl he
  | case3 values marks frame stack next hnext ih =>
    rw [Traced.andThen_cons]
    exact .turn rfl hnext ih

theorem of_walks (walk : Walk) (idle : walk.stack = []) :
    let continued := (tracedWalks helpers state time roots walk).andThen fun next => ⟨[], .ok next.values⟩
    Proceeds helpers state time roots walk continued.moments continued.result := by
  induction roots generalizing walk with
  | nil => exact .ended idle
  | cons root roots ih =>
    intro continued
    by_cases marked : walk.marks.contains root = true
    · have hcontinued : continued = (tracedWalks helpers state time roots walk).andThen fun next =>
          ⟨[], .ok next.values⟩ := by
        simp only [continued, tracedWalks, if_pos marked]
      rw [hcontinued]
      exact .pass idle marked (ih walk idle)
    · have hcontinued : continued = (tracedRun helpers state time { walk with stack := [.enter root] }).andThen
          fun next => (tracedWalks helpers state time roots next).andThen fun last => ⟨[], .ok last.values⟩ := by
        simp only [continued, tracedWalks, if_neg marked, Traced.andThen_assoc]
      rw [hcontinued]
      exact .start idle (Bool.eq_false_iff.mpr marked) (.of_run ih _)

/-- There is one way to go on. -/
theorem unique (h : Proceeds helpers state time roots walk moments result)
    (h' : Proceeds helpers state time roots walk moments' result') : moments = moments' ∧ result = result' := by
  have busy {walk : Walk} {frame : Frame} {stack : List Frame} (idle : walk.stack = [])
      (top : walk.stack = frame :: stack) : False := by
    rw [idle] at top
    cases top
  induction h generalizing moments' result' with
  | ended idle =>
    cases h' with
    | ended => exact ⟨rfl, rfl⟩
    | turn top => exact (busy idle top).elim
    | failure top => exact (busy idle top).elim
  | pass idle marked _ ih =>
    cases h' with
    | pass _ _ rest => exact ih rest
    | start _ unmarked =>
      rw [marked] at unmarked
      cases unmarked
    | turn top => exact (busy idle top).elim
    | failure top => exact (busy idle top).elim
  | start idle unmarked _ ih =>
    cases h' with
    | pass _ marked =>
      rw [unmarked] at marked
      cases marked
    | start _ _ rest => exact ih rest
    | turn top => exact (busy idle top).elim
    | failure top => exact (busy idle top).elim
  | turn top handled _ ih =>
    cases h' with
    | ended idle => exact (busy idle top).elim
    | pass idle => exact (busy idle top).elim
    | start idle => exact (busy idle top).elim
    | turn top' handled' rest =>
      obtain ⟨rfl, rfl⟩ := List.cons.inj (top.symm.trans top')
      obtain rfl := Except.ok.inj (handled.symm.trans handled')
      obtain ⟨rfl, rfl⟩ := ih rest
      exact ⟨rfl, rfl⟩
    | failure top' failed =>
      obtain ⟨rfl, rfl⟩ := List.cons.inj (top.symm.trans top')
      cases handled.symm.trans failed
  | failure top failed =>
    cases h' with
    | ended idle => exact (busy idle top).elim
    | pass idle => exact (busy idle top).elim
    | start idle => exact (busy idle top).elim
    | turn top' handled =>
      obtain ⟨rfl, rfl⟩ := List.cons.inj (top.symm.trans top')
      cases handled.symm.trans failed
    | failure top' failed' =>
      obtain ⟨rfl, rfl⟩ := List.cons.inj (top.symm.trans top')
      cases failed.symm.trans failed'
      exact ⟨rfl, rfl⟩

end Proceeds

/-- The moments that are recorded, and the result, are those of an evaluation that handles one frame after the other. -/
theorem proceeds_iff {moments : List Walk} {result : Except EvalError HelperValues} :
    Proceeds helpers state time helpers.names Walk.initial moments result ↔
      moments = (traced helpers state time).moments ∧ result = (evaluate helpers state time).result := by
  have hproceeds : Proceeds helpers state time helpers.names Walk.initial (traced helpers state time).moments
      (traced helpers state time).result := .of_walks Walk.initial rfl
  rw [result_traced] at hproceeds
  constructor
  · intro h
    exact h.unique hproceeds
  · rintro ⟨rfl, rfl⟩
    exact hproceeds

/-! ### Moments are reached -/

/-- The moments of a run are states that it reaches, with something on the stack. -/
theorem reachable_of_mem_tracedRun (before : Reachable helpers state time events walk) {moment : Walk}
    (h : moment ∈ (tracedRun helpers state time walk).moments) :
    moment.stack ≠ [] ∧ ∃ events, Reachable helpers state time events moment := by
  fun_induction tracedRun helpers state time walk generalizing events with
  | case1 values marks => cases h
  | case2 values marks frame stack e he =>
    obtain rfl := List.mem_singleton.mp h
    exact ⟨List.cons_ne_nil _ _, events, before⟩
  | case3 values marks frame stack next hnext ih =>
    rcases List.mem_cons.mp h with rfl | h
    · exact ⟨List.cons_ne_nil _ _, events, before⟩
    · exact ih (before.move rfl (moves_of_step hnext)) h

theorem reachable_of_mem_tracedWalks {roots : List String} (known : ∀ root ∈ roots, helpers.contains root = true)
    (before : Reachable helpers state time events walk) (idle : walk.stack = []) {moment : Walk}
    (h : moment ∈ (tracedWalks helpers state time roots walk).moments) :
    moment.stack ≠ [] ∧ ∃ events, Reachable helpers state time events moment := by
  induction roots generalizing walk events with
  | nil => cases h
  | cons root roots ih =>
    have hroots : ∀ r ∈ roots, helpers.contains r = true := fun r hr => known r (List.mem_cons_of_mem _ hr)
    rw [tracedWalks] at h
    split at h
    · exact ih hroots before idle h
    · rename_i hmark
      have hfirst := before.root root idle (known root (List.mem_cons_self ..)) (by simpa [Table.contains] using hmark)
      rcases Traced.mem_moments_andThen h with h | ⟨next, hnext, h⟩
      · exact reachable_of_mem_tracedRun hfirst h
      · rw [result_tracedRun] at hnext
        obtain ⟨hreach, hempty, -⟩ := run_eq_ok hfirst hnext
        exact ih hroots hreach hempty h

theorem reachable_of_mem_moments {moment : Walk} (h : moment ∈ (traced helpers state time).moments) :
    moment.stack ≠ [] ∧ ∃ events, Reachable helpers state time events moment := by
  rcases Traced.mem_moments_andThen h with h | ⟨walk, -, h⟩
  · exact reachable_of_mem_tracedWalks (fun _ => contains_of_mem_names) .initial rfl h
  · cases h

end

/-! ### Moments by their number -/

/-- The state of a run after so many turns, if it takes them. -/
def turns (helpers : Helpers) (state : State) (time : Float) : Nat → Walk → Option Walk
  | 0, walk => some walk
  | _ + 1, ⟨_, _, []⟩ => none
  | n + 1, ⟨values, marks, frame :: stack⟩ =>
    match (step helpers state time ⟨values, marks, stack⟩ frame).result with
    | .error _ => none
    | .ok next => turns helpers state time n next

section
variable {helpers : Helpers} {state : State} {time : Float} {walk moment : Walk}

theorem mem_tracedRun_of_turns {n : Nat} (h : turns helpers state time n walk = some moment)
    (busy : moment.stack ≠ []) : moment ∈ (tracedRun helpers state time walk).moments := by
  fun_induction tracedRun helpers state time walk generalizing n with
  | case1 values marks =>
    cases n with
    | zero =>
      cases h
      exact absurd rfl busy
    | succ n => cases h
  | case2 values marks frame stack e he =>
    cases n with
    | zero =>
      cases h
      exact List.mem_singleton_self _
    | succ n => simp [turns, he] at h
  | case3 values marks frame stack next hnext ih =>
    cases n with
    | zero =>
      cases h
      exact List.mem_cons_self ..
    | succ n =>
      simp only [turns, hnext] at h
      exact List.mem_cons_of_mem _ (ih h)

/-- An evaluation begins at the first of the helpers. -/
theorem mem_moments_of_turns {root : String} {roots : List String} {n : Nat} (hnames : helpers.names = root :: roots)
    (h : turns helpers state time n { Walk.initial with stack := [.enter root] } = some moment)
    (busy : moment.stack ≠ []) : moment ∈ (traced helpers state time).moments := by
  have hunmarked : ¬ Walk.initial.marks.contains root = true := by simp [Walk.initial, Table.contains]
  unfold traced
  rw [hnames, tracedWalks, if_neg hunmarked]
  exact Traced.mem_andThen_left (Traced.mem_andThen_left (mem_tracedRun_of_turns h busy))

end

/-! ### The order of the stack -/

/-- The helpers that are to be finished, from the top of a stack. -/
def finishing (stack : List Frame) : List String :=
  stack.filterMap fun
    | .enter _ => none
    | .finish name => some name

/-- What is to be seen on the stack whenever a frame is taken off. -/
structure Disciplined (helpers : Helpers) (walk : Walk) : Prop where
  /-- In progress is what is to be finished, -/
  inProgress : ∀ name, walk.marks.get? name = some .inProgress ↔ name ∈ finishing walk.stack
  /-- and that is each helper once. -/
  once : (finishing walk.stack).Nodup
  /-- From the bottom of the stack, each helper to be finished depends on the next. -/
  path : (finishing walk.stack).reverse.IsChain (DependsOn helpers)
  /-- What is to be entered is a dependency of the helper that is to be finished next below it. -/
  awaited : ∀ above name below, walk.stack = above ++ .enter name :: below →
    ∀ helper, (finishing below).head? = some helper → DependsOn helpers helper name
  /-- The frame on top is of a helper, and is not there to enter one in progress. -/
  top : ∃ frame rest, walk.stack = frame :: rest ∧ helpers.contains frame.name = true ∧
    ∀ name, frame = .enter name → walk.marks.get? name ≠ some .inProgress

section
variable {helpers : Helpers} {name : String} {stack : List Frame}

theorem mem_finishing : name ∈ finishing stack ↔ .finish name ∈ stack := by
  simp only [finishing, List.mem_filterMap]
  constructor
  · rintro ⟨frame, hmem, hframe⟩
    cases frame with
    | enter d => cases hframe
    | finish d =>
      cases hframe
      exact hmem
  · exact fun h => ⟨.finish name, h, rfl⟩

/-- The helper next below is the one on top of those to be finished. -/
theorem nearest?_eq_head? (stack : List Frame) : nearest? stack = (finishing stack).head? := by
  induction stack with
  | nil => rfl
  | cons frame rest ih =>
    cases frame with
    | enter d => exact ih
    | finish d => rfl

theorem nodup_finishing (once : stack.Pairwise fun upper lower => lower ≠ .finish upper.name) :
    (finishing stack).Nodup := by
  induction stack with
  | nil => exact .nil
  | cons frame rest ih =>
    obtain ⟨hframe, hrest⟩ := List.pairwise_cons.mp once
    cases frame with
    | enter d => exact ih hrest
    | finish d => exact List.nodup_cons.mpr ⟨fun hmem => hframe _ (mem_finishing.mp hmem) rfl, ih hrest⟩

/-- From the top of the stack, each helper to be finished is a dependency of the next. -/
theorem Linked.isChain (linked : Linked helpers stack) :
    (finishing stack).IsChain fun upper lower => DependsOn helpers lower upper := by
  induction stack with
  | nil => exact .nil
  | cons frame rest ih =>
    obtain ⟨hframe, hrest⟩ := linked
    cases frame with
    | enter d => exact ih hrest
    | finish d =>
      refine (ih hrest).cons fun lower hlower => hframe lower ?_
      rw [nearest?_eq_head?]
      exact hlower

theorem Linked.dependsOn {above below : List Frame} {frame : Frame} {helper : String}
    (linked : Linked helpers (above ++ frame :: below)) (h : (finishing below).head? = some helper) :
    DependsOn helpers helper frame.name := by
  induction above with
  | nil => exact linked.1 helper ((nearest?_eq_head? below).trans h)
  | cons _ above ih => exact ih linked.2

theorem Ordered.disciplined {walk : Walk} (h : Ordered helpers walk) (busy : walk.stack ≠ []) :
    Disciplined helpers walk where
  inProgress name := (h.inProgress name).trans mem_finishing.symm
  once := nodup_finishing h.once
  path := List.isChain_reverse.mpr h.linked.isChain
  awaited above name below hstack helper hhelper := Linked.dependsOn (hstack ▸ h.linked) hhelper
  top := by
    obtain ⟨frame, rest, htop⟩ := List.exists_cons_of_ne_nil busy
    refine ⟨frame, rest, htop, h.known frame (htop ▸ List.mem_cons_self ..), ?_⟩
    rintro name rfl hmark
    -- What is in progress is to be finished below, where no frame on top of it can be of the same helper.
    have hbelow := (h.inProgress name).mp hmark
    rw [htop] at hbelow
    rcases List.mem_cons.mp hbelow with heq | hbelow
    · cases heq
    · exact (h.once_cons htop).1 _ hbelow rfl

end

/-- At every moment of an evaluation, whatever the helpers, the stack is in order: what is in progress is what is to be
finished, each helper once and from the bottom along a path of the graph, with the dependencies of each above it. So
neither is a name taken off the stack that is of no helper, nor is a helper entered that is in progress. The moments are
those, and no others, at which the evaluation handles one frame after the other. -/
theorem moments_disciplined (helpers : Helpers) (state : State) (time : Float) :
    (traced helpers state time).result = (evaluate helpers state time).result ∧
    (∀ moments result, Proceeds helpers state time helpers.names Walk.initial moments result ↔
      moments = (traced helpers state time).moments ∧ result = (evaluate helpers state time).result) ∧
    ∀ walk ∈ (traced helpers state time).moments, Disciplined helpers walk := by
  refine ⟨result_traced helpers state time, fun moments result => proceeds_iff, ?_⟩
  intro walk hwalk
  obtain ⟨hbusy, _, hreach⟩ := reachable_of_mem_moments hwalk
  exact hreach.ordered.disciplined hbusy

/-- A helper may lie on the stack twice before it is entered, even where it closes a cycle. -/
theorem moments_disciplined_cycle :
    ∃ m walk, (Model.compile knownFunctions.contains .usual
        (["a = b + c", "b = c", "c = b"].map .ofText)).result = .ok m ∧
      walk ∈ (traced m.helpers .empty 0).moments ∧
      walk.stack = [.enter "c", .finish "b", .enter "c", .finish "a"] ∧ Disciplined m.helpers walk := by
  have hcompiled : (Model.compile knownFunctions.contains .usual
      (["a = b + c", "b = c", "c = b"].map .ofText)).result.toOption.any
        (fun m => m.helpers.names == ["a", "b", "c"] &&
          (turns m.helpers .empty 0 2 { Walk.initial with stack := [.enter "a"] }).any fun walk =>
            walk.stack == [.enter "c", .finish "b", .enter "c", .finish "a"]) = true := by
    decide +kernel
  obtain ⟨m, hm, hgood⟩ := exists_ok_of_any hcompiled
  rw [Bool.and_eq_true, beq_iff_eq, Option.any_eq_true] at hgood
  obtain ⟨hnames, walk, hturns, hstack⟩ := hgood
  replace hstack := beq_iff_eq.mp hstack
  have hmem : walk ∈ (traced m.helpers .empty 0).moments :=
    mem_moments_of_turns hnames hturns (by rw [hstack]; exact List.cons_ne_nil _ _)
  exact ⟨m, walk, hm, hmem, hstack, (moments_disciplined m.helpers .empty 0).2.2 walk hmem⟩

end OdeSystem.Helper
