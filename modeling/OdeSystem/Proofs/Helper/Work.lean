import OdeSystem.Proofs.Helper.Moments
import OdeSystem.Proofs.Model.Reading

/-!
The work of an evaluation. What is still to be done at a moment is at most the frames on the stack and, for every
helper that has not been entered, the frame to finish it and a frame for each of its dependencies. Every turn brings
that down by one at least, though the stack may grow and one helper may be put on it many times; only to begin at a
helper adds a frame. So the turns are at most two for every helper and one for every dependency.
-/

namespace OdeSystem.Helper

/-- The dependencies of a helper that are helpers. -/
def dependenciesAmong (helpers : Helpers) (helper : Equation) : List String :=
  helper.dependencies.filter helpers.contains

/-- The edges of the graph: each helper with each helper it depends on. -/
def edges (helpers : Helpers) : List (String × String) :=
  helpers.entries.flatMap fun entry => (dependenciesAmong helpers entry.2).map fun d => (entry.1, d)

/-- The frames that entering a helper may put on the stack, if it has not been entered. -/
def charge (helpers : Helpers) (marks : Table Mark) (entry : String × Equation) : Nat :=
  if (marks.get? entry.1).isNone then 1 + (dependenciesAmong helpers entry.2).length else 0

/-- The frames that entering helpers may put on the stack. -/
def outstanding (helpers : Helpers) (marks : Table Mark) : List (String × Equation) → Nat
  | [] => 0
  | entry :: rest => charge helpers marks entry + outstanding helpers marks rest

/-- The frames that may still be taken off the stack. -/
def potential (helpers : Helpers) (walk : Walk) : Nat :=
  walk.stack.length + outstanding helpers walk.marks helpers.entries

section
variable {helpers : Helpers} {state : State} {time : Float} {walk next : Walk} {marks : Table Mark} {name : String}

/-! ### Edges -/

theorem mem_edges {pair : String × String} : pair ∈ edges helpers ↔ DependsOn helpers pair.1 pair.2 := by
  simp only [edges, dependenciesAmong, List.mem_flatMap, List.mem_map, List.mem_filter, DependsOn]
  constructor
  · rintro ⟨⟨name, e⟩, hentry, d, ⟨hd, hhelper⟩, rfl⟩
    exact ⟨e, Table.get?_of_mem_entries hentry, hd, hhelper⟩
  · rintro ⟨e, he, hd, hhelper⟩
    exact ⟨(pair.1, e), Table.mem_entries_of_get? he, pair.2, ⟨hd, hhelper⟩, rfl⟩

/-- Where no helper names a dependency twice, each edge is counted once. -/
theorem nodup_edges (sets : ∀ name e, helpers.get? name = some e → e.dependencies.Nodup) :
    (edges helpers).Nodup := by
  refine List.nodup_flatMap.mpr ⟨fun entry hentry => ?_, ?_⟩
  · have hset : (dependenciesAmong helpers entry.2).Nodup :=
      (sets entry.1 entry.2 (Table.get?_of_mem_entries hentry)).filter _
    exact hset.map fun _ _ heq => (Prod.mk.inj heq).2
  · refine helpers.increasing.imp fun {earlier later} hlt pair hearlier hlater => ?_
    obtain ⟨_, -, rfl⟩ := List.mem_map.mp hearlier
    obtain ⟨_, -, heq⟩ := List.mem_map.mp hlater
    rw [(Prod.mk.inj heq).1] at hlt
    exact String.lt_irrefl _ hlt

/-! ### What is outstanding -/

theorem charge_insert_le (mark : Mark) (entry : String × Equation) :
    charge helpers (marks.insert name mark) entry ≤ charge helpers marks entry := by
  unfold charge
  rw [Table.get?_insert]
  split
  · simp
  · exact Nat.le_refl _

theorem outstanding_cons (entry : String × Equation) (rest : List (String × Equation)) :
    outstanding helpers marks (entry :: rest) = charge helpers marks entry + outstanding helpers marks rest := rfl

/-- Before anything has been entered, a frame for every helper and one for every edge are outstanding. -/
theorem outstanding_empty (entries : List (String × Equation)) :
    outstanding helpers .empty entries =
      entries.length +
        (entries.flatMap fun entry => (dependenciesAmong helpers entry.2).map fun d => (entry.1, d)).length := by
  induction entries with
  | nil => rfl
  | cons entry rest ih =>
    have hcharge : charge helpers .empty entry = 1 + (dependenciesAmong helpers entry.2).length := rfl
    rw [outstanding_cons, ih, hcharge, List.length_cons, List.flatMap_cons, List.length_append, List.length_map]
    omega

theorem outstanding_insert_le (mark : Mark) (entries : List (String × Equation)) :
    outstanding helpers (marks.insert name mark) entries ≤ outstanding helpers marks entries := by
  induction entries with
  | nil => exact Nat.le_refl _
  | cons entry rest ih => exact Nat.add_le_add (charge_insert_le mark entry) ih

/-- Entering a helper settles what is outstanding for it. -/
theorem outstanding_insert (mark : Mark) {helper : Equation} {entries : List (String × Equation)}
    (hmem : (name, helper) ∈ entries) (unmarked : marks.get? name = none) :
    outstanding helpers (marks.insert name mark) entries + (1 + (dependenciesAmong helpers helper).length) ≤
      outstanding helpers marks entries := by
  induction entries with
  | nil => cases hmem
  | cons entry rest ih =>
    rw [outstanding_cons, outstanding_cons]
    rcases List.mem_cons.mp hmem with rfl | hmem
    · have hrest : outstanding helpers (marks.insert name mark) rest ≤ outstanding helpers marks rest :=
        outstanding_insert_le mark rest
      simp only [charge, Table.get?_insert_self, unmarked, Option.isNone_none, Option.isNone_some, ↓reduceIte,
        Bool.false_eq_true]
      omega
    · have hentry : charge helpers (marks.insert name mark) entry ≤ charge helpers marks entry :=
        charge_insert_le mark entry
      have hrest := ih hmem
      omega

/-! ### Turns -/

/-- Only dependencies that are helpers are put on the stack. -/
theorem length_of_pushDependencies {names : List String} {stack stack' : List Frame}
    (h : pushDependencies helpers marks names stack = .ok stack') :
    stack'.length ≤ (names.filter helpers.contains).length + stack.length := by
  induction names generalizing stack with
  | nil =>
    cases h
    simp
  | cons d rest ih =>
    unfold pushDependencies at h
    split at h
    · rename_i hhelper
      rw [List.filter_cons_of_pos hhelper, List.length_cons]
      split at h
      · have := ih h
        omega
      · cases h
      · have := ih h
        rw [List.length_cons] at this
        omega
    · rename_i hforeign
      rw [List.filter_cons_of_neg hforeign]
      exact ih h

/-- Every turn brings down what may still be done. -/
theorem potential_of_step {values : HelperValues} {frame : Frame} {stack : List Frame}
    (h : (step helpers state time ⟨values, marks, stack⟩ frame).result = .ok next) :
    potential helpers next + 1 ≤ potential helpers ⟨values, marks, frame :: stack⟩ := by
  unfold step at h
  cases found : helpers.get? frame.name with
  | none =>
    simp only [found, Logged.result_pure, Except.ok.injEq] at h
    subst h
    simp only [potential, List.length_cons]
    omega
  | some helper =>
    simp only [found] at h
    cases frame with
    | enter name =>
      simp only [Logged.result_ofResult, enter] at h
      split at h
      · cases h
        simp only [potential, List.length_cons]
        omega
      · cases h
      · rename_i unmarked
        obtain ⟨pushed, hpush, rfl⟩ := exists_of_map_eq_ok h
        have hlength := length_of_pushDependencies hpush
        have hsettled : outstanding helpers (marks.insert name .inProgress) helpers.entries +
            (1 + (dependenciesAmong helpers helper).length) ≤ outstanding helpers marks helpers.entries :=
          outstanding_insert .inProgress (Table.mem_entries_of_get? found) unmarked
        rw [List.filter_reverse, List.length_reverse, List.length_cons] at hlength
        simp only [potential, List.length_cons, dependenciesAmong] at hsettled ⊢
        omega
    | finish name =>
      obtain ⟨value, -, h⟩ := Logged.bind_eq_ok.mp h
      cases h
      have hle : outstanding helpers (marks.insert name .done) helpers.entries ≤
          outstanding helpers marks helpers.entries := outstanding_insert_le .done helpers.entries
      simp only [potential, List.length_cons]
      omega

/-- A run takes no more turns than may be done, and what it leaves is the less by as many. -/
theorem length_tracedRun (walk : Walk) :
    (tracedRun helpers state time walk).moments.length ≤ potential helpers walk ∧
    ∀ next, (tracedRun helpers state time walk).result = .ok next →
      (tracedRun helpers state time walk).moments.length + potential helpers next ≤ potential helpers walk := by
  fun_induction tracedRun helpers state time walk with
  | case1 values marks =>
    refine ⟨Nat.zero_le _, fun next hnext => ?_⟩
    cases hnext
    simp
  | case2 values marks frame stack e he =>
    refine ⟨?_, fun next hnext => ?_⟩
    · simp only [potential, List.length_cons, List.length_nil]
      omega
    · cases hnext
  | case3 values marks frame stack middle hmiddle ih =>
    have hturn := potential_of_step hmiddle
    refine ⟨?_, fun next hnext => ?_⟩
    · rw [List.length_cons]
      omega
    · have := ih.2 next hnext
      rw [List.length_cons]
      omega

theorem stack_of_tracedRun (h : (tracedRun helpers state time walk).result = .ok next) : next.stack = [] := by
  fun_induction tracedRun helpers state time walk with
  | case1 values marks =>
    cases h
    rfl
  | case2 values marks frame stack e he => cases h
  | case3 values marks frame stack middle hmiddle ih => exact ih h

theorem Traced.length_moments_andThen {α β : Type} {x : Traced α} {f : α → Traced β} {bound : Nat}
    (hx : x.moments.length ≤ bound)
    (hf : ∀ a, x.result = .ok a → x.moments.length + (f a).moments.length ≤ bound) :
    (x.andThen f).moments.length ≤ bound := by
  obtain ⟨moments, result⟩ := x
  cases result with
  | error e => exact hx
  | ok a => exact List.length_append.trans_le (hf a rfl)

/-- To begin at a helper adds one frame to what may be done. -/
theorem length_tracedWalks {roots : List String} (walk : Walk) (idle : walk.stack = []) :
    (tracedWalks helpers state time roots walk).moments.length ≤ potential helpers walk + roots.length := by
  induction roots generalizing walk with
  | nil => exact Nat.zero_le _
  | cons root roots ih =>
    rw [tracedWalks, List.length_cons]
    split
    · have := ih walk idle
      omega
    · have hbegun : potential helpers { walk with stack := [.enter root] } = potential helpers walk + 1 := by
        simp only [potential, idle, List.length_cons, List.length_nil]
        omega
      obtain ⟨hturns, hleft⟩ :=
        @length_tracedRun helpers state time { walk with stack := [.enter root] }
      refine Traced.length_moments_andThen (by omega) fun next hnext => ?_
      have hempty : next.stack = [] := stack_of_tracedRun hnext
      have := hleft next hnext
      have := ih next hempty
      omega

/-- The dependencies of helpers that have been read from text are no lists with repetitions. -/
theorem nodup_dependencies_of_readFrom {isFunction : String → Bool} (read : ReadFrom isFunction .helper helpers)
    {e : Equation} (he : helpers.get? name = some e) : e.dependencies.Nodup := by
  obtain ⟨hkind, -, text, htext⟩ := read name e he
  exact Equation.nodup_dependencies htext

end

/-- However the helpers depend on one another, an evaluation takes no more turns than two for every helper and one for
every dependency between helpers; these are the edges of the graph, each counted once where no helper names a
dependency twice. The turns are those, and no others, in which the evaluation handles one frame after the other. -/
theorem moments_linear (helpers : Helpers) (state : State) (time : Float) :
    (traced helpers state time).result = (evaluate helpers state time).result ∧
    (∀ moments result, Proceeds helpers state time helpers.names Walk.initial moments result ↔
      moments = (traced helpers state time).moments ∧ result = (evaluate helpers state time).result) ∧
    (traced helpers state time).moments.length ≤ 2 * helpers.size + (edges helpers).length ∧
    (∀ name d, (name, d) ∈ edges helpers ↔ DependsOn helpers name d) ∧
    ((∀ name e, helpers.get? name = some e → e.dependencies.Nodup) → (edges helpers).Nodup) := by
  refine ⟨result_traced helpers state time, fun moments result => proceeds_iff, ?_, fun name d => mem_edges,
    nodup_edges⟩
  have hnames : helpers.names.length = helpers.size := List.length_map _
  have hinitial : potential helpers Walk.initial = helpers.size + (edges helpers).length :=
    (Nat.zero_add _).trans (outstanding_empty helpers.entries)
  have hwalks : (tracedWalks helpers state time helpers.names Walk.initial).moments.length ≤
      potential helpers Walk.initial + helpers.names.length := length_tracedWalks Walk.initial rfl
  refine Traced.length_moments_andThen (by omega) fun walk _ => ?_
  rw [List.length_nil]
  omega

/-- A helper over two others that both rest on a fourth takes twelve turns at most. -/
theorem moments_linear_diamond :
    ∃ m, (Model.compile knownFunctions.contains .usual
        (["top = left + right", "left = base * 2", "right = base + 1", "base = t"].map .ofText)).result = .ok m ∧
      m.helpers.size = 4 ∧ (edges m.helpers).length = 4 ∧ (edges m.helpers).Nodup ∧
      (traced m.helpers .empty 3).moments.length ≤ 12 := by
  have hcompiled : (Model.compile knownFunctions.contains .usual
      (["top = left + right", "left = base * 2", "right = base + 1", "base = t"].map .ofText)).result.toOption.any
        (fun m => m.helpers.size == 4 && (edges m.helpers).length == 4) = true := by
    decide +kernel
  obtain ⟨m, hm, hgood⟩ := exists_ok_of_any hcompiled
  simp only [Bool.and_eq_true, beq_iff_eq] at hgood
  obtain ⟨hsize, hedges⟩ := hgood
  obtain ⟨-, -, hlength, -, hnodup⟩ := moments_linear m.helpers .empty 3
  rw [hsize, hedges] at hlength
  exact ⟨m, hm, hsize, hedges,
    hnodup fun _ _ he => nodup_dependencies_of_readFrom (Model.compile_readFrom hm .helper) he, hlength⟩

end OdeSystem.Helper
