import OdeSystem.Proofs.Helper.Bounded
import OdeSystem.Proofs.Helper.Cycle
import OdeSystem.Proofs.Model.Reading
import OdeSystem.Proofs.Table

/-!
The values of helpers solve their equations. A helper is evaluated against the values that are there at the time;
the values that come later belong to helpers that it does not read, so against all values in the end it has the
same value. The one thing needed of the helpers is that what they read is recorded among their dependencies, as
reading them from text does unless a helper is named like a function.
-/

namespace OdeSystem.Helper

/-- The helpers whose evaluations are reported, in the order of these. -/
def evaluated (events : List Event) : List String :=
  events.filterMap fun
    | .helperEvaluated name _ => some name
    | _ => none

/-- Whether every helper that an equation reads is one of its dependencies. -/
def Recorded (helpers : Helpers) : Prop :=
  ∀ name e, helpers.get? name = some e → ∀ d ∈ e.expression.names, helpers.contains d = true →
    DependsOn helpers name d

theorem recorded_of_readFrom {isFunction : String → Bool} {helpers : Helpers}
    (read : ReadFrom isFunction .helper helpers)
    (plain : ∀ name, helpers.contains name = true → isFunction name = false) : Recorded helpers := by
  intro name e he d hd hhelper
  obtain ⟨hkind, -, text, htext⟩ := read name e he
  exact ⟨e, he, (Equation.mem_dependencies htext hkind).mpr ⟨hd, plain d hhelper⟩, hhelper⟩

theorem evaluated_concat (events : List Event) (name : String) (value : Float) :
    evaluated (events ++ [.helperEvaluated name value]) = evaluated events ++ [name] := List.filterMap_append ..

/-- A member of a list with one more at its end is that one, or a member before. -/
theorem split_concat {α : Type} {xs earlier later : List α} {last x : α} (h : xs ++ [last] = earlier ++ x :: later) :
    (earlier = xs ∧ x = last) ∨ ∃ later', xs = earlier ++ x :: later' := by
  rcases List.eq_nil_or_concat later with rfl | ⟨later', final, rfl⟩
  · obtain ⟨rfl, heq⟩ := List.append_inj' h rfl
    cases heq
    exact .inl ⟨rfl, rfl⟩
  · rw [List.concat_eq_append, ← List.cons_append, ← List.append_assoc] at h
    exact .inr ⟨later', (List.append_inj' h rfl).1⟩

/-- What holds of the values and the reported evaluations at every moment: those of what is done, each reported
once and behind its dependencies, and each value the one its equation has against the values so far. -/
structure Solved (helpers : Helpers) (state : State) (time : Float) (events : List Event) (walk : Walk) : Prop where
  done : ∀ name, walk.marks.get? name = some .done ↔ name ∈ evaluated events
  once : (evaluated events).Nodup
  behind : ∀ earlier name later, evaluated events = earlier ++ name :: later → ∀ d, DependsOn helpers name d →
    d ∈ earlier
  value : ∀ name ∈ evaluated events, ∃ e v, helpers.get? name = some e ∧ walk.values.get? name = some v ∧
    e.eval state time walk.values = .ok v
  only : ∀ name, (walk.values.get? name).isSome = true → name ∈ evaluated events

namespace Solved
variable {helpers : Helpers} {state : State} {time : Float} {walk next : Walk} {frame : Frame} {rest : List Frame}
  {events moved : List Event}

theorem initial : Solved helpers state time [] Walk.initial where
  done := by simp [Walk.initial, evaluated]
  once := .nil
  behind earlier name later h := by simp [evaluated] at h
  value := by simp [evaluated]
  only := by simp [Walk.initial]

/-- Neither the stack nor the mark of what is not done matters. -/
theorem of_marks {marks : Table Mark} {stack : List Frame} (h : Solved helpers state time events walk)
    (hmarks : ∀ name, marks.get? name = some .done ↔ walk.marks.get? name = some .done) :
    Solved helpers state time events { walk with marks, stack } where
  done name := (hmarks name).trans (h.done name)
  once := h.once
  behind := h.behind
  value := h.value
  only := h.only

/-- A value that an equation does not read leaves its evaluation as it is. -/
theorem eval_insert (recorded : Recorded helpers) {name other : String} {e : Equation} {values : HelperValues}
    {value : Float} (he : helpers.get? other = some e) (hname : helpers.contains name = true)
    (hfree : ¬ DependsOn helpers other name) :
    e.eval state time (values.insert name value) = e.eval state time values := by
  refine Equation.eval_helpers_congr fun d hd => Table.get?_insert_of_ne _ _ ?_
  rintro rfl
  exact hfree (recorded other e he d hd hname)

/-- What is to be finished has not been evaluated. -/
theorem not_mem_evaluated (h : Solved helpers state time events walk) (ordered : Ordered helpers walk) {name : String}
    (top : walk.stack = .finish name :: rest) : name ∉ evaluated events := fun hmem => by
  have hdone := (h.done name).mpr hmem
  rw [(ordered.inProgress name).mpr (top ▸ List.mem_cons_self ..)] at hdone
  cases hdone

/-- Neither what was evaluated before a helper nor the helper itself depends on it. -/
theorem not_dependsOn (h : Solved helpers state time events walk) (ordered : Ordered helpers walk)
    {name other : String} (top : walk.stack = .finish name :: rest)
    (hother : other ∈ evaluated events ∨ other = name) : ¬ DependsOn helpers other name := by
  intro hd
  refine h.not_mem_evaluated ordered top ((h.done name).mp ?_)
  rcases hother with hother | rfl
  · exact ordered.closed other ((h.done other).mpr hother) name hd
  · exact ordered.ready top hd

theorem finish (h : Solved helpers state time events walk) (ordered : Ordered helpers walk)
    (recorded : Recorded helpers) {name : String} {helper : Equation} {value : Float}
    (top : walk.stack = .finish name :: rest) (found : helpers.get? name = some helper)
    (hvalue : helper.eval state time walk.values = .ok value) :
    Solved helpers state time (events ++ [.helperEvaluated name value])
      { values := walk.values.insert name value, marks := walk.marks.insert name .done, stack := rest } where
  done d := by
    rw [evaluated_concat, get?_insert_done_eq_done, h.done, List.mem_append, List.mem_singleton, or_comm]
  once := by
    rw [evaluated_concat]
    exact List.nodup_append.mpr ⟨h.once, List.nodup_singleton _, fun a ha b hb heq => by
      rw [List.mem_singleton.mp hb] at heq
      exact h.not_mem_evaluated ordered top (heq ▸ ha)⟩
  behind earlier d later hsplit d' hd' := by
    rw [evaluated_concat] at hsplit
    rcases split_concat hsplit with ⟨rfl, rfl⟩ | ⟨later', hbefore⟩
    · exact (h.done d').mp (ordered.ready top hd')
    · exact h.behind earlier d later' hbefore d' hd'
  value d hd := by
    have hhelper : helpers.contains name = true := by simp [Table.contains, found]
    rw [evaluated_concat, List.mem_append, List.mem_singleton] at hd
    -- So the new value shows in no evaluation so far, nor in its own.
    have hfree : ¬ DependsOn helpers d name := h.not_dependsOn ordered top hd
    by_cases heq : d = name
    · subst heq
      refine ⟨helper, value, found, Table.get?_insert_self .., ?_⟩
      rw [eval_insert recorded found hhelper hfree]
      exact hvalue
    · obtain ⟨e, v, he, hv, heval⟩ := h.value d (hd.resolve_right heq)
      refine ⟨e, v, he, ?_, ?_⟩
      · rwa [Table.get?_insert_of_ne _ _ heq]
      · rw [eval_insert recorded he hhelper hfree]
        exact heval
  only d hd := by
    rw [evaluated_concat, List.mem_append, List.mem_singleton]
    rw [Table.get?_insert] at hd
    split at hd
    · rename_i heq
      exact .inr heq
    · exact .inl (h.only d hd)

theorem move (h : Solved helpers state time events walk) (ordered : Ordered helpers walk)
    (recorded : Recorded helpers) (top : walk.stack = frame :: rest)
    (hm : Moves helpers state time { walk with stack := rest } frame next moved) :
    Solved helpers state time (events ++ moved) next := by
  cases hm with
  | foreign foreign => exact (List.append_nil events).symm ▸ h.of_marks fun _ => Iff.rfl
  | skip done => exact (List.append_nil events).symm ▸ h.of_marks fun _ => Iff.rfl
  | @enter name helper pushed found unmarked fresh complete =>
    rw [List.append_nil]
    exact h.of_marks fun d => get?_insert_inProgress_eq_done unmarked
  | finish found hvalue => exact h.finish ordered recorded top found hvalue

end Solved

theorem Reachable.solved {helpers : Helpers} {state : State} {time : Float} {events : List Event} {walk : Walk}
    (recorded : Recorded helpers) (h : Reachable helpers state time events walk) :
    Solved helpers state time events walk := by
  induction h with
  | initial => exact .initial
  | root name _ _ _ _ ih => exact ih.of_marks fun _ => Iff.rfl
  | move before top moves ih => exact ih.move before.ordered recorded top moves

/-- The values of helpers, once there are any, are those of all helpers and solve their equations all at once;
each helper was evaluated once, and behind the helpers it depends on. -/
theorem evaluate_solves {isFunction : String → Bool} {helpers : Helpers} {state : State} {time : Float}
    {values : HelperValues} (read : ReadFrom isFunction .helper helpers)
    (plain : ∀ name, helpers.contains name = true → isFunction name = false)
    (h : (evaluate helpers state time).result = .ok values) :
    values.names = helpers.names ∧
    (∀ name e, helpers.get? name = some e → ∃ v, values.get? name = some v ∧ e.eval state time values = .ok v) ∧
    (evaluated (evaluate helpers state time).events).Perm helpers.names ∧
    ∀ earlier name later, evaluated (evaluate helpers state time).events = earlier ++ name :: later →
      ∀ d, DependsOn helpers name d → d ∈ earlier := by
  obtain ⟨walk, hreach, rfl, hdone⟩ := done_of_evaluate h
  have hsolved := hreach.solved (recorded_of_readFrom read plain)
  have hmem (name : String) : name ∈ evaluated (evaluate helpers state time).events ↔ name ∈ helpers.names := by
    refine ⟨fun hname => ?_, fun hname => (hsolved.done name).mp (hdone name (contains_of_mem_names hname))⟩
    obtain ⟨e, -, he, -⟩ := hsolved.value name hname
    exact Table.mem_names.mpr (by simp [he])
  have hvalues (name : String) : name ∈ walk.values.names ↔ name ∈ helpers.names := by
    rw [Table.mem_names, ← hmem name]
    refine ⟨hsolved.only name, fun hname => ?_⟩
    obtain ⟨-, v, -, hv, -⟩ := hsolved.value name hname
    simp [hv]
  refine ⟨?_, fun name e he => ?_, ?_, hsolved.behind⟩
  · exact Table.names_eq_of_mem hvalues
  · obtain ⟨e', v, he', hv, heval⟩ := hsolved.value name ((hmem name).mpr (Table.mem_names.mpr (by simp [he])))
    obtain rfl : e = e' := Option.some.inj (he.symm.trans he')
    exact ⟨v, hv, heval⟩
  · exact (List.perm_ext_iff_of_nodup hsolved.once (Table.nodup_names _)).mpr hmem

/-- Of a helper over two others that both rest on a fourth, the fourth is evaluated once, and for both. -/
theorem evaluate_solves_diamond :
    ∃ m values,
      (Model.compile knownFunctions.contains .usual
        (["top = left + right", "left = base * 2", "right = base + 1", "base = t"].map .ofText)).result = .ok m ∧
      m.helpers.names = ["base", "left", "right", "top"] ∧
      (evaluate m.helpers .empty 3).result = .ok values ∧ values.names = m.helpers.names ∧
      (∀ name e, m.helpers.get? name = some e → ∃ v, values.get? name = some v ∧ e.eval .empty 3 values = .ok v) ∧
      (evaluated (evaluate m.helpers .empty 3).events).Perm m.helpers.names := by
  have hcompiled : (Model.compile knownFunctions.contains .usual
      (["top = left + right", "left = base * 2", "right = base + 1", "base = t"].map .ofText)).result.toOption.any
        (fun m => m.helpers.names == ["base", "left", "right", "top"] &&
          (evaluateWithin m.helpers .empty 3 9).any (·.toOption.isSome)) = true := by
    decide +kernel
  obtain ⟨m, hm, hgood⟩ := exists_ok_of_any hcompiled
  rw [Bool.and_eq_true, beq_iff_eq] at hgood
  obtain ⟨hnames, hvalues⟩ := hgood
  obtain ⟨values, hvalues⟩ := exists_values_of_within hvalues
  have plain (name : String) (hname : m.helpers.contains name = true) : knownFunctions.contains name = false := by
    have hmem : name ∈ m.helpers.names := Table.mem_names.mpr hname
    rw [hnames] at hmem
    exact (by decide +kernel : ∀ n ∈ ["base", "left", "right", "top"], knownFunctions.contains n = false) name hmem
  obtain ⟨hkeys, hsolved, honce, -⟩ := evaluate_solves (Model.compile_readFrom hm .helper) plain hvalues
  exact ⟨m, values, hm, hnames, hvalues, hkeys, hsolved, honce⟩

end OdeSystem.Helper
