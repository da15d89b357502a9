import Mathlib.Data.List.Induction
import OdeSystem.Proofs.Helper.Solution

/-!
Which helpers matter to a helper. Its value solves its equation together with the values of its dependencies, and these
have been evaluated before it; so it is determined by its own equation and those of its dependencies, of their
dependencies, and so on. Two sets of helpers that agree on these give it one value, whatever else is in them and in
whatever order they are walked.
-/

namespace OdeSystem.Helper

/-- Whether a helper has a name among its dependencies, be it that of a helper or not. -/
def Names (helpers : Helpers) (helper dependency : String) : Prop :=
  ∃ e, helpers.get? helper = some e ∧ dependency ∈ e.dependencies

/-- Names that two sets of helpers have in common with all that matters to them: each has one equation in both sets, and
what it depends on is among the names again, or a helper in neither set. -/
def Shared (helpers helpers' : Helpers) (names : String → Prop) : Prop :=
  ∀ name, names name → ∃ e, helpers.get? name = some e ∧ helpers'.get? name = some e ∧
    ∀ d ∈ e.dependencies, names d ∨ helpers.contains d = false ∧ helpers'.contains d = false

section
variable {helpers helpers' : Helpers} {state : State} {time : Float} {values values' : HelperValues}
  {names : String → Prop} {name : String}

/-- What a shared helper reads is a shared dependency of it, or a helper in neither set. -/
theorem Shared.of_read (shared : Shared helpers helpers' names) (recorded : Recorded helpers)
    (recorded' : Recorded helpers') (hname : names name) {e : Equation} (he : helpers.get? name = some e)
    (he' : helpers'.get? name = some e) {d : String} (hd : d ∈ e.expression.names) :
    names d ∧ DependsOn helpers name d ∨ helpers.contains d = false ∧ helpers'.contains d = false := by
  obtain ⟨_, hfound, -, hdependencies⟩ := shared name hname
  obtain rfl := Option.some.inj (he.symm.trans hfound)
  cases hhelper : helpers.contains d with
  | true =>
    have hdepends : DependsOn helpers name d := recorded name e he d hd hhelper
    obtain ⟨_, hfound, hmem, -⟩ := id hdepends
    obtain rfl := Option.some.inj (he.symm.trans hfound)
    refine .inl ⟨(hdependencies d hmem).resolve_right fun hnone => ?_, hdepends⟩
    rw [hnone.1] at hhelper
    cases hhelper
  | false =>
    refine .inr ⟨rfl, ?_⟩
    -- A helper of the second set alone would be a dependency, and so it would be shared.
    by_contra hhelper'
    obtain ⟨_, hfound, hmem, -⟩ := recorded' name e he' d hd (by simpa using hhelper')
    obtain rfl := Option.some.inj (he'.symm.trans hfound)
    rcases hdependencies d hmem with hshared | hnone
    · obtain ⟨_, hfound, -⟩ := shared d hshared
      rw [Table.contains, hfound] at hhelper
      cases hhelper
    · exact hhelper' hnone.2

/-- In an order in which every helper stands behind its dependencies, what follows from the dependencies holds of
all. -/
theorem order_induction {order : List String} {motive : String → Prop}
    (behind : ∀ earlier name later, order = earlier ++ name :: later → ∀ d, DependsOn helpers name d → d ∈ earlier)
    (step : ∀ name ∈ order, (∀ d, DependsOn helpers name d → motive d) → motive name) :
    ∀ name ∈ order, motive name := by
  have upTo (front : List String) : ∀ later, order = front ++ later → ∀ name ∈ front, motive name := by
    induction front using List.reverseRecOn with
    | nil => simp
    | append_singleton earlier last ih =>
      intro later hsplit name hname
      rw [List.append_assoc, List.singleton_append] at hsplit
      have hearlier := ih (last :: later) hsplit
      rcases List.mem_append.mp hname with hname | hname
      · exact hearlier name hname
      · obtain rfl := List.mem_singleton.mp hname
        exact step name (by simp [hsplit]) fun d hd => hearlier d (behind earlier name later hsplit d hd)
  exact upTo order [] (List.append_nil _).symm

/-- A helper whose transitive dependencies are the same in two sets is shared by them, with these. -/
theorem shared_of_reachable
    (same : ∀ d, Relation.ReflTransGen (Names helpers) name d → helpers.get? d = helpers'.get? d) :
    Shared helpers helpers' fun d =>
      Relation.ReflTransGen (Names helpers) name d ∧ helpers.contains d = true := by
  rintro d ⟨hpath, hhelper⟩
  obtain ⟨e, he⟩ := Option.isSome_iff_exists.mp hhelper
  refine ⟨e, he, (same d hpath).symm.trans he, fun d' hmem => ?_⟩
  have hpath' : Relation.ReflTransGen (Names helpers) name d' := hpath.tail ⟨e, he, hmem⟩
  cases hhelper' : helpers.contains d' with
  | true => exact .inl ⟨hpath', hhelper'⟩
  | false =>
    refine .inr ⟨rfl, ?_⟩
    rw [Table.contains, ← same d' hpath']
    exact hhelper'

/-- What is no helper has no value. -/
theorem Solved.get?_eq_none {events : List Event} {walk : Walk} (h : Solved helpers state time events walk)
    (foreign : helpers.contains name = false) : walk.values.get? name = none := by
  by_contra hvalue
  obtain ⟨e, -, he, -⟩ := h.value name (h.only name (Option.isSome_iff_ne_none.mpr hvalue))
  rw [Table.contains, he] at foreign
  cases foreign

/-- Shared helpers have one value in both sets. -/
theorem Shared.agree (shared : Shared helpers helpers' names) (recorded : Recorded helpers)
    (recorded' : Recorded helpers') (h : (evaluate helpers state time).result = .ok values)
    (h' : (evaluate helpers' state time).result = .ok values') :
    ∀ name, names name → ∃ v, values.get? name = some v ∧ values'.get? name = some v := by
  obtain ⟨walk, hreach, rfl, hdone⟩ := done_of_evaluate h
  obtain ⟨walk', hreach', rfl, hdone'⟩ := done_of_evaluate h'
  have hsolved := hreach.solved recorded
  have hsolved' := hreach'.solved recorded'
  have hall : ∀ name ∈ evaluated (evaluate helpers state time).events, names name →
      ∃ v, walk.values.get? name = some v ∧ walk'.values.get? name = some v := by
    refine order_induction hsolved.behind fun name hmem ih hname => ?_
    obtain ⟨e, v, he, hv, heval⟩ := hsolved.value name hmem
    obtain ⟨_, hfound, he', -⟩ := shared name hname
    obtain rfl := Option.some.inj (he.symm.trans hfound)
    obtain ⟨_, v', hfound', hv', heval'⟩ :=
      hsolved'.value name ((hsolved'.done name).mp (hdone' name (by simp [Table.contains, he'])))
    obtain rfl := Option.some.inj (he'.symm.trans hfound')
    -- What it reads has one value in both sets by now, or none in either.
    have hsame : e.eval state time walk.values = e.eval state time walk'.values := by
      refine Equation.eval_helpers_congr fun d hd => ?_
      rcases shared.of_read recorded recorded' hname he he' hd with ⟨hd', hdepends⟩ | ⟨hnone, hnone'⟩
      · obtain ⟨w, hw, hw'⟩ := ih d hdepends hd'
        rw [hw, hw']
      · rw [hsolved.get?_eq_none hnone, hsolved'.get?_eq_none hnone']
    rw [hsame, heval'] at heval
    cases heval
    exact ⟨v, hv, hv'⟩
  intro name hname
  obtain ⟨e, he, -⟩ := shared name hname
  exact hall name ((hsolved.done name).mp (hdone name (by simp [Table.contains, he]))) hname

end

/-- Helpers that two sets share have one value in both, and so has a helper whose transitive dependencies are the same
in both: adding, removing or changing others makes no difference to it. -/
theorem evaluate_local {isFunction : String → Bool} {helpers helpers' : Helpers} {state : State} {time : Float}
    {values values' : HelperValues} (read : ReadFrom isFunction .helper helpers)
    (plain : ∀ name, helpers.contains name = true → isFunction name = false)
    (read' : ReadFrom isFunction .helper helpers')
    (plain' : ∀ name, helpers'.contains name = true → isFunction name = false)
    (h : (evaluate helpers state time).result = .ok values)
    (h' : (evaluate helpers' state time).result = .ok values') :
    (∀ names, Shared helpers helpers' names → ∀ name, names name →
      ∃ v, values.get? name = some v ∧ values'.get? name = some v) ∧
    ∀ name, (∀ d, Relation.ReflTransGen (Names helpers) name d → helpers.get? d = helpers'.get? d) →
      values.get? name = values'.get? name := by
  have hshared {names : String → Prop} (shared : Shared helpers helpers' names) :=
    shared.agree (recorded_of_readFrom read plain) (recorded_of_readFrom read' plain') h h'
  refine ⟨fun names shared => hshared shared, fun name same => ?_⟩
  cases hhelper : helpers.contains name with
  | true =>
    obtain ⟨v, hv, hv'⟩ := hshared (shared_of_reachable same) name ⟨.refl, hhelper⟩
    rw [hv, hv']
  | false =>
    have hhelper' : helpers'.contains name = false := by
      rw [Table.contains, ← same name .refl]
      exact hhelper
    obtain ⟨walk, hreach, rfl, -⟩ := done_of_evaluate h
    obtain ⟨walk', hreach', rfl, -⟩ := done_of_evaluate h'
    rw [(hreach.solved (recorded_of_readFrom read plain)).get?_eq_none hhelper,
      (hreach'.solved (recorded_of_readFrom read' plain')).get?_eq_none hhelper']

/-- Helpers that have been read from texts, by their names. -/
theorem readFrom_ofList {isFunction : String → Bool} {kind : EquationKind} {equations : List Equation}
    (h : ∀ e ∈ equations, e.kind = kind ∧ ∃ text, Equation.ofText isFunction text = .ok e) :
    ReadFrom isFunction kind (.ofList (equations.map fun e => (e.name, e))) := by
  intro name e he
  obtain ⟨e', hmem, heq⟩ := List.mem_map.mp (Table.mem_of_get?_ofList he)
  obtain ⟨rfl, rfl⟩ := Prod.mk.inj heq
  obtain ⟨hkind, htext⟩ := h e' hmem
  exact ⟨hkind, rfl, htext⟩

/-- A helper over another, alone and with two more, one of which is walked before it and reads it. -/
theorem evaluate_local_added :
    ∃ a b c d values values',
      ["a = c + 1", "b = x + 1", "c = 2 b", "d = 7"].mapM (Equation.ofText knownFunctions.contains) =
        .ok [a, b, c, d] ∧
      (evaluate (.ofList ([b, c].map fun e => (e.name, e))) (Table.empty.insert "x" 1) 0).result = .ok values ∧
      (evaluate (.ofList ([a, b, c, d].map fun e => (e.name, e))) (Table.empty.insert "x" 1) 0).result =
        .ok values' ∧
      ∃ v, values.get? "c" = some v ∧ values'.get? "c" = some v := by
  have hread : (["a = c + 1", "b = x + 1", "c = 2 b", "d = 7"].mapM
      (Equation.ofText knownFunctions.contains)).toOption.any (fun es =>
        es.all (fun e => e.kind == .helper && !knownFunctions.contains e.name) &&
        es.map (·.name) == ["a", "b", "c", "d"] && es.map (·.dependencies) == [["c"], ["x"], ["b"], []] &&
        (evaluateWithin (.ofList (((es.drop 1).take 2).map fun e => (e.name, e))) (Table.empty.insert "x" 1) 0 9).any
          (·.toOption.isSome) &&
        (evaluateWithin (.ofList (es.map fun e => (e.name, e))) (Table.empty.insert "x" 1) 0 9).any
          (·.toOption.isSome)) = true := by
    decide +kernel
  obtain ⟨equations, hequations, hfound⟩ := exists_ok_of_any hread
  simp only [Bool.and_eq_true, beq_iff_eq, List.all_eq_true, Bool.not_eq_true'] at hfound
  obtain ⟨⟨⟨⟨hhelpers, hnames⟩, hdependencies⟩, halone⟩, hadded⟩ := hfound
  obtain ⟨a, _, rfl, ha, hrest⟩ := List.map_eq_cons_iff.mp hnames
  obtain ⟨b, _, rfl, hb, hrest⟩ := List.map_eq_cons_iff.mp hrest
  obtain ⟨c, _, rfl, hc, hrest⟩ := List.map_eq_cons_iff.mp hrest
  obtain ⟨d, _, rfl, hd, hrest⟩ := List.map_eq_cons_iff.mp hrest
  obtain rfl := List.map_eq_nil_iff.mp hrest
  obtain ⟨values, hvalues⟩ := exists_values_of_within halone
  obtain ⟨values', hvalues'⟩ := exists_values_of_within hadded
  refine ⟨a, b, c, d, values, values', hequations, hvalues, hvalues', ?_⟩
  have read (chosen : List Equation) (hchosen : chosen ⊆ [a, b, c, d]) :
      ReadFrom knownFunctions.contains .helper (.ofList (chosen.map fun e => (e.name, e))) := by
    refine readFrom_ofList fun e he => ⟨(hhelpers e (hchosen he)).1, ?_⟩
    obtain ⟨text, -, htext⟩ := exists_of_mem_mapM hequations (hchosen he)
    exact ⟨text, htext⟩
  have plain (chosen : List Equation) (hchosen : chosen ⊆ [a, b, c, d]) (name : String)
      (hname : (Table.ofList (chosen.map fun e => (e.name, e))).contains name = true) :
      knownFunctions.contains name = false := by
    obtain ⟨e, he⟩ := Option.isSome_iff_exists.mp hname
    obtain ⟨e', hmem, heq⟩ := List.mem_map.mp (Table.mem_of_get?_ofList he)
    obtain ⟨rfl, rfl⟩ := Prod.mk.inj heq
    exact (hhelpers e' (hchosen hmem)).2
  have hsub : [b, c] ⊆ [a, b, c, d] := by simp
  refine (evaluate_local (read _ hsub) (plain _ hsub) (read _ (List.Subset.refl _)) (plain _ (List.Subset.refl _))
    hvalues hvalues').1 (fun name => name = "b" ∨ name = "c") ?_ "c" (.inr rfl)
  simp only [List.map_cons, List.map_nil, List.cons.injEq, and_true] at hdependencies
  obtain ⟨-, hbehind_b, hbehind_c, -⟩ := hdependencies
  have nil (name : String) : (Table.ofList ([] : List (String × Equation))).get? name = none := rfl
  rintro name (rfl | rfl)
  · exact ⟨b, by simp [Table.get?_ofList_cons, nil, hb, hc], by simp [Table.get?_ofList_cons, nil, ha, hb, hc, hd],
      by simp [Table.contains, Table.get?_ofList_cons, nil, ha, hb, hc, hd, hbehind_b]⟩
  · exact ⟨c, by simp [Table.get?_ofList_cons, nil, hc], by simp [Table.get?_ofList_cons, nil, hc, hd],
      by simp [hbehind_c]⟩

end OdeSystem.Helper
