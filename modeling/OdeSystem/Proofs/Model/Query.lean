import OdeSystem.Proofs.Model.Evaluation
import OdeSystem.Simulation.Basic

/-!
The ways to ask for values agree. All of them evaluate the helpers first, and every helper has a value then; so they fail
alike, and a name has one value as a helper and one as a variable, wherever it is asked for. Only a name that is both
tells them apart: asked for by itself it is the helper, among all values it is the variable.
-/

namespace OdeSystem

theorem Table.get?_insertAll_entries {α : Type} (t u : Table α) (name : String) :
    (t.insertAll u.entries).get? name = (u.get? name).or (t.get? name) := by
  rw [Table.get?_insertAll, Table.ofList_entries]

namespace Model

section
variable {m : Model} {state : State} {time : Float} {values : HelperValues} {slopes all : Table Float} {name : String}

theorem names_of_helperValues (h : (m.helperValues state time).result = .ok values) :
    values.names = m.helpers.names :=
  Helper.names_of_evaluate h

theorem get?_of_derivativesWith (h : m.derivativesWith state time values = .ok slopes) {e : Equation}
    (he : m.derivatives.get? name = some e) :
    ∃ x, e.eval state time values = .ok x ∧ slopes.get? name = some x := by
  obtain ⟨entries, hentries, rfl⟩ := exists_of_map_eq_ok h
  obtain ⟨entry, hentry, heval⟩ := exists_mem_of_mapM hentries (Table.mem_entries_of_get? he)
  obtain ⟨x, hx, rfl⟩ := exists_of_map_eq_ok heval
  refine ⟨x, hx, Table.get?_insertAll_of_mem ?_ hentry⟩
  rw [names_of_entries hentries]
  exact m.derivatives.nodup_names

theorem allValues_eq_ok :
    (m.allValues state time).result = .ok all ↔
      ∃ values slopes, (m.helperValues state time).result = .ok values ∧
        m.derivativesWith state time values = .ok slopes ∧ values.insertAll slopes.entries = all := by
  constructor
  · intro h
    obtain ⟨values, hvalues, h⟩ := Logged.bind_eq_ok.mp h
    obtain ⟨slopes, hslopes, h⟩ := Logged.bind_eq_ok.mp h
    exact ⟨values, slopes, hvalues, hslopes, Except.ok.inj h⟩
  · rintro ⟨values, slopes, hvalues, hslopes, rfl⟩
    exact Logged.bind_eq_ok.mpr ⟨values, hvalues, Logged.bind_eq_ok.mpr ⟨slopes, hslopes, rfl⟩⟩

/-- The values of all helpers and derivatives are there when those of the derivatives are, and fail for the same
reason. -/
theorem allValues_fails_as_derivativeValues (m : Model) (state : State) (time : Float) :
    (m.allValues state time).result.map (fun _ => ()) = (m.derivativeValues state time).result.map fun _ => () := by
  rw [allValues, derivativeValues, Logged.result_bind, Logged.result_bind]
  cases (m.helperValues state time).result with
  | error e => rfl
  | ok values =>
    simp only [Except.bind, Logged.result_bind, Logged.result_ofResult]
    cases m.derivativesWith state time values <;> rfl

/-! ### One name -/

theorem valueOf_helper (h : (m.helperValues state time).result = .ok values) (hname : name ∈ m.helpers.names) :
    ∃ x, values.get? name = some x ∧ (m.valueOf name state time).result = .ok x := by
  have hmem : name ∈ values.names := (names_of_helperValues h).symm ▸ hname
  obtain ⟨x, hx⟩ := Option.isSome_iff_exists.mp (Table.mem_names.mp hmem)
  refine ⟨x, hx, ?_⟩
  rw [valueOf, if_pos (Helper.contains_of_mem_names hname)]
  refine Logged.bind_eq_ok.mpr ⟨values, h, ?_⟩
  rw [hx]
  rfl

theorem result_valueOf_variable {e : Equation} (hname : name ∉ m.helpers.names)
    (he : m.derivatives.get? name = some e) :
    (m.valueOf name state time).result = (m.helperValues state time).result.bind (e.eval state time) := by
  have hplain : m.helpers.contains name ≠ true := fun h => hname (Table.mem_names.mpr h)
  rw [valueOf, if_neg hplain, he, Logged.result_bind]
  rfl

/-- A name is unknown exactly when it is neither a helper nor a variable. -/
theorem valueOf_eq_unknownVariable {other : String} :
    (m.valueOf name state time).result = .error (.unknownVariable other) ↔
      other = name ∧ name ∉ m.helpers.names ∧ name ∉ m.variableNames := by
  by_cases hhelper : name ∈ m.helpers.names
  · refine iff_of_false (fun h => ?_) fun h => h.2.1 hhelper
    cases hvalues : (m.helperValues state time).result with
    | ok values =>
      obtain ⟨x, -, hx⟩ := valueOf_helper hvalues hhelper
      rw [hx] at h
      cases h
    | error e =>
      rw [valueOf, if_pos (Helper.contains_of_mem_names hhelper), Logged.result_bind, hvalues] at h
      cases h
      exact Helper.evaluate_ne_unknownVariable hvalues
  · cases he : m.derivatives.get? name with
    | some e =>
      have hvariable : name ∈ m.variableNames := Table.mem_names.mpr (by rw [he]; rfl)
      refine iff_of_false (fun h => ?_) fun h => h.2.2 hvariable
      rw [result_valueOf_variable hhelper he] at h
      rcases bind_eq_error.mp h with h | ⟨values, -, h⟩
      · exact Helper.evaluate_ne_unknownVariable h
      · exact Equation.eval_ne_unknownVariable h
    | none =>
      have hvariable : name ∉ m.variableNames := fun h => by
        have hsome := Table.mem_names.mp h
        rw [he] at hsome
        cases hsome
      have hplain : m.helpers.contains name ≠ true := fun h => hhelper (Table.mem_names.mpr h)
      rw [valueOf, if_neg hplain, he]
      constructor
      · intro h
        cases h
        exact ⟨rfl, hhelper, hvariable⟩
      · rintro ⟨rfl, -, -⟩
        rfl

end

end Model

namespace Simulation

/-- All values are there when the derivatives are, or they fail for the same reason; a name is unknown exactly when it is
neither a helper nor a variable; and all values are those of the helpers and of the variables, each the one it has when
asked for by itself, but for a name that is both: by itself it is the helper, among all the variable. The derivatives for
several states are those for each of them. -/
theorem queries_agree (s : Simulation) (state : State) (time : Float) :
    (s.model.allValues state time).result.map (fun _ => ()) =
      (s.model.derivativeValues state time).result.map (fun _ => ()) ∧
    (∀ name other, (s.model.valueOf name state time).result = .error (.unknownVariable other) ↔
      other = name ∧ name ∉ s.model.helpers.names ∧ name ∉ s.model.variableNames) ∧
    (∀ all, (s.model.allValues state time).result = .ok all →
      ∃ values slopes, (s.model.helperValues state time).result = .ok values ∧
        (s.model.derivativeValues state time).result = .ok slopes ∧
        (∀ name, name ∈ all.names ↔ name ∈ s.model.helpers.names ∨ name ∈ s.model.variableNames) ∧
        (∀ x ∈ s.model.variableNames, ∃ v, slopes.get? x = some v ∧ all.get? x = some v ∧
          (x ∉ s.model.helpers.names → (s.model.valueOf x state time).result = .ok v)) ∧
        ∀ name ∈ s.model.helpers.names, ∃ v, values.get? name = some v ∧
          (s.model.valueOf name state time).result = .ok v ∧
          (name ∉ s.model.variableNames → all.get? name = some v)) ∧
    ∀ states tables, s.batch states = .ok tables ↔
      List.Forall₂ (fun state slopes => (s.model.derivativeValues state s.time).result = .ok slopes) states tables := by
  refine ⟨s.model.allValues_fails_as_derivativeValues state time, fun name other => Model.valueOf_eq_unknownVariable,
    fun all hall => ?_, fun states tables => ?_⟩
  · obtain ⟨values, slopes, hvalues, hslopes, rfl⟩ := Model.allValues_eq_ok.mp hall
    have hhelpers : values.names = s.model.helpers.names := Model.names_of_helperValues hvalues
    have hvariables : slopes.names = s.model.variableNames := Model.names_of_derivativesWith hslopes
    refine ⟨values, slopes, hvalues, Logged.bind_eq_ok.mpr ⟨values, hvalues, hslopes⟩, fun name => ?_, fun x hx => ?_,
      fun name hname => ?_⟩
    · rw [Table.mem_names, Table.get?_insertAll_entries, Option.isSome_or, Bool.or_eq_true, ← Table.mem_names,
        ← Table.mem_names, hhelpers, hvariables, or_comm]
    · obtain ⟨e, he⟩ := Option.isSome_iff_exists.mp (Table.mem_names.mp hx)
      obtain ⟨v, heval, hv⟩ := Model.get?_of_derivativesWith hslopes he
      refine ⟨v, hv, ?_, fun hplain => ?_⟩
      · rw [Table.get?_insertAll_entries, hv, Option.some_or]
      · rw [Model.result_valueOf_variable hplain he, hvalues]
        exact heval
    · obtain ⟨v, hv, hvalue⟩ := Model.valueOf_helper hvalues hname
      refine ⟨v, hv, hvalue, fun hplain => ?_⟩
      have hnone : slopes.get? name = none := by
        rw [← Option.not_isSome_iff_eq_none, ← Table.mem_names, hvariables]
        exact hplain
      rw [Table.get?_insertAll_entries, hnone, Option.none_or, hv]
  · rw [← mapM_eq_ok, batch, Model.batch]
    cases states.mapM fun state => (s.model.derivativeValues state s.time).result with
    | error e =>
      constructor <;> intro h <;> cases h
    | ok found =>
      constructor <;> intro h <;> cases h <;> rfl

/-- A variable that is a helper at once. -/
theorem queries_agree_both :
    ∃ s all slopes, (ofEquations (["dx/dt = k", "x = 7", "k = 2 y"].map .ofText)).result = .ok s ∧
      "x" ∈ s.model.helpers.names ∧ "x" ∈ s.model.variableNames ∧
      (s.model.allValues (.ofList [("y", 3)]) 0).result = .ok all ∧
      (s.model.derivativeValues (.ofList [("y", 3)]) 0).result = .ok slopes ∧
      all.names = ["k", "x"] ∧ all.get? "x" = slopes.get? "x" ∧ (all.get? "x" == some 6) = true ∧
      ∃ v, (s.model.valueOf "x" (.ofList [("y", 3)]) 0).result = .ok v ∧ (v == 7) = true := by
  have hbuilt : (ofEquations (["dx/dt = k", "x = 7", "k = 2 y"].map .ofText)).result.toOption.any (fun s =>
      s.model.helpers.names == ["k", "x"] && s.model.variableNames == ["x"] &&
        (Helper.evaluateWithin s.model.helpers (.ofList [("y", 3)]) 0 9).any (fun result =>
          result.toOption.any fun values => values.get? "x" == some 7 &&
            (s.model.derivativesWith (.ofList [("y", 3)]) 0 values).toOption.any fun slopes =>
              slopes.get? "x" == some 6 && (values.insertAll slopes.entries).names == ["k", "x"])) = true := by
    decide +kernel
  obtain ⟨s, hs, hfound⟩ := exists_ok_of_any hbuilt
  rw [Bool.and_eq_true, Bool.and_eq_true, beq_iff_eq, beq_iff_eq] at hfound
  obtain ⟨⟨hhelpers, hvariables⟩, hwithin⟩ := hfound
  obtain ⟨result, hresult, hvalues⟩ := (Option.any_eq_true _ _).mp hwithin
  obtain ⟨values, rfl, hfound⟩ := exists_ok_of_any hvalues
  rw [Bool.and_eq_true] at hfound
  obtain ⟨hseven, hfound⟩ := hfound
  obtain ⟨slopes, hslopes, hfound⟩ := exists_ok_of_any hfound
  rw [Bool.and_eq_true] at hfound
  obtain ⟨hsix, hnames⟩ := hfound
  rw [beq_iff_eq] at hnames
  have hevaluated : (s.model.helperValues (.ofList [("y", 3)]) 0).result = .ok values :=
    Helper.evaluate_eq_of_within hresult
  have hall := Model.allValues_eq_ok.mpr ⟨values, slopes, hevaluated, hslopes, rfl⟩
  have hhelper : "x" ∈ s.model.helpers.names := by simp [hhelpers]
  have hvariable : "x" ∈ s.model.variableNames := by simp [hvariables]
  obtain ⟨values', slopes', hvalues', hslopes', -, hvariables', hhelpers'⟩ :=
    (queries_agree s (.ofList [("y", 3)]) 0).2.2.1 _ hall
  obtain rfl : values = values' := Except.ok.inj (hevaluated.symm.trans hvalues')
  obtain rfl : slopes = slopes' :=
    Except.ok.inj ((Logged.bind_eq_ok.mpr ⟨values, hevaluated, hslopes⟩).symm.trans hslopes')
  obtain ⟨v, hv, hvalue, -⟩ := hhelpers' "x" hhelper
  obtain ⟨w, hw, hinall, -⟩ := hvariables' "x" hvariable
  refine ⟨s, _, slopes, hs, hhelper, hvariable, hall, hslopes', hnames, hinall.trans hw.symm, ?_, v, hvalue, ?_⟩
  · rw [hinall, ← hw]
    exact hsix
  · rw [hv] at hseven
    exact hseven

end Simulation

end OdeSystem
