import OdeSystem.Model.Evaluation
import OdeSystem.Proofs.Helper.Reads
import OdeSystem.Proofs.Table

/-!
The values of a model. Its derivatives are evaluated when all helpers have values, so they look up in the state only
what is no helper.
-/

namespace OdeSystem.Model

/-- Whether an equation of the model looks a name up in the state. A derivative finds the value of any helper. -/
def ReadsState (m : Model) (name : String) : Prop :=
  (∃ entry ∈ m.helpers.entries, Helper.ReadsState m.helpers entry.2 name) ∨
    ∃ entry ∈ m.derivatives.entries,
      name ∈ entry.2.expression.names ∧ name ≠ "t" ∧ m.helpers.contains name = false

instance (m : Model) (name : String) : Decidable (m.ReadsState name) := inferInstanceAs (Decidable (_ ∨ _))

section
variable {m : Model} {state state' : State} {time : Float} {helpers : HelperValues}

theorem names_of_entries {slopes : List (String × Float)}
    (h : (m.derivatives.entries.mapM fun (entry : String × Equation) =>
      (entry.2.eval state time helpers).map (entry.1, ·)) = .ok slopes) :
    slopes.map Prod.fst = m.variableNames := by
  refine map_of_mapM_eq_ok (fun entry slope hslope => ?_) h
  obtain ⟨x, -, rfl⟩ := exists_of_map_eq_ok hslope
  rfl

/-- The derivatives that have been evaluated are those of all variables. -/
theorem names_of_derivativesWith {slopes : Table Float} (h : m.derivativesWith state time helpers = .ok slopes) :
    slopes.names = m.variableNames := by
  obtain ⟨entries, hentries, rfl⟩ := exists_of_map_eq_ok h
  exact Table.names_ofList_of_map_fst (names_of_entries hentries)

theorem names_of_derivativeValues {slopes : Table Float} (h : (m.derivativeValues state time).result = .ok slopes) :
    slopes.names = m.variableNames := by
  rw [derivativeValues, Logged.result_bind] at h
  obtain ⟨helpers, -, h⟩ := bind_eq_ok.mp h
  exact names_of_derivativesWith h

theorem derivativesWith_congr (agree : ∀ name, m.ReadsState name → state.get? name = state'.get? name)
    (complete : ∀ name, m.helpers.contains name = true → (helpers.get? name).isSome = true) :
    m.derivativesWith state time helpers = m.derivativesWith state' time helpers := by
  have heval : ∀ entry ∈ m.derivatives.entries,
      entry.2.eval state time helpers = entry.2.eval state' time helpers := by
    intro entry hentry
    refine Equation.eval_congr_state fun name hname hne hnone =>
      agree name (.inr ⟨entry, hentry, hname, hne, ?_⟩)
    rw [← Bool.not_eq_true]
    intro hhelper
    have hvalue := complete name hhelper
    rw [hnone] at hvalue
    cases hvalue
  unfold derivativesWith
  rw [mapM_congr fun entry hentry => by rw [heval entry hentry]]

theorem helperValues_congr (agree : ∀ name, m.ReadsState name → state.get? name = state'.get? name) :
    m.helperValues state time = m.helperValues state' time :=
  Helper.evaluate_congr fun helper e he name hread =>
    agree name (.inl ⟨(helper, e), Table.mem_entries_of_get? he, hread⟩)

/-- States that agree on what the equations look up in them give the derivatives the same values, or the same
failure. -/
theorem derivativeValues_congr (agree : ∀ name, m.ReadsState name → state.get? name = state'.get? name) :
    m.derivativeValues state time = m.derivativeValues state' time := by
  unfold derivativeValues
  rw [← helperValues_congr agree]
  refine Logged.bind_congr fun helpers hvalues => ?_
  rw [derivativesWith_congr agree fun name hname => Helper.isSome_of_evaluate hvalues hname]

end

end OdeSystem.Model
