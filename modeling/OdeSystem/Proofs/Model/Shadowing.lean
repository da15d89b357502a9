import OdeSystem.Proofs.Model.Evaluation
import OdeSystem.Proofs.Model.Reading

/-!
Helpers before the state. What a state has under the name of a helper is not seen, for the helper is evaluated before
everything that depends on it. Names of functions are no dependencies, though: a helper of such a name need not have a
value yet when another helper reads it, and then the state is seen in its place.
-/

namespace OdeSystem.Model

/-- Whether a name is that of a helper which nothing reads too early: it is no name of a function, or no helper reads
it. -/
def Shadows (isFunction : String → Bool) (m : Model) (name : String) : Prop :=
  m.helpers.contains name = true ∧
    (isFunction name = true → ∀ entry ∈ m.helpers.entries, name ∉ entry.2.expression.names)

instance (isFunction : String → Bool) (m : Model) (name : String) : Decidable (m.Shadows isFunction name) :=
  inferInstanceAs (Decidable (_ ∧ _))

section
variable {isFunction : String → Bool} {options : Options} {inputs : List WrittenEquation} {m : Model}
  {state state' : State} {time : Float}

/-- A helper that nothing reads too early is never looked up in the state. -/
theorem Shadows.not_readsState (read : ReadFrom isFunction .helper m.helpers) {name : String}
    (h : m.Shadows isFunction name) : ¬ m.ReadsState name := by
  obtain ⟨hhelper, hunread⟩ := h
  rintro (⟨entry, hentry, hname, -, hfree⟩ | ⟨entry, -, -, -, hnone⟩)
  · obtain ⟨hkind, -, text, htext⟩ := read entry.1 entry.2 (Table.get?_of_mem_entries hentry)
    have hfunction : isFunction name = true := by
      by_contra hplain
      exact hfree ⟨(Equation.mem_dependencies htext hkind).mpr ⟨hname, by simpa using hplain⟩, hhelper⟩
    exact hunread hfunction entry hentry hname
  · rw [hhelper] at hnone
    cases hnone

theorem allValues_congr (agree : ∀ name, m.ReadsState name → state.get? name = state'.get? name) :
    m.allValues state time = m.allValues state' time := by
  unfold allValues
  rw [← helperValues_congr agree]
  refine Logged.bind_congr fun helpers hvalues => ?_
  rw [derivativesWith_congr agree fun name hname => Helper.isSome_of_evaluate hvalues hname]

/-- States that differ only under names of helpers, none of them one of a function that a helper reads, cannot be told
apart: not by the values of the helpers, of the derivatives or of both, nor by failures and events. -/
theorem values_shadowed (compiled : (compile isFunction options inputs).result = .ok m)
    (differ : ∀ name, state.get? name ≠ state'.get? name → m.Shadows isFunction name) (time : Float) :
    m.helperValues state time = m.helperValues state' time ∧
      m.derivativeValues state time = m.derivativeValues state' time ∧
      m.allValues state time = m.allValues state' time := by
  have agree : ∀ name, m.ReadsState name → state.get? name = state'.get? name := by
    intro name hread
    by_contra hne
    exact (differ name hne).not_readsState (compile_readFrom compiled .helper) hread
  exact ⟨helperValues_congr agree, derivativeValues_congr agree, allValues_congr agree⟩

end

/-- A helper behind its reader, and one with the name of a function that only a derivative reads. -/
theorem values_shadowed_unread_function :
    ∃ m, (compile knownFunctions.contains .usual
        (["sin = 3", "z = x + 1", "b = 2 z", "dx/dt = b sin"].map .ofText)).result = .ok m ∧
      m.Shadows knownFunctions.contains "z" ∧ m.Shadows knownFunctions.contains "sin" ∧
      m.helperValues (Table.empty.insert "x" 1) 0 =
        m.helperValues (((Table.empty.insert "x" 1).insert "z" 5).insert "sin" 7) 0 ∧
      m.allValues (Table.empty.insert "x" 1) 0 =
        m.allValues (((Table.empty.insert "x" 1).insert "z" 5).insert "sin" 7) 0 := by
  have hcompiled : (compile knownFunctions.contains .usual
      (["sin = 3", "z = x + 1", "b = 2 z", "dx/dt = b sin"].map .ofText)).result.toOption.any (fun m =>
        decide (m.Shadows knownFunctions.contains "z") && decide (m.Shadows knownFunctions.contains "sin")) = true := by
    decide +kernel
  obtain ⟨m, hm, hshadows⟩ := exists_ok_of_any hcompiled
  rw [Bool.and_eq_true, decide_eq_true_eq, decide_eq_true_eq] at hshadows
  obtain ⟨hz, hsin⟩ := hshadows
  have differ : ∀ name, (Table.empty.insert "x" (1 : Float)).get? name ≠
      (((Table.empty.insert "x" 1).insert "z" 5).insert "sin" 7).get? name →
      m.Shadows knownFunctions.contains name := by
    intro name hne
    rw [Table.get?_insert _ "sin", Table.get?_insert _ "z"] at hne
    split at hne
    · rename_i heq
      exact heq ▸ hsin
    · split at hne
      · rename_i heq
        exact heq ▸ hz
      · exact absurd rfl hne
  obtain ⟨hhelpers, -, hall⟩ := values_shadowed hm differ 0
  exact ⟨m, hm, hz, hsin, hhelpers, hall⟩

/-- A helper with the name of a function, behind a helper that reads it: what the state has under that name is seen. -/
theorem helperValues_function_name :
    ∃ m, (compile knownFunctions.contains .usual (["a = sin * 2", "sin = 3"].map .ofText)).result = .ok m ∧
      (∀ name, (Table.empty.insert "sin" (1 : Float)).get? name ≠ (Table.empty.insert "sin" 2).get? name →
        m.helpers.contains name = true) ∧
      (m.helperValues (Table.empty.insert "sin" 1) 0).result ≠
        (m.helperValues (Table.empty.insert "sin" 2) 0).result := by
  have hcompiled : (compile knownFunctions.contains .usual
      (["a = sin * 2", "sin = 3"].map .ofText)).result.toOption.any (fun m =>
        m.helpers.contains "sin" &&
          (Helper.evaluateWithin m.helpers (Table.empty.insert "sin" 1) 0 5).any (fun result =>
            result.toOption.any fun values => values.get? "a" == some 2) &&
          (Helper.evaluateWithin m.helpers (Table.empty.insert "sin" 2) 0 5).any (fun result =>
            result.toOption.any fun values => !(values.get? "a" == some 2))) = true := by
    decide +kernel
  obtain ⟨m, hm, hfound⟩ := exists_ok_of_any hcompiled
  simp only [Bool.and_eq_true] at hfound
  obtain ⟨⟨hhelper, hone⟩, htwo⟩ := hfound
  refine ⟨m, hm, fun name hne => ?_, fun heq => ?_⟩
  · rw [Table.get?_insert, Table.get?_insert] at hne
    split at hne
    · rename_i hname
      exact hname ▸ hhelper
    · exact absurd rfl hne
  · obtain ⟨one, hwithin, hone⟩ := (Option.any_eq_true _ _).mp hone
    obtain ⟨two, hwithin', htwo⟩ := (Option.any_eq_true _ _).mp htwo
    have hsame : one = two :=
      (Helper.evaluate_eq_of_within hwithin).symm.trans (heq.trans (Helper.evaluate_eq_of_within hwithin'))
    subst hsame
    obtain ⟨values, hvalues, hone⟩ := (Option.any_eq_true _ _).mp hone
    simp [hvalues, hone] at htwo

end OdeSystem.Model
