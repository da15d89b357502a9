import OdeSystem.Model.Basic
import OdeSystem.Proofs.Helper.Bounded
import OdeSystem.Proofs.Helper.Stack
import OdeSystem.Proofs.Logged
import OdeSystem.Proofs.Reading

/-!
Cycles of dependencies. An evaluation succeeds only on a graph without cycles, since what is done lies on none and
everything is done in the end. A cycle is reported only where there is one: what is met again in progress lies
below on the stack, and a path leads from there to where it is met.
-/

namespace OdeSystem.Helper

section
variable {helpers : Helpers} {state : State} {time : Float} {values : HelperValues}

/-- Where an evaluation has ended, every helper is done. -/
theorem done_of_evaluate (h : (evaluate helpers state time).result = .ok values) :
    ∃ walk, Reachable helpers state time (evaluate helpers state time).events walk ∧ walk.values = values ∧
      ∀ name, helpers.contains name = true → walk.marks.get? name = some .done := by
  obtain ⟨walk, hreach, hempty, hvalues, hmarked⟩ := evaluate_eq_ok h
  refine ⟨walk, hreach, hvalues, fun name hname => ?_⟩
  obtain ⟨mark, hmark⟩ := Option.isSome_iff_exists.mp (hmarked name hname)
  cases mark with
  | done => exact hmark
  | inProgress =>
    have hmem := (hreach.ordered.inProgress name).mp hmark
    rw [hempty] at hmem
    cases hmem

theorem OnCycle.contains {name : String} (h : OnCycle helpers name) : helpers.contains name = true := by
  obtain ⟨d, hd, -⟩ := Relation.TransGen.head'_iff.mp h
  exact hd.contains_left

theorem not_onCycle_of_evaluate (h : (evaluate helpers state time).result = .ok values) (name : String) :
    ¬ OnCycle helpers name := fun hcycle => by
  obtain ⟨walk, hreach, -, hdone⟩ := done_of_evaluate h
  exact hreach.ordered.acyclic name (hdone name hcycle.contains) hcycle

/-- A move that finds a cycle finds one of the graph. -/
theorem onCycle_of_step {walk : Walk} {frame : Frame} {rest : List Frame} {name : String}
    (h : Ordered helpers walk) (top : walk.stack = frame :: rest)
    (hstep : (step helpers state time { walk with stack := rest } frame).result = .error (.cyclicDependency name)) :
    OnCycle helpers name := by
  -- Something in progress below the top leads there.
  have path {d : String} (hd : walk.marks.get? d = some .inProgress) (henter : ∃ entered, frame = .enter entered) :
      Relation.TransGen (DependsOn helpers) d frame.name := by
    obtain ⟨entered, rfl⟩ := henter
    have hmem := (h.inProgress d).mp hd
    rw [top] at hmem
    exact (h.linked_cons top).path ((List.mem_cons.mp hmem).resolve_left (by simp))
  rcases step_eq_error hstep with ⟨entered, rfl, hmark, heq⟩ | ⟨entered, d, rfl, hdepends, hmark, heq⟩ |
    ⟨finished, helper, -, -, heval⟩
  · cases heq
    exact path hmark ⟨name, rfl⟩
  · cases heq
    rcases hmark with rfl | hmark
    · exact .single hdepends
    · exact (path hmark ⟨entered, rfl⟩).tail hdepends
  · exact absurd heval Equation.eval_ne_cyclicDependency

theorem onCycle_of_evaluate {name : String}
    (h : (evaluate helpers state time).result = .error (.cyclicDependency name)) : OnCycle helpers name := by
  obtain ⟨_, walk, frame, rest, hreach, top, hstep⟩ := evaluate_eq_error h
  exact onCycle_of_step hreach.ordered top hstep

end

/-- Helpers with a cycle among them, be it of one helper on itself, are never evaluated; a cycle is reported at a
helper that lies on one; and so helpers without a cycle are never refused for one. -/
theorem evaluate_refuses_cycles (helpers : Helpers) (state : State) (time : Float) :
    ((∃ name, OnCycle helpers name) → ∀ values, (evaluate helpers state time).result ≠ .ok values) ∧
    (∀ name, (evaluate helpers state time).result = .error (.cyclicDependency name) →
      helpers.contains name = true ∧ OnCycle helpers name) ∧
    ((∀ name, ¬ OnCycle helpers name) →
      ∀ name, (evaluate helpers state time).result ≠ .error (.cyclicDependency name)) := by
  refine ⟨fun ⟨name, hcycle⟩ values h => ?_, fun name h => ?_, fun hnone name h => ?_⟩
  · exact not_onCycle_of_evaluate h name hcycle
  · have hcycle := onCycle_of_evaluate h
    exact ⟨hcycle.contains, hcycle⟩
  · exact hnone name (onCycle_of_evaluate h)

/-- A cycle behind a chain that leads to it is found, at a helper of the cycle and not of the chain. -/
theorem evaluate_refuses_cycle_behind_chain :
    ∃ m, (Model.compile knownFunctions.contains .usual
        (["a = b", "b = c", "c = d", "d = b"].map .ofText)).result = .ok m ∧
      (evaluate m.helpers .empty 0).result = .error (.cyclicDependency "b") ∧ OnCycle m.helpers "b" ∧
      ∀ state time values, (evaluate m.helpers state time).result ≠ .ok values := by
  have hcompiled : (Model.compile knownFunctions.contains .usual
      (["a = b", "b = c", "c = d", "d = b"].map .ofText)).result.toOption.any
        (fun m => (evaluateWithin m.helpers .empty 0 9).any fun
          | .error (.cyclicDependency name) => name == "b"
          | _ => false) = true := by
    decide +kernel
  obtain ⟨m, hm, hcyclic⟩ := exists_ok_of_any hcompiled
  have hresult : (evaluate m.helpers .empty 0).result = .error (.cyclicDependency "b") := by
    obtain ⟨result, hwithin, hresult⟩ := (Option.any_eq_true _ _).mp hcyclic
    rw [evaluate_eq_of_within hwithin]
    split at hresult
    · rw [beq_iff_eq.mp hresult]
    · cases hresult
  obtain ⟨-, hcycle⟩ := (evaluate_refuses_cycles m.helpers .empty 0).2.1 "b" hresult
  exact ⟨m, hm, hresult, hcycle, fun state time => (evaluate_refuses_cycles m.helpers state time).1 ⟨"b", hcycle⟩⟩

end OdeSystem.Helper
