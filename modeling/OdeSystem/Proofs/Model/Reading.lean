import OdeSystem.Model.Basic
import OdeSystem.Proofs.Logged

/-!
What reading a list of equations gives. Every equation of a model has been read from a text, and stands among
those of its kind and under its own name.
-/

namespace OdeSystem

/-- Equations as reading texts gives them: of one kind, and each under its own name. -/
def ReadFrom (isFunction : String → Bool) (kind : EquationKind) (equations : Table Equation) : Prop :=
  ∀ name e, equations.get? name = some e →
    e.kind = kind ∧ e.name = name ∧ ∃ text, Equation.ofText isFunction text = .ok e

namespace Definitions
variable {isFunction : String → Bool} {redeclaration : Redeclaration} {d d' : Definitions} {e : Equation}

theorem ofKind_insert (d : Definitions) (e : Equation) (kind : EquationKind) :
    (d.insert e).ofKind kind = if kind = e.kind then (d.ofKind kind).insert e.name e else d.ofKind kind := by
  unfold insert
  cases e.kind <;> cases kind <;> rfl

theorem add_eq_ok (h : d.add redeclaration e = .ok d') : d' = d.insert e := by
  unfold add at h
  split at h
  · cases h
  · exact (Except.ok.inj h).symm

theorem result_addText (d : Definitions) (scalar : String) :
    (d.addText isFunction redeclaration scalar).result =
      (Equation.ofText isFunction scalar).bind (d.add redeclaration) := by
  simp only [addText, Logged.result_bind, Logged.result_ofResult, Logged.result_report]
  rfl

theorem addText_readFrom {scalar : String} (read : ∀ kind, ReadFrom isFunction kind (d.ofKind kind))
    (h : (d.addText isFunction redeclaration scalar).result = .ok d') :
    ∀ kind, ReadFrom isFunction kind (d'.ofKind kind) := by
  intro kind name found hfound
  rw [result_addText] at h
  obtain ⟨e, hread, hadd⟩ := bind_eq_ok.mp h
  rw [add_eq_ok hadd, ofKind_insert] at hfound
  split at hfound
  · rename_i hkind
    rw [Table.get?_insert] at hfound
    split at hfound
    · rename_i hname
      obtain rfl := Option.some.inj hfound
      exact ⟨hkind.symm, hname.symm, scalar, hread⟩
    · exact read kind name found hfound
  · exact read kind name found hfound

end Definitions

namespace Model
variable {isFunction : String → Bool} {redeclaration : Redeclaration} {options : Options}

/-- Adding an equation reads all scalar equations that it stands for. -/
theorem addEquation_eq_ok {sofar next : Definitions × Vector.Aliases} {text : String} :
    (addEquation isFunction redeclaration sofar text).result = .ok next ↔
      ∃ scalars, (Vector.expand sofar.2 text).result = .ok (scalars, next.2) ∧
        scalars.foldlM (fun d scalar => (d.addText isFunction redeclaration scalar).result) sofar.1 = .ok next.1 := by
  simp only [addEquation, Logged.result_bind, Logged.result_foldlM, Logged.result_pure, bind_eq_ok]
  constructor
  · rintro ⟨⟨scalars, behind⟩, hexpand, d, hfold, hnext⟩
    cases hnext
    exact ⟨scalars, hexpand, hfold⟩
  · rintro ⟨scalars, hexpand, hfold⟩
    exact ⟨(scalars, next.2), hexpand, next.1, hfold, rfl⟩

theorem addEquation_readFrom {sofar next : Definitions × Vector.Aliases} {text : String}
    (read : ∀ kind, ReadFrom isFunction kind (sofar.1.ofKind kind))
    (h : (addEquation isFunction redeclaration sofar text).result = .ok next) :
    ∀ kind, ReadFrom isFunction kind (next.1.ofKind kind) := by
  obtain ⟨scalars, -, hfold⟩ := addEquation_eq_ok.mp h
  exact foldlM_keeps (fun d : Definitions => ∀ kind, ReadFrom isFunction kind (d.ofKind kind))
    (fun d hd scalar _ d' => Definitions.addText_readFrom hd) read hfold

/-- The equations of a model have been read from texts and stand under their names. -/
theorem compile_readFrom {inputs : List WrittenEquation} {m : Model}
    (h : (compile isFunction options inputs).result = .ok m) (kind : EquationKind) :
    ReadFrom isFunction kind (m.definitions.ofKind kind) := by
  obtain ⟨aliases, -, h⟩ := Logged.bind_eq_ok.mp h
  obtain ⟨last, hfold, h⟩ := Logged.bind_eq_ok.mp h
  rw [Logged.result_foldlM] at hfold
  obtain rfl : _ = m := Except.ok.inj h
  refine foldlM_keeps (fun sofar : Definitions × Vector.Aliases =>
    ∀ kind, ReadFrom isFunction kind (sofar.1.ofKind kind))
    (fun sofar hsofar text _ next => addEquation_readFrom hsofar) (fun kind name e he => ?_) hfold kind
  cases kind <;> cases he

end Model

end OdeSystem
