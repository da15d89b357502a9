import OdeSystem.Proofs.Logged
import OdeSystem.Proofs.Table
import OdeSystem.Vector.Expansion

/-!
What an equation does to the aliases, and they to it. Expanding an equation and reading it for its declaration only
agree: both record the alias that the equation declares, and nothing else. The aliases matter to an equation only if
it gives the derivative of one of them.
-/

namespace OdeSystem.Vector

/-- The aliases behind an equation that declares one of them, or none. -/
def recorded (aliases : Aliases) (declaration : Option (String × List String)) : Aliases :=
  match declaration with
  | some (name, components) => aliases.insert name components
  | none => aliases

theorem result_register (aliases : Aliases) (text : String) :
    (register aliases text).result = .ok ((declared? text).isSome, recorded aliases (declared? text)) := by
  unfold register recorded
  cases declared? text <;> rfl

/-- An expansion that succeeds records what the equation declares. -/
theorem aliases_expand {aliases aliases' : Aliases} {text : String} {scalars : List String}
    (h : (expand aliases text).result = .ok (scalars, aliases')) :
    aliases' = recorded aliases (declared? text) := by
  unfold expand at h
  unfold declared?
  split at h
  · rename_i name vector hderivative
    obtain ⟨rights, -, h⟩ := Logged.bind_eq_ok.mp h
    obtain ⟨scalars, -, h⟩ := Logged.bind_eq_ok.mp h
    cases h
    simp [recorded, hderivative]
  · rename_i hderivative
    simp only [hderivative, Option.isSome_none, Bool.false_eq_true, ↓reduceIte]
    dsimp only at h
    split at h
    · rename_i name components hdeclared
      cases h
      simp [recorded, hdeclared]
    · rename_i hdeclared
      obtain ⟨scalars, -, h⟩ := Logged.bind_eq_ok.mp h
      cases h
      simp [recorded, hdeclared]

/-- The alias whose derivative an equation gives. -/
def derivedAlias? (text : String) : Option String :=
  (aliasDerivative? text.toList).map fun (name, _) => String.ofList name

/-- What an equation stands for depends on the aliases only if it gives the derivative of one, and then through the
components of that one. -/
theorem map_fst_expand_congr {aliases aliases' : Aliases} {text : String}
    (h : ∀ name ∈ derivedAlias? text, aliases.get? name = aliases'.get? name) :
    (expand aliases text).result.map Prod.fst = (expand aliases' text).result.map Prod.fst := by
  unfold expand
  split
  · rename_i name vector hderivative
    have hname : aliases.get? (String.ofList name) = aliases'.get? (String.ofList name) :=
      h _ (by simp [derivedAlias?, hderivative])
    have hfound : expandAliasDerivative aliases text (String.ofList name) =
        expandAliasDerivative aliases' text (String.ofList name) := by
      unfold expandAliasDerivative componentNames
      rw [hname]
    simp only [Logged.result_bind, hfound]
    cases (expandLiterals (String.ofList vector) (pieces vector)).result with
    | error e => rfl
    | ok rights =>
      simp only [Except.bind]
      cases (expandAliasDerivative aliases' text (String.ofList name) rights).result <;> rfl
  · dsimp only
    split
    · rfl
    · simp only [Logged.result_bind]
      cases (expandLiterals text (pieces text.toList)).result <;> rfl

/-- The derivative of an alias with known components is one derivative for each of them. -/
theorem expand_derivative {aliases : Aliases} {text : String} {name vector : List Char} {components : List String}
    {expanded : List String × Aliases} (hderivative : aliasDerivative? text.toList = some (name, vector))
    (hcomponents : aliases.get? (String.ofList name) = some components)
    (h : (expand aliases text).result = .ok expanded) :
    ∃ rights, (expandLiterals (String.ofList vector) (pieces vector)).result = .ok rights ∧
      components.length = rights.length ∧ expanded = (List.zipWith componentEquation components rights, aliases) := by
  simp only [expand, hderivative] at h
  obtain ⟨rights, hrights, h⟩ := Logged.bind_eq_ok.mp h
  obtain ⟨scalars, hscalars, h⟩ := Logged.bind_eq_ok.mp h
  cases h
  simp only [expandAliasDerivative, componentNames, hcomponents, Option.getD_some] at hscalars
  by_cases hlength : components.length = rights.length
  · rw [if_pos hlength] at hscalars
    cases hscalars
    exact ⟨rights, hrights, hlength, rfl⟩
  · rw [if_neg hlength] at hscalars
    cases hscalars

theorem result_expand_derivative {aliases : Aliases} {text : String} {name vector : List Char}
    {components rights : List String} (hderivative : aliasDerivative? text.toList = some (name, vector))
    (hrights : (expandLiterals (String.ofList vector) (pieces vector)).result = .ok rights)
    (hcomponents : aliases.get? (String.ofList name) = some components) (hlength : components.length = rights.length) :
    (expand aliases text).result = .ok (List.zipWith componentEquation components rights, aliases) := by
  simp only [expand, hderivative, Logged.result_bind, hrights, Except.bind, expandAliasDerivative, componentNames,
    hcomponents, Option.getD_some, hlength, ↓reduceIte, Logged.result_report, Logged.result_pure]

theorem recorded_eq_self {aliases : Aliases} {declaration : Option (String × List String)}
    (h : ∀ name components, declaration = some (name, components) → aliases.get? name = some components) :
    recorded aliases declaration = aliases := by
  unfold recorded
  split
  · rename_i name components
    exact Table.insert_eq_self (h name components rfl)
  · rfl

end OdeSystem.Vector
