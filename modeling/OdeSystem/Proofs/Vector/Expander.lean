import OdeSystem.Proofs.Vector.Expansion
import OdeSystem.Proofs.Vector.Shape
import OdeSystem.Vector.Expander

/-!
What an expander gives and leaves. The vector that it expands first is no equation about an alias and declares none, so
the expander does what an expansion of the whole equation does: it records the alias that the equation declares, or
nothing, and where it fails, it has recorded nothing.
-/

namespace OdeSystem.Vector

open Notation Text

namespace Expander

variable {α β : Type}

/-! ### Work, part by part -/

/-- What work gives, and the expander behind it. -/
def Work.on (work : Work α) (x : Expander) : Except ParseError α × Expander := work.run.run x

section
variable (x : Expander)

@[simp] theorem Work.on_pure (a : α) : (pure a : Work α).on x = (.ok a, x) := rfl

@[simp] theorem Work.on_throw (e : ParseError) : (throw e : Work α).on x = (.error e, x) := rfl

@[simp] theorem Work.on_report (e : Event) : (report e).on x = (.ok (), { x with events := x.events ++ [e] }) := rfl

@[simp] theorem Work.on_get : (get : Work Expander).on x = (.ok x, x) := rfl

@[simp] theorem Work.on_modify (f : Expander → Expander) : (modify f : Work Unit).on x = (.ok (), f x) := rfl

theorem Work.on_bind (work : Work α) (f : α → Work β) :
    (work >>= f).on x =
      match work.on x with
      | (.ok a, y) => (f a).on y
      | (.error e, y) => (.error e, y) := by
  simp only [Work.on, ExceptT.run_bind, StateT.run_bind]
  obtain ⟨result, y⟩ := work.run.run x
  cases result <;> rfl

end

/-! ### Outcomes -/

/-- What an outcome gives, and leaves of an expander that had these aliases already. -/
def given (x : Expander) (outcome : Logged ParseError α) : Except ParseError α × Expander :=
  (outcome.result, { x with events := x.events ++ outcome.events })

/-- What an outcome gives that comes with the aliases behind it, and leaves of an expander: a failure comes with none,
and leaves those there were. -/
def after (x : Expander) (outcome : Logged ParseError (α × Aliases)) : Except ParseError α × Expander :=
  (outcome.result.map Prod.fst,
    ⟨(outcome.result.toOption.map Prod.snd).getD x.aliases, x.events ++ outcome.events⟩)

section
variable (x : Expander)

theorem given_pure (a : α) : x.given (pure a) = (.ok a, x) := by
  simp [given]

theorem given_fail (e : ParseError) : x.given (Logged.fail e : Logged ParseError α) = (.error e, x) := by
  simp [given]

theorem given_bind (outcome : Logged ParseError α) (f : α → Logged ParseError β) :
    x.given (outcome >>= f) =
      match x.given outcome with
      | (.ok a, y) => y.given (f a)
      | (.error e, y) => (.error e, y) := by
  obtain ⟨events, result⟩ := outcome
  cases result with
  | error e => rfl
  | ok a =>
    rw [given, Logged.result_bind, Logged.events_bind_of_ok rfl, ← List.append_assoc]
    rfl

/-- An outcome that leaves the aliases as they are. -/
theorem after_keeping (outcome : Logged ParseError α) :
    x.after (outcome >>= fun a => pure (a, x.aliases)) = x.given outcome := by
  obtain ⟨events, result⟩ := outcome
  cases result with
  | error e => rfl
  | ok a =>
    rw [after, Logged.result_bind, Logged.events_bind_of_ok rfl, Logged.events_pure, List.append_nil]
    rfl

/-! ### Equations -/

theorem on_record_of_some {pieces : List Piece} {name : String} {components : List String}
    (h : declaration? pieces = some (name, components)) :
    (record pieces).on x =
      (.ok true, ⟨x.aliases.insert name components, x.events ++ [.aliasRecorded name components]⟩) := by
  simp only [record, h, Work.on_bind, Work.on_report, Work.on_modify, Work.on_pure]

theorem on_record_of_none {pieces : List Piece} (h : declaration? pieces = none) :
    (record pieces).on x = (.ok false, x) := by
  simp only [record, h, Work.on_pure]

theorem on_register (equation : String) :
    (register equation).on x = x.after (Vector.register x.aliases equation) := by
  have hnothing : x.after (pure (false, x.aliases)) = (.ok false, x) :=
    (x.after_keeping (pure false)).trans (x.given_pure false)
  unfold register Vector.register declared?
  split
  · rw [hnothing, Work.on_pure]
  · cases hdeclared : declaration? (pieces equation.toList) with
    | none => rw [hnothing, on_record_of_none x hdeclared]
    | some declared =>
      obtain ⟨name, components⟩ := declared
      rw [on_record_of_some x hdeclared]
      rfl

theorem expand_of_none {equation : String} (h : aliasDerivative? equation.toList = none) :
    expand equation =
      match literals (pieces equation.toList) with
      | [] => pure [equation]
      | first :: others =>
        if others.all (·.dimension == first.dimension) then do
          if ← record (pieces equation.toList) then pure []
          else
            report (.vectorExpanded equation (scalars first.dimension (pieces equation.toList)))
            pure (scalars first.dimension (pieces equation.toList))
        else throw (.dimensionMismatch equation) := by
  rw [expand]
  split
  · rename_i hsome
    rw [h] at hsome
    cases hsome
  · rfl

theorem expand_of_some {equation : String} {name vector : List Char}
    (h : aliasDerivative? equation.toList = some (name, vector)) :
    expand equation = expand (String.ofList vector) >>= assign equation (String.ofList name) := by
  rw [expand]
  split
  · rename_i hsome
    rw [h] at hsome
    cases hsome
    rfl
  · rename_i hnone
    rw [h] at hnone
    cases hnone

/-- What is about no alias and declares none has its literals expanded. -/
theorem on_expand_of_none {equation : String} (hderivative : aliasDerivative? equation.toList = none)
    (hdeclaration : declaration? (pieces equation.toList) = none) :
    (expand equation).on x = x.given (expandLiterals equation (pieces equation.toList)) := by
  rw [expand_of_none hderivative, expandLiterals]
  cases literals (pieces equation.toList) with
  | nil => rw [given_pure, Work.on_pure]
  | cons first others =>
    dsimp only
    split
    · simp only [Work.on_bind, on_record_of_none x hdeclaration]
      rfl
    · rw [given_fail, Work.on_throw]

/-- What declares an alias has it recorded. -/
theorem on_expand_of_declaration {equation name : String} {components : List String}
    (hderivative : aliasDerivative? equation.toList = none)
    (hdeclaration : declaration? (pieces equation.toList) = some (name, components)) :
    (expand equation).on x =
      (.ok [], ⟨x.aliases.insert name components, x.events ++ [.aliasRecorded name components]⟩) := by
  obtain ⟨l, hliterals⟩ := exists_literals_of_declaration? hdeclaration
  rw [expand_of_none hderivative, hliterals]
  simp only [List.all_nil, ↓reduceIte, Work.on_bind, on_record_of_some x hdeclaration]
  rfl

theorem on_assign (equation name : String) (rights : List String) :
    (assign equation name rights).on x = x.given (expandAliasDerivative x.aliases equation name rights) := by
  unfold assign expandAliasDerivative
  simp only [Work.on_bind, Work.on_get]
  split
  · rfl
  · rw [Work.on_throw, given_fail]

/-- What is about an alias has its vector expanded first, and each component of that assigned. -/
theorem on_expand_of_derivative {equation : String} {name vector : List Char}
    (h : aliasDerivative? equation.toList = some (name, vector)) :
    (expand equation).on x =
      x.given (expandLiterals (String.ofList vector) (pieces vector) >>=
        expandAliasDerivative x.aliases equation (String.ofList name)) := by
  obtain ⟨hneither, hundeclared⟩ := shapes_of_isVector (aliasDerivative?_eq_some h).1
  have hrights : (expand (String.ofList vector)).on x =
      x.given (expandLiterals (String.ofList vector) (pieces vector)) := by
    have hkept := @on_expand_of_none x (String.ofList vector)
    rw [String.toList_ofList] at hkept
    exact hkept hneither hundeclared
  rw [expand_of_some h, Work.on_bind, hrights, given_bind]
  obtain ⟨events, result⟩ := expandLiterals (String.ofList vector) (pieces vector)
  cases result with
  | error e => rfl
  | ok rights => exact on_assign _ equation (String.ofList name) rights

/-- An expander does what the expansion of the equation gives for its aliases. -/
theorem on_expand (equation : String) : (expand equation).on x = x.after (Vector.expand x.aliases equation) := by
  cases hderivative : aliasDerivative? equation.toList with
  | none =>
    cases hdeclaration : declaration? (pieces equation.toList) with
    | none =>
      simp only [on_expand_of_none x hderivative hdeclaration, Vector.expand, hderivative, hdeclaration]
      exact (x.after_keeping _).symm
    | some declared =>
      obtain ⟨name, components⟩ := declared
      rw [on_expand_of_declaration x hderivative hdeclaration]
      simp only [Vector.expand, hderivative, hdeclaration]
      rfl
  | some found =>
    obtain ⟨name, vector⟩ := found
    simp only [on_expand_of_derivative x hderivative, Vector.expand, hderivative]
    rw [← Logged.bind_assoc, after_keeping]

end

/-! ### The two ways through an equation -/

/-- What an equation may be expanded to when it declares no alias: itself if it has no literals, and otherwise one
equation per component of them. -/
inductive StandsFor (equation : String) : List String → Prop
  | itself (hliterals : literals (pieces equation.toList) = []) : StandsFor equation [equation]
  | components {found : List String} (hliterals : literals (pieces equation.toList) ≠ []) (htwo : 2 ≤ found.length)
      (hsame : ∀ l ∈ literals (pieces equation.toList), l.dimension = found.length) : StandsFor equation found

theorem StandsFor.ne_nil {equation : String} {found : List String} (h : StandsFor equation found) : found ≠ [] := by
  cases h with
  | itself => exact List.cons_ne_nil _ _
  | components _ htwo _ =>
    rintro rfl
    exact absurd htwo (by decide)

theorem dimension_of_expandLiterals {equation : String} {pieces : List Piece} {found : List String}
    (h : (expandLiterals equation pieces).result = .ok found) (hne : literals pieces ≠ []) :
    2 ≤ found.length ∧ ∀ l ∈ literals pieces, l.dimension = found.length := by
  unfold expandLiterals at h
  cases hliterals : literals pieces with
  | nil => exact absurd hliterals hne
  | cons first others =>
    rw [hliterals] at h
    dsimp only at h
    split at h
    · rename_i hsame
      cases h
      have hlength : (scalars first.dimension pieces).length = first.dimension := by simp [scalars]
      rw [hlength]
      refine ⟨first.two_le_parts, fun l hl => ?_⟩
      rcases List.mem_cons.mp hl with rfl | hl
      · rfl
      · exact beq_iff_eq.mp (List.all_eq_true.mp hsame l hl)
    · cases h

/-- What the literals of an equation are expanded to stands for it. -/
theorem standsFor_of_expandLiterals {equation : String} {found : List String}
    (h : (expandLiterals equation (pieces equation.toList)).result = .ok found) : StandsFor equation found := by
  by_cases hliterals : literals (pieces equation.toList) = []
  · rw [expandLiterals, hliterals] at h
    cases h
    exact .itself hliterals
  · obtain ⟨htwo, hsame⟩ := dimension_of_expandLiterals h hliterals
    exact .components hliterals htwo hsame

/-- So does what comes of one about an alias, for the literals of its vector are all it has. -/
theorem standsFor_of_derivative {equation : String} {name vector : List Char} {aliases : Aliases} {found : List String}
    (hderivative : aliasDerivative? equation.toList = some (name, vector))
    (h : (expandLiterals (String.ofList vector) (pieces vector) >>=
      expandAliasDerivative aliases equation (String.ofList name)).result = .ok found) : StandsFor equation found := by
  have hliterals := (equatesDerivative_of_aliasDerivative? hderivative).literals_eq
  have hne : literals (pieces vector) ≠ [] := by
    have hvector := (aliasDerivative?_eq_some hderivative).1
    simp only [isVector, hasLiteral, Bool.and_eq_true, Bool.not_eq_true', List.isEmpty_eq_false_iff] at hvector
    exact hvector.2
  obtain ⟨rights, hrights, hfound⟩ := Logged.bind_eq_ok.mp h
  obtain ⟨htwo, hsame⟩ := dimension_of_expandLiterals hrights hne
  have hlength : found.length = rights.length := by
    unfold expandAliasDerivative at hfound
    dsimp only at hfound
    split at hfound
    · rename_i hnames
      cases hfound
      rw [List.length_zipWith, hnames, Nat.min_self]
    · cases hfound
  rw [← hlength] at htwo hsame
  rw [← hliterals] at hne hsame
  exact .components hne htwo hsame

/-- Either an equation declares an alias, and both ways through it record that; or it declares none, reading it does
nothing, and expanding it leaves the aliases as they are. -/
theorem declares_or_keeps (x : Expander) (equation : String) :
    (∃ name components y, declared? equation = some (name, components) ∧
        y.aliases = x.aliases.insert name components ∧ (expand equation).on x = (.ok [], y) ∧
        (register equation).on x = (.ok true, y)) ∨
      declared? equation = none ∧ (register equation).on x = (.ok false, x) ∧
        ∃ outcome, (expand equation).on x = x.given outcome ∧
          ∀ found, outcome.result = .ok found → StandsFor equation found := by
  cases hderivative : aliasDerivative? equation.toList with
  | none =>
    have hregister : register equation = record (pieces equation.toList) := by rw [register, hderivative]; rfl
    have hdeclared : declared? equation = declaration? (pieces equation.toList) := by rw [declared?, hderivative]; rfl
    cases hdeclaration : declaration? (pieces equation.toList) with
    | none =>
      rw [hregister, on_record_of_none x hdeclaration]
      exact .inr ⟨hdeclared.trans hdeclaration, rfl, _, on_expand_of_none x hderivative hdeclaration,
        fun _ => standsFor_of_expandLiterals⟩
    | some declared =>
      obtain ⟨name, components⟩ := declared
      rw [hregister, on_record_of_some x hdeclaration]
      exact .inl ⟨name, components, _, hdeclared.trans hdeclaration, rfl,
        on_expand_of_declaration x hderivative hdeclaration, rfl⟩
  | some found =>
    obtain ⟨name, vector⟩ := found
    have hregister : register equation = pure false := by rw [register, hderivative]; rfl
    have hdeclared : declared? equation = none := by rw [declared?, hderivative]; rfl
    rw [hregister]
    exact .inr ⟨hdeclared, rfl, _, on_expand_of_derivative x hderivative, fun _ => standsFor_of_derivative hderivative⟩

/-- Expanding an equation and reading it for its declaration agree on whether it declares an alias, and then leave the
same aliases, with that one inserted; and every declaration is recorded. In all other cases, failures among them, the
aliases stay as they were; and what the equation is expanded to is the equation itself, or as many as its literals have
parts. -/
theorem expand_register_agree (x : Expander) (equation : String) :
    let expanded := (expand equation).on x
    let registered := (register equation).on x
    (expanded.1 = .ok [] ↔ registered.1 = .ok true) ∧
      (expanded.1 = .ok [] → ∃ name components, declared? equation = some (name, components) ∧
        expanded.2.aliases = x.aliases.insert name components ∧
        registered.2.aliases = x.aliases.insert name components) ∧
      (∀ name components, declared? equation = some (name, components) →
        expanded.1 = .ok [] ∧ expanded.2.aliases = x.aliases.insert name components ∧
          registered.1 = .ok true ∧ registered.2.aliases = x.aliases.insert name components) ∧
      (expanded.1 ≠ .ok [] → expanded.2.aliases = x.aliases) ∧
      (registered.1 ≠ .ok true → registered.1 = .ok false ∧ registered.2.aliases = x.aliases) ∧
      ∀ found, expanded.1 = .ok found → found ≠ [] → StandsFor equation found := by
  intro expanded registered
  rcases declares_or_keeps x equation with
    ⟨name, components, y, hdeclared, haliases, hexpand, hregister⟩ | ⟨hundeclared, hregister, outcome, hexpand, hstands⟩
  · have hexpanded : expanded = (.ok [], y) := hexpand
    have hregistered : registered = (.ok true, y) := hregister
    rw [hexpanded, hregistered]
    refine ⟨iff_of_true rfl rfl, fun _ => ⟨name, components, hdeclared, haliases, haliases⟩, ?_, fun h => absurd rfl h,
      fun h => absurd rfl h, ?_⟩
    · intro name' components' hdeclared'
      cases hdeclared.symm.trans hdeclared'
      exact ⟨rfl, haliases, rfl, haliases⟩
    · intro found hfound hne
      cases hfound
      exact absurd rfl hne
  · have hexpanded : expanded = x.given outcome := hexpand
    have hregistered : registered = (.ok false, x) := hregister
    have hne : outcome.result ≠ .ok [] := fun h => (hstands [] h).ne_nil rfl
    rw [hexpanded, hregistered]
    refine ⟨iff_of_false hne nofun, fun h => absurd h hne, ?_, fun _ => rfl, fun _ => ⟨rfl, rfl⟩, ?_⟩
    · intro name components hdeclared
      cases hundeclared.symm.trans hdeclared
    · intro found hfound _
      exact hstands found hfound

end Expander

end OdeSystem.Vector
