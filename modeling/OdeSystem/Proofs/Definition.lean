import OdeSystem.Proofs.Naming

/-!
What an equation can define. The side that is defined is a name or a derivative, and of a derivative the numerator, the
denominator or the whole can stand in parentheses. The recogniser lets each of these parentheses be missing, so what is
said here is about all sides but derivatives in which they do not match.
-/

namespace OdeSystem.Equation

open Notation Text

/-- Whether the parentheses of a text match, with `depth` more of them open before it. -/
def balances : Nat → List Char → Bool
  | depth, [] => depth == 0
  | depth, c :: rest =>
    if c = '(' then balances (depth + 1) rest
    else if c = ')' then depth != 0 && balances (depth - 1) rest
    else balances depth rest

/-- A derivative with each part of its fraction bare or in parentheses. -/
inductive IsFraction (name : List Char) : List Char → Prop
  | bare {time : Char} (ht : time = 't' ∨ time = 'T') : IsFraction name ('d' :: (name ++ ['/', 'd', time]))
  | numerator {time : Char} (ht : time = 't' ∨ time = 'T') :
    IsFraction name ('(' :: 'd' :: (name ++ [')', '/', 'd', time]))
  | denominator {time : Char} (ht : time = 't' ∨ time = 'T') :
    IsFraction name ('d' :: (name ++ ['/', '(', 'd', time, ')']))
  | both {time : Char} (ht : time = 't' ∨ time = 'T') :
    IsFraction name ('(' :: 'd' :: (name ++ [')', '/', '(', 'd', time, ')']))

/-- A derivative but for its parentheses: each of the four that can stand in it is there or not. -/
def LooksDerivative (name side : List Char) : Prop :=
  ∃ p₁ p₂ p₃ p₄ time, (p₁ = [] ∨ p₁ = ['(']) ∧ (p₂ = [] ∨ p₂ = [')']) ∧ (p₃ = [] ∨ p₃ = ['(']) ∧
    (p₄ = [] ∨ p₄ = [')']) ∧ (time = 't' ∨ time = 'T') ∧
    side = p₁ ++ 'd' :: (name ++ (p₂ ++ '/' :: (p₃ ++ 'd' :: time :: p₄)))

/-- A derivative in which some parenthesis has no other one. -/
def Unmatched (side : List Char) : Prop :=
  (∃ name, isName name = true ∧ LooksDerivative name side) ∧ balances 0 side = false

/-- A side that defines a helper, or a variable by its derivative: the fraction, or a bare one in parentheses. -/
inductive Defines : EquationKind → String → List Char → Prop
  | helper {name : List Char} (hname : isName name = true) : Defines .helper (String.ofList name) name
  | fraction {name side : List Char} (hname : isName name = true) (h : IsFraction name side) :
    Defines .derivative (String.ofList name) side
  | enclosed {name : List Char} {time : Char} (hname : isName name = true) (ht : time = 't' ∨ time = 'T') :
    Defines .derivative (String.ofList name) ('(' :: 'd' :: (name ++ ['/', 'd', time, ')']))

/-! ### The recogniser of derivatives -/

section
variable {name side : List Char}

theorem balances_name (hname : isName name = true) (depth : Nat) (rest : List Char) :
    balances depth (name ++ rest) = balances depth rest := by
  have hwords := isWord_of_isName hname
  clear hname
  induction name with
  | nil => rfl
  | cons c name ih =>
    have hc : isWord c = true := hwords c (List.mem_cons_self ..)
    have hopen : c ≠ '(' := ne_of_isWord hc (isWord_of_isPunctuation (by decide))
    have hclose : c ≠ ')' := ne_of_isWord hc (isWord_of_isPunctuation (by decide))
    rw [List.cons_append, balances, if_neg hopen, if_neg hclose]
    exact ih fun d hd => hwords d (List.mem_cons_of_mem _ hd)

theorem exists_accepted (c : Char) (text : List Char) : ∃ p, (p = [] ∨ p = [c]) ∧ text = p ++ accept c text := by
  unfold accept
  cases h : expect c text with
  | none => exact ⟨[], .inl rfl, rfl⟩
  | some rest => exact ⟨[c], .inr rfl, eq_cons_of_expect h⟩

theorem accept_optional {c d : Char} {p rest : List Char} (hp : p = [] ∨ p = [c]) (hd : d ≠ c) :
    accept c (p ++ d :: rest) = d :: rest := by
  rcases hp with rfl | rfl
  · simp [accept, expect, hd]
  · simp [accept, expect]

/-- What the recogniser takes for a derivative, with each of the four parentheses there or not. -/
theorem derivativeOf?_eq_some_iff :
    derivativeOf? side = some name ↔ isName name = true ∧ LooksDerivative name side := by
  constructor
  · intro h
    have hname : isName name = true := (of_derivativeOf? h).1
    simp only [derivativeOf?, Option.bind_eq_bind, Option.bind_eq_some_iff] at h
    obtain ⟨r₁, h₁, ⟨found, r₂⟩, h₂, r₃, h₃, r₄, h₄, r₅, h₅, hlast⟩ := h
    split at hlast
    · rename_i hend
      obtain rfl := Option.some.inj hlast
      obtain ⟨p₁, hp₁, hside⟩ := exists_accepted '(' side
      obtain ⟨p₂, hp₂, hr₂⟩ := exists_accepted ')' r₂
      obtain ⟨p₃, hp₃, hr₃⟩ := exists_accepted '(' r₃
      obtain ⟨p₄, hp₄, hr₅⟩ := exists_accepted ')' r₅
      obtain ⟨time, ht, hr₄⟩ : ∃ time, (time = 't' ∨ time = 'T') ∧ r₄ = time :: r₅ := by
        cases r₄ with
        | nil => cases h₅
        | cons time rest =>
          rw [takeTime_cons] at h₅
          split at h₅
          · cases h₅
            exact ⟨time, ‹_›, rfl⟩
          · cases h₅
      refine ⟨hname, p₁, p₂, p₃, p₄, time, hp₁, hp₂, hp₃, hp₄, ht, ?_⟩
      rw [List.isEmpty_iff.mp hend, List.append_nil] at hr₅
      rw [hside, eq_cons_of_expect h₁, eq_append_of_takeName h₂, hr₂, eq_cons_of_expect h₃, hr₃, eq_cons_of_expect h₄,
        hr₄, hr₅]
    · cases hlast
  · rintro ⟨hname, p₁, p₂, p₃, p₄, time, hp₁, hp₂, hp₃, hp₄, ht, rfl⟩
    have hread (rest : List Char) : takeName (name ++ (p₂ ++ '/' :: rest)) = some (name, p₂ ++ '/' :: rest) := by
      refine takeName_of_isName hname ?_
      rcases hp₂ with rfl | rfl
      · exact (isWord_of_isPunctuation (by decide) : isWord '/' = false)
      · exact (isWord_of_isPunctuation (by decide) : isWord ')' = false)
    have hend : accept ')' p₄ = [] := by rcases hp₄ with rfl | rfl <;> rfl
    have hd : 'd' ≠ '(' := by decide
    have hslash : '/' ≠ ')' := by decide
    simp [derivativeOf?, accept_optional hp₁ hd, accept_optional hp₂ hslash, accept_optional hp₃ hd, expect, hread,
      takeTime_cons, ht, hend]

instance (side : List Char) : Decidable (Unmatched side) :=
  decidable_of_iff ((derivativeOf? side).isSome = true ∧ balances 0 side = false) <| by
    simp only [Unmatched, Option.isSome_iff_exists, derivativeOf?_eq_some_iff]

/-- If the parentheses match, they stand around the numerator, the denominator, both, or the whole. -/
theorem defines_of_looksDerivative (hname : isName name = true) (h : LooksDerivative name side)
    (balanced : balances 0 side = true) : Defines .derivative (String.ofList name) side := by
  obtain ⟨p₁, p₂, p₃, p₄, time, hp₁, hp₂, hp₃, hp₄, ht, rfl⟩ := h
  have htime : time ≠ '(' ∧ time ≠ ')' := by rcases ht with rfl | rfl <;> decide
  rcases hp₁ with rfl | rfl <;> rcases hp₂ with rfl | rfl <;> rcases hp₃ with rfl | rfl <;>
    rcases hp₄ with rfl | rfl <;> simp [balances, balances_name hname, htime] at balanced
  · exact .fraction hname (.bare ht)
  · exact .fraction hname (.denominator ht)
  · exact .enclosed hname ht
  · exact .fraction hname (.numerator ht)
  · exact .fraction hname (.both ht)

theorem IsFraction.looksDerivative (h : IsFraction name side) : LooksDerivative name side := by
  cases h with
  | bare ht => exact ⟨[], [], [], [], _, .inl rfl, .inl rfl, .inl rfl, .inl rfl, ht, rfl⟩
  | numerator ht => exact ⟨['('], [')'], [], [], _, .inr rfl, .inr rfl, .inl rfl, .inl rfl, ht, rfl⟩
  | denominator ht => exact ⟨[], [], ['('], [')'], _, .inl rfl, .inl rfl, .inr rfl, .inr rfl, ht, rfl⟩
  | both ht => exact ⟨['('], [')'], ['('], [')'], _, .inr rfl, .inr rfl, .inr rfl, .inr rfl, ht, rfl⟩

theorem looksDerivative_enclosed {time : Char} (ht : time = 't' ∨ time = 'T') :
    LooksDerivative name ('(' :: 'd' :: (name ++ ['/', 'd', time, ')'])) :=
  ⟨['('], [], [], [')'], time, .inr rfl, .inl rfl, .inl rfl, .inr rfl, ht, rfl⟩

end

/-! ### Sides -/

/-- What a side defines is what its form says, unless it is a derivative in which parentheses do not match. -/
theorem classify?_eq_some_iff {side : List Char} {kind : EquationKind} {name : String} (matched : ¬ Unmatched side) :
    classify? side = some (kind, name) ↔ Defines kind name side := by
  constructor
  · intro h
    unfold classify? at h
    split at h
    · rename_i found hfound
      cases h
      obtain ⟨hname, hlooks⟩ := derivativeOf?_eq_some_iff.mp hfound
      cases balanced : balances 0 side with
      | true => exact defines_of_looksDerivative hname hlooks balanced
      | false => exact absurd ⟨⟨found, hname, hlooks⟩, balanced⟩ matched
    · split at h
      · rename_i hname
        cases h
        exact .helper hname
      · cases h
  · intro h
    unfold classify?
    cases h with
    | helper hname => rw [derivativeOf?_of_isName hname]; exact if_pos hname
    | fraction hname h => rw [derivativeOf?_eq_some_iff.mpr ⟨hname, h.looksDerivative⟩]
    | enclosed hname ht => rw [derivativeOf?_eq_some_iff.mpr ⟨hname, looksDerivative_enclosed ht⟩]

theorem orient_cases (left right : List Char) :
    orient left right = (left, right) ∨ (derivativeOf? right).isSome = true ∧ orient left right = (right, left) := by
  unfold orient
  split
  · rename_i hswap
    exact .inr ⟨hswap.2, rfl⟩
  · exact .inl rfl

/-- The side that is defined is the left one, or the right one if that is a derivative. -/
theorem exists_side_of_parts? {normal right : List Char} {kind : EquationKind} {name : String}
    (h : parts? normal = some (kind, name, right)) :
    ∃ side, (sides? normal = some (side, right) ∨ kind = .derivative ∧ sides? normal = some (right, side)) ∧
      classify? side = some (kind, name) := by
  unfold parts? at h
  split at h
  · rename_i left rest hsides
    rcases orient_cases left rest with horient | ⟨hderivative, horient⟩
    · simp only [horient, Option.map_eq_some_iff] at h
      obtain ⟨⟨found, title⟩, hclass, heq⟩ := h
      cases heq
      exact ⟨left, .inl hsides, hclass⟩
    · simp only [horient, Option.map_eq_some_iff] at h
      obtain ⟨⟨found, title⟩, hclass, heq⟩ := h
      cases heq
      refine ⟨rest, .inr ⟨?_, hsides⟩, hclass⟩
      obtain ⟨found', hfound'⟩ := Option.isSome_iff_exists.mp hderivative
      rw [classify?, hfound'] at hclass
      cases hclass
      rfl
  · cases h

/-- An equation without parts is malformed. -/
theorem reading_of_parts?_eq_none {isFunction : String → Bool} {text : String}
    (h : parts? (normalText isFunction text.toList) = none) : reading isFunction text = .error .malformed := by
  simp only [reading, ofText, h]
  split <;> rfl

/-- Of an equation that is accepted, the side that is defined is a name or one of the forms of a derivative, and what it
is defined by is the other side. An equation that has no such side is malformed. Both leave out derivatives in which
parentheses do not match. -/
theorem ofText_defines (isFunction : String → Bool) (text : String) :
    (∀ e, ofText isFunction text = .ok e →
      ∃ side other, (sides? (normalText isFunction text.toList) = some (side, other) ∨
          e.kind = .derivative ∧ sides? (normalText isFunction text.toList) = some (other, side)) ∧
        e.source = String.ofList other ∧ (¬ Unmatched side → Defines e.kind e.name side)) ∧
    ((∀ left right, sides? (normalText isFunction text.toList) = some (left, right) →
        ¬ Unmatched left ∧ ¬ Unmatched right ∧ (∀ kind name, ¬ Defines kind name left) ∧
          ∀ name, ¬ Defines .derivative name right) →
      reading isFunction text = .error .malformed) := by
  constructor
  · intro e he
    obtain ⟨kind, name, right, expression, hparts, -, rfl⟩ := ofText_eq_ok he
    obtain ⟨side, hsides, hclass⟩ := exists_side_of_parts? hparts
    refine ⟨side, right, hsides, rfl, ?_⟩
    intro matched
    exact (classify?_eq_some_iff matched).mp hclass
  · intro hnone
    refine reading_of_parts?_eq_none ?_
    cases hparts : parts? (normalText isFunction text.toList) with
    | none => rfl
    | some parts =>
      obtain ⟨kind, name, right⟩ := parts
      obtain ⟨side, hsides | ⟨rfl, hsides⟩, hclass⟩ := exists_side_of_parts? hparts
      · obtain ⟨matched, -, hleft, -⟩ := hnone side right hsides
        exact absurd ((classify?_eq_some_iff matched).mp hclass) (hleft kind name)
      · obtain ⟨-, matched, -, hright⟩ := hnone right side hsides
        exact absurd ((classify?_eq_some_iff matched).mp hclass) (hright name)

/-- A derivative on the right, an equation that defines nothing, and one with a parenthesis left over. -/
theorem ofText_defines_swapped :
    (∃ e side, ofText knownFunctions.contains "2 x = dx/dt" = .ok e ∧ e.source = "2*x" ∧ Defines e.kind e.name side) ∧
    reading knownFunctions.contains "2 x = y" = .error .malformed ∧
    reading knownFunctions.contains "foo) = 1" = .error .malformed := by
  have undefining {side : List Char} (matched : ¬ Unmatched side) (hnone : classify? side = none) :
      ∀ kind name, ¬ Defines kind name side := by
    intro kind name h
    cases hnone.symm.trans ((classify?_eq_some_iff matched).mpr h)
  refine ⟨?_, ?_, ?_⟩
  · have hread : (ofText knownFunctions.contains "2 x = dx/dt").toOption.any (fun e => e.source == "2*x") = true := by
      decide +kernel
    have hsides : sides? (normalText knownFunctions.contains "2 x = dx/dt".toList) =
        some ("2*x".toList, "dx/dt".toList) := by decide +kernel
    obtain ⟨e, he, hsource⟩ := exists_ok_of_any hread
    rw [beq_iff_eq] at hsource
    obtain ⟨side, other, hside, hother, hdefines⟩ := (ofText_defines knownFunctions.contains "2 x = dx/dt").1 e he
    rw [hsides] at hside
    rcases hside with hside | ⟨-, hside⟩
    · cases hside
      rw [hsource] at hother
      exact absurd hother (by decide)
    · cases hside
      exact ⟨e, "dx/dt".toList, he, hsource, hdefines (by decide +kernel)⟩
  · refine (ofText_defines knownFunctions.contains "2 x = y").2 fun left right hside => ?_
    have hsides : sides? (normalText knownFunctions.contains "2 x = y".toList) = some ("2*x".toList, "y".toList) := by
      decide +kernel
    rw [hsides] at hside
    cases hside
    refine ⟨by decide +kernel, by decide +kernel, undefining (by decide +kernel) (by decide +kernel), ?_⟩
    intro name h
    have hhelper : classify? "y".toList = some (.helper, "y") := by decide +kernel
    cases hhelper.symm.trans ((classify?_eq_some_iff (by decide +kernel)).mpr h)
  · refine (ofText_defines knownFunctions.contains "foo) = 1").2 fun left right hside => ?_
    have hsides : sides? (normalText knownFunctions.contains "foo) = 1".toList) = some ("foo)".toList, "1".toList) := by
      decide +kernel
    rw [hsides] at hside
    cases hside
    exact ⟨by decide +kernel, by decide +kernel, undefining (by decide +kernel) (by decide +kernel),
      fun name => undefining (by decide +kernel) (by decide +kernel) .derivative name⟩

/-- A derivative in parentheses as a whole defines its variable too. -/
theorem ofText_enclosed_derivative :
    (∃ e, ofText knownFunctions.contains "(dx/dt) = 1" = .ok e ∧ e.kind = .derivative ∧ e.name = "x") ∧
    sides? (normalText knownFunctions.contains "(dx/dt) = 1".toList) = some ("(dx/dt)".toList, "1".toList) ∧
    ∀ side ∈ ["(dx/dt)".toList, "1".toList], isName side = false ∧ ∀ name, ¬ IsFraction name side := by
  refine ⟨?_, by decide +kernel, ?_⟩
  · have hread : (ofText knownFunctions.contains "(dx/dt) = 1").toOption.any (fun e =>
        e.kind == .derivative && e.name == "x") = true := by decide +kernel
    obtain ⟨e, he, hfound⟩ := exists_ok_of_any hread
    rw [Bool.and_eq_true, beq_iff_eq, beq_iff_eq] at hfound
    exact ⟨e, he, hfound⟩
  · intro side hside
    simp only [List.mem_cons, List.not_mem_nil, or_false] at hside
    rcases hside with rfl | rfl
    · refine ⟨by decide +kernel, fun name h => ?_⟩
      generalize hside : "(dx/dt)".toList = side at h
      have hback := congrArg List.reverse hside
      cases h <;> simp at hside hback
    · refine ⟨by decide +kernel, fun name h => ?_⟩
      generalize hside : "1".toList = side at h
      cases h <;> simp at hside

end OdeSystem.Equation
