import OdeSystem.Proofs.Formula.Name
import OdeSystem.Proofs.Logged
import OdeSystem.Proofs.Notation.Name
import OdeSystem.Proofs.Orientation
import OdeSystem.Proofs.Reading

/-!
Names that can be read. An equation may define names that an expression cannot refer to: those that formulas take for
literals, and those that notation does not leave whole. Any other name can be given to another one, which depends on it
and has its value.
-/

namespace OdeSystem

open Notation Text

/-! ### Reading a name -/

/-- The expression that reads a name. -/
def Expression.ofName (name : List Char) : Expression :=
  ⟨String.ofList name, String.ofList name, .node .group [.leaf (.read (String.ofList name))], [String.ofList name]⟩

section
variable {name : List Char}

theorem literal?_of_isName (hname : isName name = true) (unreserved : Formula.isReserved name = false) :
    Formula.literal? name = none := by
  cases name with
  | nil => cases hname
  | cons c rest =>
    rw [← Option.not_isSome_iff_eq_none, Formula.isSome_literal?_iff (isName_cons.mp hname).1, unreserved]
    exact Bool.false_ne_true

theorem Expression.ofText_name (whole : Whole name) (unreserved : Formula.isReserved name = false) :
    Expression.ofText (String.ofList name) = .ok (.ofName name) := by
  have htree := Formula.ofText_word (ne_nil_of_isName whole.isName) (isWord_of_isName whole.isName)
    (literal?_of_isName whole.isName unreserved)
  simp only [Expression.ofText, whole.formula, String.toList_ofList, htree]
  rfl

theorem Expression.eval_ofName {scope : Scope} {x : Float} (h : scope.get? (String.ofList name) = some x) :
    (Expression.ofName name).eval scope = .ok (.number x) := by
  have hlookup : (scope.restrict [String.ofList name]).get? (String.ofList name) = some x := by
    rw [Scope.get?_restrict, if_pos (List.mem_singleton_self _), h]
  simp only [Expression.eval, Expression.ofName, Formula.eval_read hlookup]
  rfl

end

namespace Equation
variable {isFunction : String → Bool}

/-! ### What an accepted equation defines -/

theorem parts?_eq_some {normal right : List Char} {kind : EquationKind} {name : String}
    (h : parts? normal = some (kind, name, right)) :
    ∃ left rest, sides? normal = some (left, rest) ∧ classify? (orient left rest).1 = some (kind, name) := by
  unfold parts? at h
  split at h
  · rename_i left rest hsides
    obtain ⟨⟨found, title⟩, hfound, heq⟩ := Option.map_eq_some_iff.mp h
    cases heq
    exact ⟨left, rest, hsides, hfound⟩
  · cases h

theorem isName_of_classify? {defined : List Char} {kind : EquationKind} {name : String}
    (h : classify? defined = some (kind, name)) : isName name.toList = true := by
  unfold classify? at h
  split at h
  · rename_i found hfound
    cases h
    rw [String.toList_ofList]
    exact (of_derivativeOf? hfound).1
  · split at h
    · rename_i hname
      cases h
      rwa [String.toList_ofList]
    · cases h

theorem eq_of_classify?_helper {defined : List Char} {name : String}
    (h : classify? defined = some (.helper, name)) : derivativeOf? defined = none ∧ defined = name.toList := by
  unfold classify? at h
  split at h
  · cases h
  · rename_i hnone
    split at h
    · cases h
      rw [String.toList_ofList]
      exact ⟨hnone, rfl⟩
    · cases h

/-- What an equation defines has a name. -/
theorem isName_of_ofText {text : String} {e : Equation} (h : ofText isFunction text = .ok e) :
    isName e.name.toList = true := by
  obtain ⟨kind, name, right, expression, hparts, -, rfl⟩ := ofText_eq_ok h
  obtain ⟨left, rest, -, hclass⟩ := parts?_eq_some hparts
  exact isName_of_classify? hclass

theorem not_spacedInText_of_ofText {text : List Char} {e : Equation}
    (h : ofText isFunction (String.ofList text) = .ok e) : ¬ SpacedInText isFunction text := by
  intro hspaced
  have hfound := isSome_findSpacedFunction_iff.mpr hspaced
  simp only [ofText, String.toList_ofList, hfound, ↓reduceIte] at h
  cases h

/-- An equation between two names defines the left one. -/
theorem parts?_names {name other : List Char} (hname : isName name = true) (hother : isName other = true) :
    parts? (name ++ '=' :: other) = some (.helper, String.ofList name, other) := by
  rw [parts?, sides?_eq (equals_not_mem_of_isName hname),
    if_neg (by simp [ne_nil_of_isName hname, ne_nil_of_isName hother, equals_not_mem_of_isName hother])]
  simp [orient, classify?, derivativeOf?_of_isName hname, derivativeOf?_of_isName hother, hname]

/-! ### Equations that define a helper -/

/-- A name that can stand on the left of an equation: it is its own normal form, and applies no function. -/
structure Definable (isFunction : String → Bool) (name : List Char) : Prop where
  isName : isName name = true
  normal : normalText isFunction name = name
  unspaced : ¬ SpacedInText isFunction name

section
variable {name expression : List Char}

theorem not_mem_plainText_side (hname : isName name = true) : '(' ∉ plainText (name ++ [' ']) := by
  have hpadded : plainText ([] ++ name ++ [' ']) = [] ++ plainText name ++ [' '] :=
    sidewise_plainText.padded rfl (by decide)
  rw [List.nil_append, List.nil_append, plainText_words (isWord_of_isName hname)] at hpadded
  rw [hpadded, List.mem_append, not_or]
  exact ⟨not_mem_of_words (isWord_of_isName hname) (isWord_of_isPunctuation (by decide)), by decide⟩

theorem normalText_defining (hname : isName name = true) (expression : List Char) :
    normalText isFunction (name ++ " = ".toList ++ expression) =
      normalText isFunction name ++ '=' :: normalText isFunction expression := by
  have htext : name ++ " = ".toList ++ expression = (name ++ [' ']) ++ '=' :: (' ' :: expression) := by simp
  rw [htext, normalText_equation (.inl (not_mem_plainText_side hname)), (alike_append_blank name).normal,
    (alike_blank_cons expression).normal]

theorem spacedInText_defining (hname : isName name = true) (expression : List Char) :
    SpacedInText isFunction (name ++ " = ".toList ++ expression) ↔
      SpacedInText isFunction name ∨ SpacedInText isFunction expression := by
  have htext : name ++ " = ".toList ++ expression = (name ++ [' ']) ++ '=' :: (' ' :: expression) := by simp
  rw [htext, spacedInText_equation (.inl (not_mem_plainText_side hname)), (alike_append_blank name).spaced,
    (alike_blank_cons expression).spaced]

theorem equals_not_mem_normalText (hname : isName name = true) : '=' ∉ normalText isFunction name := by
  intro hmem
  rcases mem_normalText hmem with hstar | hmem
  · exact absurd hstar (by decide)
  · change '=' ∈ plainLogarithms (plainText name) at hmem
    rw [plainText_words (isWord_of_isName hname)] at hmem
    rcases mem_plainLogarithms hmem with hmem | hmem
    · exact equals_not_mem_of_isName hname hmem
    · revert hmem
      decide

/-- The name of a helper can stand on the left of other equations as well. -/
theorem definable_of_ofText {e : Equation} (hname : isName name = true)
    (h : ofText isFunction (String.ofList (name ++ " = ".toList ++ expression)) = .ok e) (helper : e.kind = .helper)
    (named : e.name = String.ofList name) : Definable isFunction name where
  isName := hname
  unspaced hspaced := not_spacedInText_of_ofText h ((spacedInText_defining hname expression).mpr (.inl hspaced))
  normal := by
    obtain ⟨kind, found, right, e', hparts, -, rfl⟩ := ofText_eq_ok h
    dsimp only at helper named
    subst helper named
    rw [String.toList_ofList, normalText_defining hname] at hparts
    obtain ⟨left, rest, hsides, hclass⟩ := parts?_eq_some hparts
    -- The left side is the name in normal form, and what is defined as a helper stands there as it is.
    rw [sides?_eq (equals_not_mem_normalText hname)] at hsides
    split at hsides
    · cases hsides
    · cases hsides
      obtain ⟨hnone, hdefined⟩ := eq_of_classify?_helper hclass
      rw [String.toList_ofList] at hdefined
      unfold orient at hnone hdefined
      split at hdefined
      · -- The right side is chosen for a derivative only.
        rename_i hchosen
        rw [if_pos hchosen] at hnone
        rw [hnone] at hchosen
        cases hchosen.2
      · exact hdefined

/-- A helper can be given any name that stays whole and is not reserved. -/
theorem ofText_name (definable : Definable isFunction name) {other : List Char} (whole : Whole other)
    (unreserved : Formula.isReserved other = false) :
    ofText isFunction (String.ofList (name ++ " = ".toList ++ other)) =
      .ok ⟨.helper, String.ofList name, String.ofList other,
        [String.ofList other].filter fun n => !isFunction n, .ofName other⟩ := by
  have hunspaced : (findSpacedFunction isFunction
      (tokens (canonicalText (name ++ " = ".toList ++ other)))).isSome = false := by
    rw [← Bool.not_eq_true, isSome_findSpacedFunction_iff]
    intro hspaced
    exact ((spacedInText_defining definable.isName other).mp hspaced).elim definable.unspaced whole.not_spacedInText
  have hparts : parts? (normalText isFunction (name ++ " = ".toList ++ other)) =
      some (.helper, String.ofList name, other) := by
    rw [normalText_defining definable.isName, definable.normal, whole.normalText]
    exact parts?_names definable.isName whole.isName
  simp only [ofText, String.toList_ofList, hunspaced, hparts, Expression.ofText_name whole unreserved,
    Bool.false_eq_true, ↓reduceIte]
  rfl

end

/-- Every name that an equation defines can be given to a helper, unless formulas take it for a literal or notation
does not leave it whole: the helper depends on the name alone, and has its value wherever it has one. -/
theorem ofText_reads_name {text q r : String} {e f : Equation} (accepted : ofText isFunction text = .ok e)
    (plain : isFunction e.name = false) (unreserved : Formula.isReserved e.name.toList = false)
    (unsubscripted : ¬ IsSubscripted e.name.toList) (unrewritten : ¬ RewritesNumber e.name.toList)
    (fresh : ofText isFunction (q ++ " = " ++ r) = .ok f) (helper : f.kind = .helper) (named : f.name = q) :
    ∃ g, ofText isFunction (q ++ " = " ++ e.name) = .ok g ∧ g.kind = .helper ∧ g.name = q ∧
      g.dependencies = [e.name] ∧
      ∀ state time helpers x, (⟨state, time, helpers⟩ : Scope).get? e.name = some x →
        g.eval state time helpers = .ok x := by
  have hlist (right : String) : q ++ " = " ++ right = String.ofList (q.toList ++ " = ".toList ++ right.toList) := by
    rw [← String.toList_append, ← String.toList_append, String.ofList_toList]
  have whole : Whole e.name.toList := ⟨isName_of_ofText accepted, unsubscripted, unrewritten⟩
  have definable : Definable isFunction q.toList := by
    rw [hlist] at fresh
    exact definable_of_ofText (named ▸ isName_of_ofText fresh) fresh helper (by rw [String.ofList_toList, named])
  refine ⟨_, (hlist e.name).symm ▸ ofText_name definable whole unreserved, rfl, String.ofList_toList, ?_, ?_⟩
  · simp only [String.ofList_toList, List.filter_cons, plain, Bool.not_false, ↓reduceIte, List.filter_nil]
  · intro state time helpers x hx
    rw [← String.ofList_toList (s := e.name)] at hx
    simp only [eval, Expression.eval_ofName hx]

/-- A name that looks like a logarithm, but has nothing behind its base; and one with a number behind an accent that is
too large to be written as a float. -/
theorem ofText_reads_name_subscript :
    (∃ e g, ofText knownFunctions.contains "log_2 = 5" = .ok e ∧ e.name = "log_2" ∧
      ofText knownFunctions.contains "q = log_2" = .ok g ∧ g.dependencies = ["log_2"] ∧
      ∀ state time helpers x, (⟨state, time, helpers⟩ : Scope).get? "log_2" = some x →
        g.eval state time helpers = .ok x) ∧
    ∃ e g, ofText knownFunctions.contains "x\u03011e999 = 5" = .ok e ∧ e.name = "x\u03011e999" ∧
      ofText knownFunctions.contains "q = x\u03011e999" = .ok g ∧ g.dependencies = ["x\u03011e999"] ∧
      ∀ state time helpers x, (⟨state, time, helpers⟩ : Scope).get? "x\u03011e999" = some x →
        g.eval state time helpers = .ok x := by
  have hfresh : (ofText knownFunctions.contains "q = 1").toOption.any (fun f => f.kind == .helper && f.name == "q")
      = true := by
    decide +kernel
  obtain ⟨f, hf, hfound⟩ := exists_ok_of_any hfresh
  rw [Bool.and_eq_true, beq_iff_eq, beq_iff_eq] at hfound
  constructor
  · have hread : (ofText knownFunctions.contains "log_2 = 5").toOption.any (fun e => e.name == "log_2") = true := by
      decide +kernel
    obtain ⟨e, he, hname⟩ := exists_ok_of_any hread
    rw [beq_iff_eq] at hname
    have unsubscripted : ¬ IsSubscripted e.name.toList := by
      -- Behind `log_` there is one character, and a base with an argument takes two.
      rw [hname]
      rintro ⟨base, c, rest, htext, hne, -⟩
      rw [List.append_assoc] at htext
      have htail : ['2'] = base ++ c :: rest :=
        List.append_cancel_left (show "log_".toList ++ ['2'] = "log_".toList ++ (base ++ c :: rest) from htext)
      cases base with
      | nil => exact hne rfl
      | cons d base => simpa using congrArg List.length htail
    obtain ⟨g, hg, -, -, hdependencies, heval⟩ := ofText_reads_name (q := "q") (r := "1") he
      (by rw [hname]; decide +kernel) (by rw [hname]; decide +kernel) unsubscripted (by rw [hname]; decide +kernel) hf
      hfound.1 hfound.2
    rw [hname] at hg hdependencies heval
    exact ⟨e, g, he, hname, hg, hdependencies, heval⟩
  · have hread : (ofText knownFunctions.contains "x\u03011e999 = 5").toOption.any
        (fun e => e.name == "x\u03011e999") = true := by
      decide +kernel
    obtain ⟨e, he, hname⟩ := exists_ok_of_any hread
    rw [beq_iff_eq] at hname
    have unsubscripted : ¬ IsSubscripted e.name.toList := by
      rw [hname]
      rintro ⟨base, c, rest, htext, -⟩
      cases htext
    obtain ⟨g, hg, -, -, hdependencies, heval⟩ := ofText_reads_name (q := "q") (r := "1") he
      (by rw [hname]; decide +kernel) (by rw [hname]; decide +kernel) unsubscripted (by rw [hname]; decide +kernel) hf
      hfound.1 hfound.2
    rw [hname] at hg hdependencies heval
    exact ⟨e, g, he, hname, hg, hdependencies, heval⟩

/-- Names that can be defined and not be read: a literal, one with a base and more behind it, and one with a number
behind an accent. -/
theorem ofText_reads_no_name :
    (∃ e g, ofText knownFunctions.contains "inf = 3" = .ok e ∧ e.name = "inf" ∧
      ofText knownFunctions.contains "q = inf" = .ok g ∧ g.dependencies = []) ∧
    (∃ e g, ofText knownFunctions.contains "dlog_x_y/dt = 1" = .ok e ∧ e.name = "log_x_y" ∧
      ofText knownFunctions.contains "q = log_x_y" = .ok g ∧ g.dependencies = ["_y", "x"]) ∧
    (∃ e g, ofText knownFunctions.contains "x\u03012 = 3" = .ok e ∧ e.name = "x\u03012" ∧
      ofText knownFunctions.contains "q = x\u03012" = .ok g ∧ g.dependencies = ["x\u03012.0"]) ∧
    ∀ name ∈ ["inf", "log_x_y", "x\u03012"], knownFunctions.contains name = false := by
  have reads {text other name : String} {dependencies : List String}
      (h : (ofText knownFunctions.contains text).toOption.any (fun e => e.name == name) = true)
      (h' : (ofText knownFunctions.contains other).toOption.any (fun g => g.dependencies == dependencies) = true) :
      ∃ e g, ofText knownFunctions.contains text = .ok e ∧ e.name = name ∧
        ofText knownFunctions.contains other = .ok g ∧ g.dependencies = dependencies := by
    obtain ⟨e, he, hname⟩ := exists_ok_of_any h
    obtain ⟨g, hg, hdependencies⟩ := exists_ok_of_any h'
    exact ⟨e, g, he, beq_iff_eq.mp hname, hg, beq_iff_eq.mp hdependencies⟩
  exact ⟨reads (by decide +kernel) (by decide +kernel), reads (by decide +kernel) (by decide +kernel),
    reads (by decide +kernel) (by decide +kernel), by decide +kernel⟩

end Equation

end OdeSystem
