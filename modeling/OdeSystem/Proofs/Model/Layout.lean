import OdeSystem.Proofs.Model.Order
import OdeSystem.Proofs.Notation.Layout
import OdeSystem.Proofs.Vector.Layout

/-!
The layout of the equations of a model. Each equation in another layout stands for the same scalar equations in other
layouts, and these are read as the same; so two lists that differ in their layout only are refused for the same kind of
error, or give the same definitions and aliases.
-/

namespace OdeSystem

open Text

variable {isFunction : String → Bool} {redeclaration : Redeclaration}

/-- How a scalar equation is read does not depend on its layout. -/
theorem Equation.matched_ofText {text text' : String} (h : Respaced text.toList text'.toList) :
    Matched Vector.SameKind Eq (ofText isFunction text) (ofText isFunction text') := by
  have halike : Notation.Alike isFunction text.toList text'.toList := Notation.alike_respaced h
  have hreading := reading_congr halike.spaced (congrArg parts? halike.normal)
  rw [String.ofList_toList, String.ofList_toList, reading, reading] at hreading
  generalize ofText isFunction text = x at hreading ⊢
  generalize ofText isFunction text' = y at hreading ⊢
  cases x with
  | ok e =>
    cases y with
    | ok e' => exact .ok (Except.ok.inj hreading)
    | error err' => cases hreading
  | error err =>
    cases y with
    | ok e' => cases hreading
    | error err' => exact .error (Except.error.inj hreading)

theorem Definitions.matched_addText (d : Definitions) {scalar scalar' : String}
    (h : Respaced scalar.toList scalar'.toList) :
    Matched Vector.SameKind Eq (d.addText isFunction redeclaration scalar).result
      (d.addText isFunction redeclaration scalar').result := by
  rw [result_addText, result_addText]
  refine (Equation.matched_ofText h).bind fun e e' he => ?_
  obtain rfl : e = e' := he
  cases d.add redeclaration e with
  | ok next => exact .ok rfl
  | error err => exact .error rfl

namespace Model

theorem matched_addEquation (sofar : Definitions × Vector.Aliases) {text text' : String}
    (h : Respaced text.toList text'.toList) :
    Matched Vector.SameKind Eq (addEquation isFunction redeclaration sofar text).result
      (addEquation isFunction redeclaration sofar text').result := by
  simp only [addEquation, Logged.result_bind, Logged.result_foldlM, Logged.result_pure]
  refine (Vector.matched_expand sofar.2 h).bind fun x y hxy => ?_
  refine (Matched.foldlM hxy.1 (fun d d' hd scalar scalar' hscalar => ?_) rfl).bind fun d d' hd => ?_
  · obtain rfl : d = d' := hd
    exact d.matched_addText hscalar
  · exact .ok (Prod.ext hd hxy.2)

theorem respaced_canonicalTexts {inputs inputs' : List WrittenEquation}
    (h : RespacedTexts (inputs.map (·.text)) (inputs'.map (·.text))) :
    RespacedTexts (canonicalTexts inputs) (canonicalTexts inputs') := by
  rw [RespacedTexts, List.forall₂_map_left_iff, List.forall₂_map_right_iff] at h
  have hcanonical : List.Forall₂ Respaced (inputs.map fun input => Notation.canonicalText input.text.toList)
      (inputs'.map fun input => Notation.canonicalText input.text.toList) :=
    List.rel_map (fun _ _ htext => Notation.respaced_canonicalText htext) h
  refine List.rel_filterMap (fun text text' htext => ?_) hcanonical
  rw [htext.allBlank_eq]
  split
  · exact .none
  · exact .some (by simpa using htext)

/-- The aliases known before the first equation do not depend on the layout of any. -/
theorem result_initialAliases_respaced (resolution : AliasResolution) {texts texts' : List String}
    (h : RespacedTexts texts texts') :
    ∃ aliases, (initialAliases resolution texts).result = .ok aliases ∧
      (initialAliases resolution texts').result = .ok aliases := by
  cases resolution with
  | declarationOrder => exact ⟨_, rfl, rfl⟩
  | twoPass =>
    have hdeclared : texts.filterMap Vector.declared? = texts'.filterMap Vector.declared? := by
      induction h with
      | nil => rfl
      | cons htext _ ih => rw [List.filterMap_cons, List.filterMap_cons, Vector.declared?_respaced htext, ih]
    exact ⟨_, result_initialAliases texts, by rw [result_initialAliases, hdeclared]⟩

/-- Layout does not matter: when the runs of blanks in the equations are replaced by others, either both lists are
read, with the same variables, helpers and aliases, or both are refused, for the same kind of error. -/
theorem compile_respaced {options : Options} {inputs inputs' : List WrittenEquation}
    (h : RespacedTexts (inputs.map (·.text)) (inputs'.map (·.text))) :
    (∃ m m', (compile isFunction options inputs).result = .ok m ∧
      (compile isFunction options inputs').result = .ok m' ∧
      m.derivatives = m'.derivatives ∧ m.helpers = m'.helpers ∧ m.aliases = m'.aliases) ∨
    ∃ e e', (compile isFunction options inputs).result = .error e ∧
      (compile isFunction options inputs').result = .error e' ∧ e.kind = e'.kind := by
  have htexts := respaced_canonicalTexts h
  obtain ⟨aliases, haliases, haliases'⟩ := result_initialAliases_respaced options.aliasResolution htexts
  rw [result_compile haliases, result_compile haliases']
  -- Equation by equation, the definitions and the aliases stay the same in both.
  have hstep : ∀ sofar sofar' : Definitions × Vector.Aliases, sofar = sofar' → ∀ text text' : String,
      Respaced text.toList text'.toList →
      Matched Vector.SameKind Eq (addEquation isFunction options.redeclaration sofar text).result
        (addEquation isFunction options.redeclaration sofar' text').result := by
    rintro sofar _ rfl text text' htext
    exact matched_addEquation sofar htext
  rcases (Matched.foldlM htexts hstep (rfl : (Definitions.empty, aliases) = (.empty, aliases))).ok_or_error with
    ⟨last, last', hlast, hlast', rfl⟩ | ⟨e, e', he, he', hkind⟩
  · rw [hlast, hlast']
    exact .inl ⟨_, _, rfl, rfl, rfl, rfl, rfl⟩
  · rw [he, he']
    exact .inr ⟨e, e', rfl, rfl, hkind⟩

/-- An oscillator, written with spaces and then with tabs, line breaks and other blanks. -/
theorem compile_respaced_oscillator :
    let texts := ["r = ((x , y))", "dr / dt = ((y, -k x))", " k = log _ 2 (8)"]
    let texts' := ["r\t= ((x\n, y))", "dr\u00a0/\u3000dt = ((y,\t -k\u2003x))", "\r\nk = log\t_ 2  (8)"]
    RespacedTexts texts texts' ∧
      ∃ m m', (compile knownFunctions.contains .usual (texts.map .ofText)).result = .ok m ∧
        (compile knownFunctions.contains .usual (texts'.map .ofText)).result = .ok m' ∧
        m.variableNames = ["x", "y"] ∧ m.helpers.names = ["k"] ∧
        m.derivatives = m'.derivatives ∧ m.helpers = m'.helpers ∧ m.aliases = m'.aliases := by
  intro texts texts'
  have htexts : RespacedTexts texts texts' := by decide +kernel
  have hcompiled : (compile knownFunctions.contains .usual (texts.map .ofText)).result.toOption.any
      (fun m => m.variableNames == ["x", "y"] && m.helpers.names == ["k"]) = true := by
    decide +kernel
  obtain ⟨m, hm, hnames⟩ := exists_ok_of_any hcompiled
  rw [Bool.and_eq_true, beq_iff_eq, beq_iff_eq] at hnames
  have hinputs : RespacedTexts ((texts.map WrittenEquation.ofText).map (·.text))
      ((texts'.map WrittenEquation.ofText).map (·.text)) := htexts
  rcases compile_respaced hinputs with ⟨m₁, m', hm₁, hm', hsame⟩ | ⟨e, _, he, -⟩
  · obtain rfl : m = m₁ := Except.ok.inj (hm.symm.trans hm₁)
    exact ⟨htexts, m, m', hm, hm', hnames.1, hnames.2, hsame⟩
  · rw [hm] at he
    cases he

end Model

end OdeSystem
