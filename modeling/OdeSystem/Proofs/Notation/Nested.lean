import OdeSystem.Proofs.Notation.Identifier

/-!
Expressions with logarithms in them. The parentheses of an expression match, so the argument of a logarithm is read whole;
but it is written as it stands, and the search goes on behind it. So the logarithms of an expression are rewritten except
for those in the argument of another one.
-/

namespace OdeSystem.Notation

open Text

/-! ### Expressions -/

namespace Term

/-- A name that is one token, and in which no logarithm with a subscript begins. -/
structure Name where
  text : List Char
  isToken : tokens text = [.name text]
  unsubscripted : Everywhere (fun before rest => before.any isWord = false → "log_".toList.isPrefixOf rest = false) none text

/-- A number that is one token. -/
structure Numeral where
  text : List Char
  isToken : tokens text = [.number text]

/-- A base of letters and digits of ASCII. -/
structure Base where
  text : List Char
  ne_nil : text ≠ []
  isAscii : text.all (fun c => isLatin c || isAsciiDigit c) = true

/-- Blanks between the parts of an expression, if any. -/
structure Blanks where
  text : List Char
  blank : allBlank text = true

/-- The signs of operators, and the comma between arguments. -/
inductive Sign
  | add
  | sub
  | mul
  | div
  | pow
  | comma

def Sign.char : Sign → Char
  | add => '+'
  | sub => '-'
  | mul => '*'
  | div => '/'
  | pow => '^'
  | comma => ','

end Term

/-- An expression. The arguments of a function are one expression with commas, or an empty one. -/
inductive Term
  | empty
  | name (f : Term.Name)
  | number (digits : Term.Numeral)
  | signed (sign : Term.Sign) (operand : Term)
  | binary (left : Term) (sign : Term.Sign) (right : Term)
  | group (inner : Term)
  | call (f : Term.Name) (gap : Term.Blanks) (arguments : Term)
  | logarithm (base : Term.Base) (gap : Term.Blanks) (argument : Term)
  | spaced (leading : Term.Blanks) (inner : Term) (trailing : Term.Blanks)

namespace Term

/-- The text of an expression. -/
def text : Term → List Char
  | empty => []
  | name f => f.text
  | number digits => digits.text
  | signed sign operand => sign.char :: operand.text
  | binary left sign right => left.text ++ sign.char :: right.text
  | group inner => '(' :: (inner.text ++ [')'])
  | call f gap arguments => f.text ++ (gap.text ++ '(' :: (arguments.text ++ [')']))
  | logarithm base gap argument => "log_".toList ++ (base.text ++ (gap.text ++ '(' :: (argument.text ++ [')'])))
  | spaced leading inner trailing => leading.text ++ (inner.text ++ trailing.text)

/-- The text of an expression with its logarithms rewritten; those in the argument of another one, too, if it is to be
done at every depth. -/
def rewritten (deep : Bool) : Term → List Char
  | empty => []
  | name f => f.text
  | number digits => digits.text
  | signed sign operand => sign.char :: operand.rewritten deep
  | binary left sign right => left.rewritten deep ++ sign.char :: right.rewritten deep
  | group inner => '(' :: (inner.rewritten deep ++ [')'])
  | call f gap arguments => f.text ++ (gap.text ++ '(' :: (arguments.rewritten deep ++ [')']))
  | logarithm base _ argument => Notation.logarithm (if deep then argument.rewritten deep else argument.text) base.text
  | spaced leading inner trailing => leading.text ++ (inner.rewritten deep ++ trailing.text)

/-- The number of logarithms in an expression. -/
def logarithms : Term → Nat
  | empty | name _ | number _ => 0
  | signed _ inner | group inner | call _ _ inner | spaced _ inner _ => inner.logarithms
  | binary left _ right => left.logarithms + right.logarithms
  | logarithm _ _ argument => argument.logarithms + 1

/-- The number of those in the argument of another one. -/
def nested : Term → Nat
  | empty | name _ | number _ => 0
  | signed _ inner | group inner | call _ _ inner | spaced _ inner _ => inner.nested
  | binary left _ right => left.nested + right.nested
  | logarithm _ _ argument => argument.logarithms

/-! ### Characters of the parts -/

theorem Name.isNameChar (f : Name) : ∀ c ∈ f.text, isNameChar c = true :=
  let ⟨_, _, _, h⟩ := isToken_of_tokens_eq f.isToken
  h.isNameChar

theorem Numeral.mem (digits : Numeral) {c : Char} (hc : c ∈ digits.text) :
    isAsciiDigit c = true ∨ c ∈ ['.', '+', '-', 'e', 'E'] :=
  let ⟨_, _, _, h⟩ := isToken_of_tokens_eq digits.isToken
  h.number_mem hc

theorem Base.isBaseChar (base : Base) : ∀ c ∈ base.text, isBaseChar c = true := by
  intro c hc
  have h := List.all_eq_true.mp base.isAscii c hc
  rw [Notation.isBaseChar, h, Bool.true_or]

theorem not_mem_of_all {p : Char → Bool} {text : List Char} {c : Char} (h : ∀ d ∈ text, p d = true) (hc : p c = false) :
    c ∉ text := fun hmem =>
  absurd (h c hmem) ((Bool.not_eq_true _).mpr hc)

theorem Name.not_mem (f : Name) {c : Char} (hc : Notation.isNameChar c = false) : c ∉ f.text :=
  not_mem_of_all f.isNameChar hc

theorem Base.not_mem (base : Base) {c : Char} (hc : Notation.isBaseChar c = false) : c ∉ base.text :=
  not_mem_of_all base.isBaseChar hc

theorem Blanks.not_mem (blanks : Blanks) {c : Char} (hc : isBlank c = false) : c ∉ blanks.text :=
  not_mem_of_all (List.all_eq_true.mp blanks.blank) hc

theorem Blanks.count_comma (blanks : Blanks) : blanks.text.count ',' = 0 :=
  List.count_eq_zero.mpr (blanks.not_mem (by decide))

theorem Numeral.not_mem (digits : Numeral) {c : Char} (hc : isAsciiDigit c = false)
    (hsign : c ∉ ['.', '+', '-', 'e', 'E']) : c ∉ digits.text := fun hmem => by
  rcases digits.mem hmem with h | h
  · rw [hc] at h
    cases h
  · exact hsign h

theorem Sign.isPunctuation (sign : Sign) : isPunctuation sign.char = true := by
  cases sign <;> decide

end Term

/-! ### Groups -/

/-- Whether the parentheses of a text match: a group that has been opened before it is read on behind it. -/
def Balanced (text : List Char) : Prop :=
  ∀ depth more, takeGroup depth (text ++ more) = (takeGroup depth more).map fun found => (text ++ found.1, found.2)

section
variable {left right inner : List Char}

theorem Balanced.append (h : Balanced left) (h' : Balanced right) : Balanced (left ++ right) := fun depth more => by
  rw [List.append_assoc, h, h', Option.map_map]
  simp [Function.comp_def]

theorem balanced_of_not_mem (hopen : '(' ∉ inner) (hclosing : ')' ∉ inner) : Balanced inner := fun depth more => by
  induction inner with
  | nil => simp
  | cons c inner ih =>
    obtain ⟨hc, hinner⟩ := not_or.mp (List.mem_cons.not.mp hopen)
    obtain ⟨hc', hinner'⟩ := not_or.mp (List.mem_cons.not.mp hclosing)
    rw [List.cons_append, takeGroup_cons, if_neg (Ne.symm hc), if_neg (Ne.symm hc'), ih hinner hinner', Option.map_map]
    rfl

theorem Balanced.group (h : Balanced inner) : Balanced ('(' :: (inner ++ [')'])) := fun depth more => by
  rw [List.cons_append, List.append_assoc, takeGroup_cons, if_pos rfl, h, List.singleton_append, takeGroup_cons,
    if_neg (by decide), if_pos rfl]
  simp only [Option.map_map, Function.comp_def, List.append_assoc, List.cons_append, List.nil_append]

/-- The inside of a group is read whole. -/
theorem Balanced.takeGroup_eq (h : Balanced inner) (more : List Char) :
    takeGroup 0 (inner ++ ')' :: more) = some (inner, more) := by
  rw [h, takeGroup_cons, if_neg (by decide), if_pos rfl, Option.map_some, List.append_nil]

theorem Term.balanced (t : Term) : Balanced t.text := by
  have hname (f : Name) : Balanced f.text :=
    balanced_of_not_mem (f.not_mem (by decide +kernel)) (f.not_mem (by decide +kernel))
  have hblanks (blanks : Blanks) : Balanced blanks.text :=
    balanced_of_not_mem (blanks.not_mem (by decide)) (blanks.not_mem (by decide))
  have hsign (sign : Sign) : Balanced [sign.char] :=
    balanced_of_not_mem (by cases sign <;> decide) (by cases sign <;> decide)
  induction t with
  | empty => exact balanced_of_not_mem (by simp [text]) (by simp [text])
  | name f => exact hname f
  | number digits =>
    exact balanced_of_not_mem (digits.not_mem (by decide) (by decide)) (digits.not_mem (by decide) (by decide))
  | signed sign operand ih => exact (hsign sign).append ih
  | binary left sign right ihleft ihright => exact ihleft.append ((hsign sign).append ihright)
  | group inner ih => exact ih.group
  | call f gap arguments ih => exact (hname f).append ((hblanks gap).append ih.group)
  | logarithm base gap argument ih =>
    have hbase : Balanced base.text :=
      balanced_of_not_mem (base.not_mem (by decide)) (base.not_mem (by decide))
    exact (balanced_of_not_mem (by decide) (by decide)).append (hbase.append ((hblanks gap).append ih.group))
  | spaced leading inner trailing ih => exact (hblanks leading).append (ih.append (hblanks trailing))

end

/-! ### The search in an expression -/

/-- Whether an expression can end before a text: no name goes on into it, and no base begins behind blanks. -/
structure EndsTerm (text : List Char) : Prop where
  name : text.head?.any isNameChar = false
  line : (trimLeft text).head? ≠ some '_'

section
variable {memory : Option Char} {run rest : List Char}

theorem endsTerm_nil : EndsTerm [] := ⟨rfl, by simp [trimLeft]⟩

theorem endsTerm_cons {c : Char} (hc : isPunctuation c = true) (rest : List Char) : EndsTerm (c :: rest) where
  name := by
    have hline : c ≠ '_' := by
      rintro rfl
      cases hc
    simp [isNameChar, isAlphanumeric_of_isPunctuation hc, hline]
  line := by
    have hline : c ≠ '_' := by
      rintro rfl
      cases hc
    have hblank : isBlank c = false := by
      cases hblank : isBlank c with
      | false => rfl
      | true =>
        have hpunctuation : (!isPunctuation c || c == '=') = true :=
          of_isSeparator (p := fun c => !isPunctuation c || c == '=') (by decide) (isSeparator_of_isBlank hblank)
        rw [hc, Bool.not_true, Bool.false_or, beq_iff_eq] at hpunctuation
        rw [hpunctuation] at hblank
        cases hblank
    rw [trimLeft_cons_of_not_isBlank hblank]
    simpa using hline

theorem EndsTerm.blanks (ends : EndsTerm rest) {blanks : List Char} (hblanks : allBlank blanks = true) :
    EndsTerm (blanks ++ rest) where
  name := head_behind_blanks (fun hc => isNameChar_of_isSeparator (isSeparator_of_isBlank hc)) hblanks fun _ => ends.name
  line := by
    rw [trimLeft_append_of_eq_nil (trimLeft_eq_nil_iff.mpr hblanks)]
    exact ends.line

/-- Behind an expression it does not matter what the search remembers. -/
theorem EndsTerm.plainLogarithmsFrom (ends : EndsTerm rest) (memory : Option Char) :
    plainLogarithmsFrom memory rest = plainLogarithmsFrom none rest := by
  cases rest with
  | nil => rfl
  | cons c rest =>
    have hc : c ≠ 'l' := by
      rintro rfl
      have hname : isNameChar 'l' = false := ends.name
      revert hname
      decide
    rw [plainLogarithmsFrom_cons_of_ne hc, plainLogarithmsFrom_cons_of_ne hc]

/-- Characters where no base is read are kept. -/
theorem plainLogarithmsFrom_run (hnone : ∀ shorter c longer, run = shorter ++ c :: longer →
    (lastOf memory shorter).any isWord = false → takeBase (c :: (longer ++ rest)) = none) :
    plainLogarithmsFrom memory (run ++ rest) = run ++ plainLogarithmsFrom (lastOf memory run) rest := by
  induction run generalizing memory with
  | nil => rfl
  | cons c run ih =>
    have hread : (if atBoundary memory (c :: (run ++ rest)) then takeBase (c :: (run ++ rest)) else none) = none := by
      split
      · rename_i hboundary
        by_cases hc : c = 'l'
        · refine hnone [] c run rfl ?_
          rw [atBoundary, List.head?_cons, Option.any_some, hc,
            isWord_of_isIdentifierChar (show isIdentifierChar 'l' = true by decide), bne_iff_ne, ne_eq,
            Bool.not_eq_true] at hboundary
          exact hboundary
        · exact takeBase_of_ne hc
      · rfl
    rw [List.cons_append, plainLogarithmsFrom_kept hread, ih fun shorter d longer heq hbefore =>
      hnone (c :: shorter) d longer (congrArg (c :: ·) heq) hbefore, lastOf, List.cons_append]

theorem plainLogarithmsFrom_spaced (hmemory : memory.any isWord = false) {blanks : List Char}
    (hblanks : allBlank blanks = true) (rest : List Char) :
    ∃ memory', memory'.any isWord = false ∧
      plainLogarithmsFrom memory (blanks ++ rest) = blanks ++ plainLogarithmsFrom memory' rest := by
  cases blanks with
  | nil => exact ⟨memory, hmemory, rfl⟩
  | cons c blanks =>
    simp only [allBlank, List.all_cons, Bool.and_eq_true] at hblanks
    refine ⟨none, rfl, ?_⟩
    rw [List.cons_append, plainLogarithmsFrom_separator (isSeparator_of_isBlank hblanks.1),
      plainLogarithmsFrom_blanks hblanks.2, List.cons_append]

/-- No base is read in a name in which no logarithm with a subscript begins, if no line follows it. -/
theorem takeBase_in_name {c : Char} (hname : ∀ d ∈ run, isNameChar d = true) (ends : EndsTerm rest)
    (hsubscript : "log_".toList.isPrefixOf (c :: run) = false) : takeBase (c :: (run ++ rest)) = none := by
  cases hread : takeBase (c :: (run ++ rest)) with
  | none => rfl
  | some found =>
    obtain ⟨base, behind⟩ := found
    obtain ⟨b₁, b₂, hb₁, hb₂, htext, -, -, -⟩ := takeBase_eq_some_iff.mp hread
    obtain ⟨rfl, hrest⟩ := List.cons.inj htext
    obtain ⟨htake, hdrop⟩ := takeWhile_ended hname ends.name
    have hletter (d : Char) (hd : d ∈ ['o', 'g', '_']) : isNameChar d = true :=
      List.all_eq_true.mp (by decide : ['o', 'g', '_'].all isNameChar = true) d hd
    rw [hrest, List.takeWhile_cons_of_pos (hletter _ (by simp)), List.takeWhile_cons_of_pos (hletter _ (by simp))] at htake
    rw [hrest, List.dropWhile_cons_of_pos (hletter _ (by simp)), List.dropWhile_cons_of_pos (hletter _ (by simp))] at hdrop
    exfalso
    cases b₁ with
    | nil =>
      -- The line is in the name.
      rw [List.nil_append, List.takeWhile_cons_of_pos (hletter _ (by simp))] at htake
      rw [← htake] at hsubscript
      cases hsubscript
    | cons d b₁ =>
      have hd : isBlank d = true := List.all_eq_true.mp hb₁ d (List.mem_cons_self ..)
      have hstop : Notation.isNameChar d = false := isNameChar_of_isSeparator (isSeparator_of_isBlank hd)
      rw [List.cons_append, List.dropWhile_cons_of_neg (by simp [hstop]), ← List.cons_append] at hdrop
      apply ends.line
      rw [← hdrop, trimLeft_blanks hb₁ (by decide)]
      rfl

theorem Term.Name.plainLogarithmsFrom (f : Term.Name) (ends : EndsTerm rest) (memory : Option Char) :
    Notation.plainLogarithmsFrom memory (f.text ++ rest) = f.text ++ Notation.plainLogarithmsFrom none rest := by
  rw [plainLogarithmsFrom_run, ends.plainLogarithmsFrom]
  intro shorter c longer htext hbefore
  have hunsubscripted := f.unsubscripted
  have hnames := f.isNameChar
  rw [htext] at hunsubscripted hnames
  refine takeBase_in_name (fun d hd => hnames d (by simp [hd])) ends (hunsubscripted.drop.1 ?_)
  cases shorter with
  | nil => rfl
  | cons d shorter => exact hbefore

/-- A logarithm is replaced, and its argument is written as it stands. -/
theorem plainLogarithmsFrom_logarithm (hmemory : memory.any isWord = false) (base : Term.Base) (gap : Term.Blanks)
    {argument : List Char} (h : Balanced argument) (rest : List Char) :
    plainLogarithmsFrom memory ("log_".toList ++ (base.text ++ (gap.text ++ '(' :: (argument ++ ')' :: rest)))) =
      logarithm argument base.text ++ plainLogarithmsFrom none rest := by
  have hbase : takeBase ("log_".toList ++ (base.text ++ (gap.text ++ '(' :: (argument ++ ')' :: rest)))) =
      some (base.text, gap.text ++ '(' :: (argument ++ ')' :: rest)) :=
    takeBase_eq_some_iff.mpr ⟨[], [], rfl, rfl, rfl, base.ne_nil, base.isBaseChar,
      head_behind_blanks isBaseChar_of_isBlank gap.blank fun _ => (by decide : isBaseChar '(' = false)⟩
  have hargument : takeArgument (trimLeft (gap.text ++ '(' :: (argument ++ ')' :: rest))) = some (argument, rest) := by
    rw [trimLeft_blanks gap.blank (by decide)]
    exact h.takeGroup_eq rest
  have htext : "log_".toList ++ (base.text ++ (gap.text ++ '(' :: (argument ++ ')' :: rest))) =
      ("log_".toList ++ (base.text ++ (gap.text ++ '(' :: (argument ++ [')'])))) ++ rest := by simp
  refine plainLogarithmsFrom_found htext (by simp) ?_ (takeLogarithm_eq_some_iff.mpr ⟨_, hbase, hargument⟩)
  · have hl : isWord 'l' = true := isWord_of_isIdentifierChar (by decide)
    rw [atBoundary, hmemory]
    simp [hl]

end

namespace Term

theorem Sign.isWord (sign : Sign) : Text.isWord sign.char = false := isWord_of_isPunctuation sign.isPunctuation

theorem Sign.ne (sign : Sign) : sign.char ≠ 'l' := by
  cases sign <;> decide

/-- The search goes on inside of a group and behind it. -/
theorem plainLogarithmsFrom_group {inner inner' rest : List Char} (ends : EndsTerm rest) (memory : Option Char)
    (h : plainLogarithmsFrom (some '(') (inner ++ ')' :: rest) = inner' ++ plainLogarithmsFrom none (')' :: rest)) :
    plainLogarithmsFrom memory ('(' :: (inner ++ ')' :: rest)) = '(' :: (inner' ++ ')' :: plainLogarithmsFrom none rest) := by
  rw [plainLogarithmsFrom_cons_of_ne (by decide), h, plainLogarithmsFrom_cons_of_ne (by decide), ends.plainLogarithmsFrom]

/-- The search replaces the logarithms of an expression that are in no argument of another one. -/
theorem plainLogarithmsFrom_text (t : Term) : ∀ {memory : Option Char} {rest : List Char},
    memory.any Text.isWord = false → EndsTerm rest →
      plainLogarithmsFrom memory (t.text ++ rest) = t.rewritten false ++ plainLogarithmsFrom none rest := by
  induction t with
  | empty => exact fun _ ends => ends.plainLogarithmsFrom _
  | name f => exact fun _ ends => f.plainLogarithmsFrom ends _
  | number digits =>
    intro memory rest _ ends
    rw [text, rewritten, plainLogarithmsFrom_run, ends.plainLogarithmsFrom]
    intro shorter c longer htext _
    refine takeBase_of_ne ?_
    rintro rfl
    exact digits.not_mem (by decide) (by decide) (htext ▸ List.mem_append_right _ (List.mem_cons_self ..))
  | signed sign operand ih =>
    intro memory rest _ ends
    rw [text, rewritten, List.cons_append, plainLogarithmsFrom_cons_of_ne sign.ne, @ih (some sign.char) rest sign.isWord ends,
      List.cons_append]
  | binary left sign right ihleft ihright =>
    intro memory rest hmemory ends
    rw [text, rewritten, List.append_assoc, List.cons_append, ihleft hmemory (endsTerm_cons sign.isPunctuation _),
      plainLogarithmsFrom_cons_of_ne sign.ne, @ihright (some sign.char) rest sign.isWord ends, List.append_assoc,
      List.cons_append]
  | group inner ih =>
    intro memory rest _ ends
    have hinner := @ih (some '(') (')' :: rest) (isWord_of_isPunctuation (by decide)) (endsTerm_cons (by decide) rest)
    rw [text, rewritten, List.cons_append, List.append_assoc, List.singleton_append,
      plainLogarithmsFrom_group ends memory hinner]
    simp
  | call f gap arguments ih =>
    intro memory rest _ ends
    have hgap : EndsTerm (gap.text ++ '(' :: (arguments.text ++ ')' :: rest)) :=
      (endsTerm_cons (by decide) _).blanks gap.blank
    have htext : (call f gap arguments).text ++ rest = f.text ++ (gap.text ++ '(' :: (arguments.text ++ ')' :: rest)) := by
      simp [text]
    have hinner := @ih (some '(') (')' :: rest) (isWord_of_isPunctuation (by decide)) (endsTerm_cons (by decide) rest)
    rw [htext, f.plainLogarithmsFrom hgap, plainLogarithmsFrom_blanks gap.blank, plainLogarithmsFrom_group ends none hinner]
    simp [rewritten]
  | logarithm base gap argument ih =>
    intro memory rest hmemory _
    have htext : (logarithm base gap argument).text ++ rest =
        "log_".toList ++ (base.text ++ (gap.text ++ '(' :: (argument.text ++ ')' :: rest))) := by
      simp [text]
    rw [htext, plainLogarithmsFrom_logarithm hmemory base gap argument.balanced rest]
    rfl
  | spaced leading inner trailing ih =>
    intro memory rest hmemory ends
    obtain ⟨memory', hmemory', hleading⟩ :=
      plainLogarithmsFrom_spaced hmemory leading.blank (inner.text ++ (trailing.text ++ rest))
    rw [text, List.append_assoc, List.append_assoc, hleading, ih hmemory' (ends.blanks trailing.blank),
      plainLogarithmsFrom_blanks trailing.blank]
    simp [rewritten]

/-! ### Logarithms at every depth -/

theorem rewritten_eq_text {deep : Bool} (t : Term) (h : t.logarithms = 0) : t.rewritten deep = t.text := by
  induction t with
  | empty => rfl
  | name => rfl
  | number => rfl
  | signed sign operand ih => rw [text, rewritten, ih h]
  | binary left sign right ihleft ihright =>
    obtain ⟨hleft, hright⟩ := Nat.add_eq_zero_iff.mp h
    rw [text, rewritten, ihleft hleft, ihright hright]
  | group inner ih => rw [text, rewritten, ih h]
  | call f gap arguments ih => rw [text, rewritten, ih h]
  | logarithm => cases h
  | spaced leading inner trailing ih => rw [text, rewritten, ih h]

theorem rewritten_eq_of_nested (t : Term) (h : t.nested = 0) : t.rewritten false = t.rewritten true := by
  induction t with
  | empty => rfl
  | name => rfl
  | number => rfl
  | signed sign operand ih => rw [rewritten, rewritten, ih h]
  | binary left sign right ihleft ihright =>
    obtain ⟨hleft, hright⟩ := Nat.add_eq_zero_iff.mp h
    rw [rewritten, rewritten, ihleft hleft, ihright hright]
  | group inner ih => rw [rewritten, rewritten, ih h]
  | call f gap arguments ih => rw [rewritten, rewritten, ih h]
  | logarithm base gap argument ih =>
    rw [rewritten, rewritten, if_neg Bool.false_ne_true, if_pos rfl, rewritten_eq_text argument h]
  | spaced leading inner trailing ih => rw [rewritten, rewritten, ih h]

/-- Every logarithm that is rewritten brings a comma. -/
theorem count_rewritten_true (t : Term) : (t.rewritten true).count ',' = t.text.count ',' + t.logarithms := by
  induction t with
  | empty => rfl
  | name => rfl
  | number => rfl
  | signed sign operand ih => simp only [text, rewritten, logarithms, List.count_cons, ih]; omega
  | binary left sign right ihleft ihright =>
    simp only [text, rewritten, logarithms, List.count_append, List.count_cons, ihleft, ihright]
    omega
  | group inner ih => simp only [text, rewritten, logarithms, List.count_append, List.count_cons, ih]; omega
  | call f gap arguments ih => simp only [text, rewritten, logarithms, List.count_append, List.count_cons, ih]; omega
  | logarithm base gap argument ih =>
    have hname : ("log_".toList).count ',' = 0 := rfl
    simp only [text, rewritten, logarithms, count_logarithm, List.count_append, List.count_cons, if_true, ih,
      gap.count_comma, hname]
    simp
    omega
  | spaced leading inner trailing ih => simp only [text, rewritten, logarithms, List.count_append, ih]; omega

theorem count_rewritten (t : Term) : (t.rewritten true).count ',' = (t.rewritten false).count ',' + t.nested := by
  induction t with
  | empty => rfl
  | name => rfl
  | number => rfl
  | signed sign operand ih => simp only [rewritten, nested, List.count_cons, ih]; omega
  | binary left sign right ihleft ihright =>
    simp only [rewritten, nested, List.count_append, List.count_cons, ihleft, ihright]
    omega
  | group inner ih => simp only [rewritten, nested, List.count_append, List.count_cons, ih]; omega
  | call f gap arguments ih => simp only [rewritten, nested, List.count_append, List.count_cons, ih]; omega
  | logarithm base gap argument ih =>
    simp only [rewritten, nested, count_logarithm, if_true, if_neg Bool.false_ne_true, count_rewritten_true]
    omega
  | spaced leading inner trailing ih => simp only [rewritten, nested, List.count_append, ih]; omega

/-- The logarithms of an expression are rewritten at every depth just where none is in the argument of another one. -/
theorem rewritten_eq_iff (t : Term) : t.rewritten false = t.rewritten true ↔ t.nested = 0 := by
  refine ⟨fun heq => ?_, t.rewritten_eq_of_nested⟩
  have hcount := t.count_rewritten
  rw [heq] at hcount
  omega

theorem isDash_of_mem_text (t : Term) : ∀ c ∈ t.text, isDash c = false := by
  have hname (f : Name) : ∀ c ∈ f.text, isDash c = false := fun c hc => isDash_of_isNameChar (f.isNameChar c hc)
  have hblanks (blanks : Blanks) : ∀ c ∈ blanks.text, isDash c = false := fun c hc =>
    isDash_of_isSeparator (isSeparator_of_isBlank (List.all_eq_true.mp blanks.blank c hc))
  have hsign (sign : Sign) : isDash sign.char = false := by cases sign <;> decide
  have hclosing : ∀ c ∈ [')'], isDash c = false := isDash_of_all (by decide)
  induction t with
  | empty => simp [text]
  | name f => exact hname f
  | number digits =>
    intro c hc
    cases hdash : isDash c with
    | false => rfl
    | true =>
      refine absurd hc (digits.not_mem ?_ ?_)
      · rcases eq_of_isDash hdash with rfl | rfl | rfl <;> decide
      · rcases eq_of_isDash hdash with rfl | rfl | rfl <;> decide
  | signed sign operand ih => exact List.forall_mem_cons.mpr ⟨hsign sign, ih⟩
  | binary left sign right ihleft ihright =>
    exact List.forall_mem_append.mpr ⟨ihleft, List.forall_mem_cons.mpr ⟨hsign sign, ihright⟩⟩
  | group inner ih =>
    exact List.forall_mem_cons.mpr ⟨by decide, List.forall_mem_append.mpr ⟨ih, hclosing⟩⟩
  | call f gap arguments ih =>
    exact List.forall_mem_append.mpr ⟨hname f, List.forall_mem_append.mpr ⟨hblanks gap,
      List.forall_mem_cons.mpr ⟨by decide, List.forall_mem_append.mpr ⟨ih, hclosing⟩⟩⟩⟩
  | logarithm base gap argument ih =>
    have hbase : ∀ c ∈ base.text, isDash c = false := fun c hc => by
      have hidentifier : isIdentifierChar c = true := by
        have := List.all_eq_true.mp base.isAscii c hc
        simpa [isIdentifierChar, isNameStart, or_right_comm] using Or.inl this
      exact isDash_of_isNameChar (isAlphanumeric_of_isIdentifierChar hidentifier)
    exact List.forall_mem_append.mpr ⟨isDash_of_all (by decide), List.forall_mem_append.mpr ⟨hbase,
      List.forall_mem_append.mpr ⟨hblanks gap, List.forall_mem_cons.mpr ⟨by decide,
        List.forall_mem_append.mpr ⟨ih, hclosing⟩⟩⟩⟩⟩
  | spaced leading inner trailing ih =>
    exact List.forall_mem_append.mpr ⟨hblanks leading, List.forall_mem_append.mpr ⟨ih, hblanks trailing⟩⟩

end Term

/-- In an expression in which no derivative is written in another form, canonical notation rewrites the logarithms that are
in no argument of another one; so it rewrites all of them just where none is in the argument of another one. -/
theorem canonicalize_logarithms (t : Term) (derivatives : plainDerivatives t.text = t.text) :
    canonicalize (String.ofList t.text) = String.ofList (t.rewritten false) ∧
      (canonicalize (String.ofList t.text) = String.ofList (t.rewritten true) ↔ t.nested = 0) := by
  have hcanonical : canonicalize (String.ofList t.text) = String.ofList (t.rewritten false) := by
    have hsearch := @Term.plainLogarithmsFrom_text t none [] rfl endsTerm_nil
    rw [List.append_nil] at hsearch
    rw [canonicalize, String.toList_ofList, canonicalText, plainMinus_eq_self t.isDash_of_mem_text, derivatives]
    exact congrArg String.ofList (hsearch.trans (List.append_nil _))
  refine ⟨hcanonical, ?_⟩
  rw [hcanonical, String.ofList_inj, t.rewritten_eq_iff]

/-- For one with logarithms in the argument of a function and beside it. -/
theorem canonicalize_logarithms_call :
    ∃ t : Term, t.text = "2*sin(log_2(x) + 1) - log_10 (y)".toList ∧ plainDerivatives t.text = t.text ∧ t.nested = 0 ∧
      canonicalize "2*sin(log_2(x) + 1) - log_10 (y)" = "2*sin(log(x, 2) + 1) - log(y, 10)" := by
  let blank : Term.Blanks := ⟨[' '], by decide⟩
  let sine : Term.Name := ⟨"sin".toList, by decide +kernel, by decide +kernel⟩
  let x : Term := .name ⟨['x'], by decide +kernel, by decide +kernel⟩
  let y : Term := .name ⟨['y'], by decide +kernel, by decide +kernel⟩
  let sum : Term := .binary (.spaced ⟨[], rfl⟩ (.logarithm ⟨['2'], by decide, by decide⟩ ⟨[], rfl⟩ x) blank) .add
    (.spaced blank (.number ⟨['1'], by decide +kernel⟩) ⟨[], rfl⟩)
  let product : Term := .binary (.number ⟨['2'], by decide +kernel⟩) .mul (.call sine ⟨[], rfl⟩ sum)
  let t : Term := .binary (.spaced ⟨[], rfl⟩ product blank) .sub
    (.spaced blank (.logarithm ⟨['1', '0'], by decide, by decide⟩ blank y) ⟨[], rfl⟩)
  have htext : t.text = "2*sin(log_2(x) + 1) - log_10 (y)".toList := by decide +kernel
  have derivatives : plainDerivatives t.text = t.text := by
    rw [htext]
    decide +kernel
  refine ⟨t, htext, derivatives, rfl, ?_⟩
  have hcanonical := (canonicalize_logarithms t derivatives).2.mpr rfl
  rw [htext] at hcanonical
  exact hcanonical.trans (by decide +kernel)

/-- A logarithm in the argument of another one is left as it stands. -/
theorem canonicalize_inner : canonicalize "log_2(log_3(x))" = "log(log_3(x), 2)" ∧
    ¬ ∀ t : Term, plainDerivatives t.text = t.text →
      canonicalize (String.ofList t.text) = String.ofList (t.rewritten true) := by
  refine ⟨by decide +kernel, fun deep => ?_⟩
  have inner := deep (.logarithm ⟨['2'], by decide, by decide⟩ ⟨[], rfl⟩ (.logarithm ⟨['3'], by decide, by decide⟩ ⟨[], rfl⟩
    (.name ⟨['x'], by decide +kernel, by decide +kernel⟩))) (by decide +kernel)
  revert inner
  decide +kernel

end OdeSystem.Notation
