import Mathlib.Data.List.Forall2
import OdeSystem.Logged

/-!
Laws of computations that may fail, one after another and along a list. The result of one that reports events is the
result of the same one without them, so it is enough to follow the results.
-/

namespace OdeSystem

variable {ε α β : Type}

/-! ### One computation after another -/

theorem bind_eq_ok {result : Except ε α} {f : α → Except ε β} {b : β} :
    result.bind f = .ok b ↔ ∃ a, result = .ok a ∧ f a = .ok b := by
  cases result with
  | error e => simp [Except.bind]
  | ok a => simp [Except.bind]

theorem bind_eq_error {result : Except ε α} {f : α → Except ε β} {e : ε} :
    result.bind f = .error e ↔ result = .error e ∨ ∃ a, result = .ok a ∧ f a = .error e := by
  cases result with
  | error e => simp [Except.bind]
  | ok a => simp [Except.bind]

theorem Logged.bind_eq_ok {x : Logged ε α} {f : α → Logged ε β} {b : β} :
    (x >>= f).result = .ok b ↔ ∃ a, x.result = .ok a ∧ (f a).result = .ok b := by
  rw [Logged.result_bind, OdeSystem.bind_eq_ok]

theorem Logged.bind_eq_error {x : Logged ε α} {f : α → Logged ε β} {e : ε} :
    (x >>= f).result = .error e ↔ x.result = .error e ∨ ∃ a, x.result = .ok a ∧ (f a).result = .error e := by
  rw [Logged.result_bind, OdeSystem.bind_eq_error]

theorem Logged.bind_assoc {γ : Type} (x : Logged ε α) (f : α → Logged ε β) (g : β → Logged ε γ) :
    x >>= f >>= g = x >>= fun a => f a >>= g := by
  obtain ⟨events, result⟩ := x
  cases result with
  | error e => rfl
  | ok a =>
    show Logged.mk (events ++ (f a).events) (f a).result >>= g = ⟨events ++ (f a >>= g).events, (f a >>= g).result⟩
    generalize f a = y
    obtain ⟨later, result⟩ := y
    cases result with
    | error e => rfl
    | ok b =>
      show Logged.mk (events ++ later ++ (g b).events) (g b).result = ⟨events ++ (later ++ (g b).events), (g b).result⟩
      rw [List.append_assoc]

/-- How a computation goes on matters only for what it can go on from. -/
theorem Logged.bind_congr {x : Logged ε α} {f g : α → Logged ε β} (h : ∀ a, x.result = .ok a → f a = g a) :
    x >>= f = x >>= g := by
  obtain ⟨events, result⟩ := x
  cases result with
  | error e => rfl
  | ok a =>
    show Logged.mk (events ++ (f a).events) (f a).result = Logged.mk (events ++ (g a).events) (g a).result
    rw [h a rfl]

theorem exists_of_map_eq_ok {f : α → β} {result : Except ε α} {b : β} (h : result.map f = .ok b) :
    ∃ a, result = .ok a ∧ f a = b := by
  cases result with
  | error e => cases h
  | ok a => exact ⟨a, rfl, Except.ok.inj h⟩

theorem map_eq_error {f : α → β} {result : Except ε α} {e : ε} (h : result.map f = .error e) :
    result = .error e := by
  cases result with
  | error e' => exact congrArg _ (Except.error.inj h)
  | ok a => cases h

theorem mapError_eq_ok {ε' : Type} {f : ε → ε'} {result : Except ε α} {a : α} :
    result.mapError f = .ok a ↔ result = .ok a := by
  cases result with
  | error e => exact iff_of_false nofun nofun
  | ok b => rw [Except.mapError, Except.ok.injEq, Except.ok.injEq]

theorem exists_ok_of_any {result : Except ε α} {p : α → Bool} (h : result.toOption.any p = true) :
    ∃ a, result = .ok a ∧ p a = true := by
  cases result with
  | error e => cases h
  | ok a => exact ⟨a, rfl, h⟩

theorem exists_error_of_isNone {result : Except ε α} (h : result.toOption.isNone = true) : ∃ e, result = .error e := by
  cases result with
  | error e => exact ⟨e, rfl⟩
  | ok a => cases h

/-! ### Going through a list -/

theorem Logged.result_foldlM (step : β → α → Logged ε β) (xs : List α) (start : β) :
    (xs.foldlM step start).result = xs.foldlM (fun b a => (step b a).result) start := by
  induction xs generalizing start with
  | nil => rfl
  | cons x xs ih =>
    simp only [List.foldlM_cons, Logged.result_bind, ih]
    rfl

theorem foldlM_cons_eq_ok {step : β → α → Except ε β} {x : α} {xs : List α} {start last : β} :
    (x :: xs).foldlM step start = .ok last ↔ ∃ next, step start x = .ok next ∧ xs.foldlM step next = .ok last := by
  rw [List.foldlM_cons]
  exact bind_eq_ok

theorem foldlM_append_eq_ok {step : β → α → Except ε β} {xs ys : List α} {start last : β} :
    (xs ++ ys).foldlM step start = .ok last ↔
      ∃ next, xs.foldlM step start = .ok next ∧ ys.foldlM step next = .ok last := by
  rw [List.foldlM_append]
  exact bind_eq_ok

/-- A pass over a list fails at one of its members, behind others that went well. -/
theorem foldlM_eq_error {step : β → α → Except ε β} {xs : List α} {start : β} {e : ε} :
    xs.foldlM step start = .error e ↔
      ∃ earlier x later middle, xs = earlier ++ x :: later ∧ earlier.foldlM step start = .ok middle ∧
        step middle x = .error e := by
  constructor
  · intro h
    induction xs generalizing start with
    | nil => cases h
    | cons x xs ih =>
      rw [List.foldlM_cons] at h
      rcases bind_eq_error.mp h with hx | ⟨next, hx, hrest⟩
      · exact ⟨[], x, xs, start, rfl, rfl, hx⟩
      · obtain ⟨earlier, y, later, middle, rfl, hearlier, hy⟩ := ih hrest
        exact ⟨x :: earlier, y, later, middle, rfl, foldlM_cons_eq_ok.mpr ⟨next, hx, hearlier⟩, hy⟩
  · rintro ⟨earlier, x, later, middle, rfl, hearlier, hx⟩
    rw [List.foldlM_append, hearlier]
    show (x :: later).foldlM step middle = .error e
    rw [List.foldlM_cons]
    exact bind_eq_error.mpr (.inl hx)

/-- A property that every step keeps is one of the end. -/
theorem foldlM_keeps {step : β → α → Except ε β} (keeps : β → Prop) {xs : List α} {start last : β}
    (effect : ∀ b, keeps b → ∀ x ∈ xs, ∀ next, step b x = .ok next → keeps next) (first : keeps start)
    (h : xs.foldlM step start = .ok last) : keeps last := by
  induction xs generalizing start with
  | nil =>
    cases h
    exact first
  | cons x xs ih =>
    obtain ⟨next, hx, hrest⟩ := foldlM_cons_eq_ok.mp h
    refine ih (fun b hb y hy => effect b hb y (List.mem_cons_of_mem _ hy)) ?_ hrest
    exact effect start first x (List.mem_cons_self ..) next hx

/-- Steps that succeed one after the other also do so the other way round, and come to the same. -/
def Swaps (step : β → α → Except ε β) : Prop :=
  ∀ ⦃b b₁ b₂ x y⦄, step b x = .ok b₁ → step b₁ y = .ok b₂ → ∃ b₁', step b y = .ok b₁' ∧ step b₁' x = .ok b₂

/-- A list of steps that swap can be gone through in any order. -/
theorem foldlM_perm {step : β → α → Except ε β} (swaps : Swaps step) {xs ys : List α} (perm : xs.Perm ys)
    {start last : β} (h : xs.foldlM step start = .ok last) : ys.foldlM step start = .ok last := by
  induction perm generalizing start with
  | nil => exact h
  | cons x _ ih =>
    obtain ⟨next, hx, hrest⟩ := foldlM_cons_eq_ok.mp h
    exact foldlM_cons_eq_ok.mpr ⟨next, hx, ih hrest⟩
  | swap x y xs =>
    obtain ⟨first, hy, h⟩ := foldlM_cons_eq_ok.mp h
    obtain ⟨second, hx, hrest⟩ := foldlM_cons_eq_ok.mp h
    obtain ⟨first', hx', hy'⟩ := swaps hy hx
    exact foldlM_cons_eq_ok.mpr ⟨first', hx', foldlM_cons_eq_ok.mpr ⟨second, hy', hrest⟩⟩
  | trans _ _ ih ih' => exact ih' (ih h)

theorem mapM_congr {f g : α → Except ε β} {xs : List α} (h : ∀ x ∈ xs, f x = g x) : xs.mapM f = xs.mapM g := by
  induction xs with
  | nil => rfl
  | cons x xs ih =>
    rw [List.mapM_cons, List.mapM_cons, h x (List.mem_cons_self ..),
      ih fun y hy => h y (List.mem_cons_of_mem _ hy)]

/-- A pass over a list gives what each of its members gives. -/
theorem mapM_eq_ok {f : α → Except ε β} {xs : List α} {ys : List β} :
    xs.mapM f = .ok ys ↔ List.Forall₂ (fun x y => f x = .ok y) xs ys := by
  induction xs generalizing ys with
  | nil =>
    rw [List.forall₂_nil_left_iff]
    constructor
    · intro h
      cases h
      rfl
    · rintro rfl
      rfl
  | cons x xs ih =>
    rw [List.mapM_cons, List.forall₂_cons_left_iff]
    constructor
    · intro h
      obtain ⟨y, hy, h⟩ := bind_eq_ok.mp h
      obtain ⟨rest, hrest, h⟩ := bind_eq_ok.mp h
      cases h
      exact ⟨y, rest, hy, ih.mp hrest, rfl⟩
    · rintro ⟨y, rest, hy, hrest, rfl⟩
      exact bind_eq_ok.mpr ⟨y, hy, bind_eq_ok.mpr ⟨rest, ih.mpr hrest, rfl⟩⟩

/-- What a step leaves as it is can be read off its results. -/
theorem map_of_mapM_eq_ok {γ : Type} {f : α → Except ε β} {before : α → γ} {behind : β → γ} {xs : List α}
    {ys : List β} (same : ∀ x y, f x = .ok y → behind y = before x) (h : xs.mapM f = .ok ys) :
    ys.map behind = xs.map before := by
  replace h := mapM_eq_ok.mp h
  induction h with
  | nil => rfl
  | cons hx _ ih => rw [List.map_cons, List.map_cons, same _ _ hx, ih]

theorem exists_of_mapM_eq_error {f : α → Except ε β} {xs : List α} {e : ε} (h : xs.mapM f = .error e) :
    ∃ x ∈ xs, f x = .error e := by
  induction xs with
  | nil => cases h
  | cons x xs ih =>
    rw [List.mapM_cons] at h
    rcases bind_eq_error.mp h with hx | ⟨y, -, h⟩
    · exact ⟨x, List.mem_cons_self .., hx⟩
    · rcases bind_eq_error.mp h with hxs | ⟨ys, -, h⟩
      · obtain ⟨x', hx', herror⟩ := ih hxs
        exact ⟨x', List.mem_cons_of_mem _ hx', herror⟩
      · cases h

theorem exists_of_mem_mapM {f : α → Except ε β} {xs : List α} {ys : List β} (h : xs.mapM f = .ok ys) {y : β}
    (hy : y ∈ ys) : ∃ x ∈ xs, f x = .ok y := by
  replace h := mapM_eq_ok.mp h
  induction h with
  | nil => cases hy
  | @cons x first xs rest hx _ ih =>
    rcases List.mem_cons.mp hy with rfl | hy
    · exact ⟨x, List.mem_cons_self .., hx⟩
    · obtain ⟨x', hx', hfound⟩ := ih hy
      exact ⟨x', List.mem_cons_of_mem _ hx', hfound⟩

theorem exists_mem_of_mapM {f : α → Except ε β} {xs : List α} {ys : List β} (h : xs.mapM f = .ok ys) {x : α}
    (hx : x ∈ xs) : ∃ y ∈ ys, f x = .ok y := by
  replace h := mapM_eq_ok.mp h
  induction h with
  | nil => cases hx
  | @cons first y xs rest hfirst _ ih =>
    rcases List.mem_cons.mp hx with rfl | hx
    · exact ⟨y, List.mem_cons_self .., hfirst⟩
    · obtain ⟨y', hy', hfound⟩ := ih hx
      exact ⟨y', List.mem_cons_of_mem _ hy', hfound⟩

/-! ### Two computations side by side -/

/-- Results that match: two values, or two errors, related as given. -/
inductive Matched {ε' α' : Type} (errors : ε → ε' → Prop) (values : α → α' → Prop) : Except ε α → Except ε' α' → Prop
  | ok {a : α} {a' : α'} (h : values a a') : Matched errors values (.ok a) (.ok a')
  | error {e : ε} {e' : ε'} (h : errors e e') : Matched errors values (.error e) (.error e')

namespace Matched
variable {ε' α' β' : Type} {errors : ε → ε' → Prop} {values : α → α' → Prop} {values' : β → β' → Prop}

theorem bind {result : Except ε α} {result' : Except ε' α'} {f : α → Except ε β} {f' : α' → Except ε' β'}
    (h : Matched errors values result result')
    (next : ∀ a a', values a a' → Matched errors values' (f a) (f' a')) :
    Matched errors values' (result.bind f) (result'.bind f') := by
  cases h with
  | ok h => exact next _ _ h
  | error h => exact .error h

theorem ok_or_error {result : Except ε α} {result' : Except ε' α'} (h : Matched errors values result result') :
    (∃ a a', result = .ok a ∧ result' = .ok a' ∧ values a a') ∨
      ∃ e e', result = .error e ∧ result' = .error e' ∧ errors e e' := by
  cases h with
  | ok h => exact .inl ⟨_, _, rfl, rfl, h⟩
  | error h => exact .inr ⟨_, _, rfl, rfl, h⟩

theorem map {result : Except ε α} {result' : Except ε' α'} {f : α → β} {f' : α' → β'}
    (h : Matched errors values result result') (hf : ∀ a a', values a a' → values' (f a) (f' a')) :
    Matched errors values' (result.map f) (result'.map f') := by
  cases h with
  | ok h => exact .ok (hf _ _ h)
  | error h => exact .error h

/-- What is known of the first value can be used for the relation. -/
theorem imp_ok {strengthened : α → α' → Prop} {result : Except ε α} {result' : Except ε' α'}
    (h : Matched errors values result result')
    (himp : ∀ a a', result = .ok a → values a a' → strengthened a a') :
    Matched errors strengthened result result' := by
  cases h with
  | ok h => exact .ok (himp _ _ rfl h)
  | error h => exact .error h

/-- Going through two lists side by side, with steps that match, ends in results that match. -/
theorem foldlM {step : β → α → Except ε β} {step' : β' → α' → Except ε' β'} {xs : List α} {xs' : List α'}
    (hxs : List.Forall₂ values xs xs')
    (hstep : ∀ b b', values' b b' → ∀ x x', values x x' → Matched errors values' (step b x) (step' b' x'))
    {start : β} {start' : β'} (hstart : values' start start') :
    Matched errors values' (xs.foldlM step start) (xs'.foldlM step' start') := by
  induction hxs generalizing start start' with
  | nil => exact .ok hstart
  | cons hx _ ih =>
    rw [List.foldlM_cons, List.foldlM_cons]
    exact (hstep _ _ hstart _ _ hx).bind fun _ _ => ih

end Matched

end OdeSystem
