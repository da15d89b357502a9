import OdeSystem.Number.Layout
import OdeSystem.Proofs.Number.Finite

/-!
Texts of numbers that are no integers. A point or an exponent behind digits makes them no integer, whatever follows, and
so do too many digits. The text of a finite number in a formula has a point.
-/

namespace OdeSystem.Number

open Text

variable {ds more : List Char} {c : Char}

/-! ### Integers -/

theorem integer?_of_head (h : isAsciiDigit c = false) : integer? (c :: more) = none := by
  unfold integer?
  split
  · rename_i heq
    rw [(List.cons.inj heq).1] at h
    cases h
  · simp [isDigits, h]

/-- Only a first zero with an `x` behind it may begin an integer with other characters than digits. -/
theorem eq_of_hex {rest : List Char} (hds : ∀ d ∈ ds, isAsciiDigit d = true) (h : ds ++ more = '0' :: 'x' :: rest) :
    ds = [] ∨ ds = ['0'] ∧ more = 'x' :: rest := by
  rcases ds with _ | ⟨d, _ | ⟨d', ds⟩⟩
  · exact .inl rfl
  · obtain ⟨rfl, hmore⟩ := List.cons.inj h
    exact .inr ⟨rfl, hmore⟩
  · obtain ⟨-, h⟩ := List.cons.inj h
    have hx := hds d' (by simp)
    rw [(List.cons.inj h).1] at hx
    cases hx

/-- Digits with another character behind them are no integer. -/
theorem integer?_of_mem (hds : ∀ d ∈ ds, isAsciiDigit d = true) (hc : isAsciiDigit c = false) (hx : c ≠ 'x') :
    integer? (ds ++ c :: more) = none := by
  unfold integer?
  split
  · rename_i rest heq
    rcases eq_of_hex hds heq with rfl | ⟨rfl, hmore⟩
    · rw [(List.cons.inj heq).1] at hc
      cases hc
    · exact absurd (List.cons.inj hmore).1 hx
  · simp [isDigits, hc]

theorem ofDigits_le_append (ds more : List Char) : ofDigits ds ≤ ofDigits (ds ++ more) := by
  have hfold (n : Nat) : n ≤ more.foldl (fun n d => 10 * n + (d.toNat - '0'.toNat)) n := by
    induction more generalizing n with
    | nil => exact le_rfl
    | cons d more ih => exact le_trans (show n ≤ 10 * n + _ by omega) (ih _)
  rw [ofDigits, ofDigits, List.foldl_append]
  exact hfold _

/-- Too many digits are no integer, even with further characters behind them. -/
theorem integer?_of_le (hds : ∀ d ∈ ds, isAsciiDigit d = true) (h : 2 ^ 64 ≤ ofDigits ds) :
    integer? (ds ++ more) = none := by
  unfold integer?
  split
  · rename_i rest heq
    rcases eq_of_hex hds heq with rfl | ⟨rfl, -⟩ <;> exact absurd h (by decide)
  · split
    · have hle := h.trans (ofDigits_le_append ds more)
      have hfits : fits (ofDigits (ds ++ more)) = false := by
        refine Bool.and_eq_false_iff.mpr (.inr (decide_eq_false ?_))
        unfold greatestInteger
        omega
      rw [Option.bind_some, hfits]
      rfl
    · rfl

/-! ### Floats in formulas -/

theorem isAsciiDigit_of_mem_digits {n : Nat} (h : c ∈ digits n) : isAsciiDigit c = true := by
  have hdigit := Nat.isDigit_of_mem_toDigits (by decide) (by decide) h
  simp only [Char.isDigit, ge_iff_le, Bool.and_eq_true, decide_eq_true_eq] at hdigit
  simp only [isAsciiDigit, Bool.and_eq_true, decide_eq_true_eq]
  exact hdigit

theorem isAsciiDigit_of_mem_zeros {n : Nat} (h : c ∈ zeros n) : isAsciiDigit c = true :=
  (List.eq_of_mem_replicate h) ▸ rfl

theorem isAsciiDigit_of_mem_zero : ∀ d ∈ ['0'], isAsciiDigit d = true := List.forall_mem_singleton.mpr rfl

/-- Whether a text is digits with a point among them. -/
def IsPointed (text : List Char) : Prop :=
  ∃ whole fraction, text = whole ++ '.' :: fraction ∧ (∀ d ∈ whole, isAsciiDigit d = true) ∧
    ∀ d ∈ fraction, isAsciiDigit d = true

theorem isPointed_positional (d : Decimal) : IsPointed (positional true d) := by
  have hdigits {c : Char} (hc : c ∈ digits d.significand) : isAsciiDigit c = true := isAsciiDigit_of_mem_digits hc
  unfold positional
  dsimp only
  split
  · refine ⟨['0'], _, rfl, isAsciiDigit_of_mem_zero, fun c hc => ?_⟩
    rcases List.mem_append.mp hc with hc | hc
    · exact isAsciiDigit_of_mem_zeros hc
    · exact hdigits hc
  · split
    · exact ⟨_, _, rfl, fun c hc => hdigits (List.mem_of_mem_take hc), fun c hc => hdigits (List.mem_of_mem_drop hc)⟩
    · refine ⟨_, ['0'], rfl, fun c hc => ?_, isAsciiDigit_of_mem_zero⟩
      rcases List.mem_append.mp hc with hc | hc
      · exact hdigits hc
      · exact isAsciiDigit_of_mem_zeros hc

/-- The text of a finite number in a formula has a point. -/
theorem exists_literal {x : Float} (h : isFinite x = true) :
    ∃ sign text, (sign = [] ∨ sign = ['-']) ∧ IsPointed text ∧ (Layout.literal.text x).toList = sign ++ text := by
  unfold isFinite at h
  unfold Layout.text
  cases hquantity : quantity x with
  | nan => simp [hquantity] at h
  | infinite negative => simp [hquantity] at h
  | finite negative coefficient exponent =>
    refine ⟨if negative then ['-'] else [], Layout.literal.magnitude coefficient exponent, ?_, ?_, String.toList_ofList⟩
    · cases negative
      · exact .inl rfl
      · exact .inr rfl
    · unfold Layout.magnitude
      split
      · exact ⟨['0'], ['0'], rfl, isAsciiDigit_of_mem_zero, isAsciiDigit_of_mem_zero⟩
      · exact isPointed_positional _

end OdeSystem.Number
