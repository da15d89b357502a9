import Mathlib.Algebra.Order.Group.Int
import Mathlib.Data.Int.Order.Basic
import Mathlib.Data.Nat.Log
import Mathlib.Tactic.Ring
import OdeSystem.Number.Binary64

/-!
Rounding to 53 binary digits. What needs no more digits is never passed over: a number between two such numbers is
rounded to one between them. And what is lost is less than the result by a factor of two to the power 53.
-/

namespace OdeSystem.Number

variable {n y unit : Nat}

theorem roundDiv_cases (n unit : Nat) :
    (roundDiv n unit = n / unit ∧ 2 * (n % unit) ≤ unit) ∨
      (roundDiv n unit = n / unit + 1 ∧ unit ≤ 2 * (n % unit)) := by
  unfold roundDiv
  dsimp only
  split
  · exact .inl ⟨rfl, by omega⟩
  · split
    · exact .inr ⟨rfl, by omega⟩
    · rcases Nat.mod_two_eq_zero_or_one (n / unit) with even | odd
      · exact .inl ⟨by omega, by omega⟩
      · exact .inr ⟨by omega, by omega⟩

theorem roundDiv_mul_le (n unit : Nat) : 2 * (roundDiv n unit * unit) ≤ 2 * n + unit := by
  have hn := Nat.div_add_mod' n unit
  rcases roundDiv_cases n unit with ⟨h, -⟩ | ⟨h, hhalf⟩
  · rw [h]
    omega
  · rw [h, Nat.add_mul]
    omega

theorem le_roundDiv_mul (n : Nat) (hunit : 0 < unit) : 2 * n ≤ 2 * (roundDiv n unit * unit) + unit := by
  have hn := Nat.div_add_mod' n unit
  have hmod := Nat.mod_lt n hunit
  rcases roundDiv_cases n unit with ⟨h, hhalf⟩ | ⟨h, -⟩
  · rw [h]
    omega
  · rw [h, Nat.add_mul]
    omega

theorem le_roundDiv {c : Nat} (hunit : 0 < unit) (h : c * unit ≤ n) : c ≤ roundDiv n unit := by
  have hc : c ≤ n / unit := (Nat.le_div_iff_mul_le hunit).mpr h
  rcases roundDiv_cases n unit with ⟨hround, -⟩ | ⟨hround, -⟩ <;> omega

theorem roundDiv_le {c : Nat} (hunit : 0 < unit) (h : n ≤ c * unit) : roundDiv n unit ≤ c := by
  have hn := Nat.div_add_mod' n unit
  have hc : n / unit ≤ c := Nat.div_le_of_le_mul (Nat.mul_comm unit c ▸ h)
  rcases roundDiv_cases n unit with ⟨hround, -⟩ | ⟨hround, hhalf⟩
  · omega
  · -- Rounded up, so the number is not a multiple of the unit.
    have hne : n / unit ≠ c := by
      rintro rfl
      omega
    omega

theorem roundDiv_of_dvd (hunit : 0 < unit) (c : Nat) : roundDiv (c * unit) unit = c :=
  Nat.le_antisymm (roundDiv_le hunit (Nat.le_refl _)) (le_roundDiv hunit (Nat.le_refl _))

/-- A common factor does not matter. -/
theorem roundDiv_mul_right {factor : Nat} (hfactor : 0 < factor) :
    roundDiv (n * factor) (unit * factor) = roundDiv n unit := by
  have hlt : 2 * (n % unit * factor) < unit * factor ↔ 2 * (n % unit) < unit := by
    rw [← Nat.mul_assoc, Nat.mul_lt_mul_right hfactor]
  have hgt : unit * factor < 2 * (n % unit * factor) ↔ unit < 2 * (n % unit) := by
    rw [← Nat.mul_assoc, Nat.mul_lt_mul_right hfactor]
  unfold roundDiv
  simp only [Nat.mul_mod_mul_right, Nat.mul_div_mul_right _ _ hfactor, hlt, hgt]

/-! ### 53 digits -/

/-- The unit in which a number has 53 digits, or one if it has less. -/
def lastPlace (n : Nat) : Nat := 2 ^ (n.log2 - 52)

/-- A whole number rounded to 53 digits. -/
def nearest (n : Nat) : Nat := roundDiv n (lastPlace n) * lastPlace n

/-- A number that needs no more than 53 digits. -/
def Fits (n : Nat) : Prop := ∃ coefficient exponent, coefficient < 2 ^ 53 ∧ n = coefficient * 2 ^ exponent

theorem lastPlace_pos (n : Nat) : 0 < lastPlace n := Nat.two_pow_pos _

theorem lt_lastPlace (n : Nat) : n < 2 ^ 53 * lastPlace n := by
  rw [lastPlace, ← Nat.pow_add]
  exact Nat.lt_of_lt_of_le Nat.lt_log2_self (Nat.pow_le_pow_right (by omega) (by omega))

/-- A number that has more than 53 digits. -/
theorem lastPlace_le (h : lastPlace n ≠ 1) : 2 ^ 52 * lastPlace n ≤ n := by
  have hlog : 52 < n.log2 := by
    by_contra hle
    exact h (by rw [lastPlace, Nat.sub_eq_zero_of_le (by omega)]; rfl)
  rw [lastPlace, ← Nat.pow_add, Nat.add_sub_cancel' (by omega)]
  exact Nat.log2_self_le (by rintro rfl; simp at hlog)

/-- A number that fits is a multiple of the unit of any number, or below all those that have 53 digits in it. -/
theorem Fits.cases (h : Fits y) (n : Nat) :
    (∃ c, y = c * lastPlace n) ∨ (lastPlace n ≠ 1 ∧ y < 2 ^ 52 * lastPlace n) := by
  obtain ⟨m, j, hm, rfl⟩ := h
  by_cases hj : n.log2 - 52 ≤ j
  · exact .inl ⟨m * 2 ^ (j - (n.log2 - 52)), by rw [lastPlace, Nat.mul_assoc, ← Nat.pow_add, Nat.sub_add_cancel hj]⟩
  · refine .inr ⟨?_, ?_⟩
    · rw [lastPlace]
      exact (Nat.one_lt_two_pow (by omega)).ne'
    · calc m * 2 ^ j < 2 ^ 53 * 2 ^ j := Nat.mul_lt_mul_of_pos_right hm (Nat.two_pow_pos j)
        _ = 2 ^ 52 * 2 ^ (j + 1) := by rw [Nat.pow_succ 2 j]; ring
        _ ≤ 2 ^ 52 * lastPlace n := Nat.mul_le_mul_left _ (Nat.pow_le_pow_right (by omega) (by omega))

theorem Fits.le_nearest (h : Fits y) (hle : y ≤ n) : y ≤ nearest n := by
  rcases h.cases n with ⟨c, rfl⟩ | ⟨hplace, hlt⟩
  · exact Nat.mul_le_mul_right _ (le_roundDiv (lastPlace_pos n) hle)
  · exact hlt.le.trans (Nat.mul_le_mul_right _ (le_roundDiv (lastPlace_pos n) (lastPlace_le hplace)))

theorem Fits.nearest_le (h : Fits y) (hle : n ≤ y) : nearest n ≤ y := by
  rcases h.cases n with ⟨c, rfl⟩ | ⟨hplace, hlt⟩
  · exact Nat.mul_le_mul_right _ (roundDiv_le (lastPlace_pos n) hle)
  · have := lastPlace_le hplace
    omega

theorem Fits.nearest_eq (h : Fits n) : nearest n = n := Nat.le_antisymm (h.nearest_le le_rfl) (h.le_nearest le_rfl)

/-- What rounding adds or takes away is small in comparison with the result. -/
theorem nearest_error (n : Nat) : 2 ^ 53 * (nearest n - n) ≤ nearest n ∧ 2 ^ 53 * (n - nearest n) ≤ nearest n := by
  have hupper := roundDiv_mul_le n (lastPlace n)
  have hlower := le_roundDiv_mul n (lastPlace_pos n)
  by_cases hplace : lastPlace n = 1
  · have hexact : nearest n = n := by
      rw [nearest, hplace, Nat.mul_one]
      simpa using roundDiv_of_dvd Nat.one_pos n
    rw [hexact]
    omega
  · have hfull : 2 ^ 52 * lastPlace n ≤ nearest n :=
      Nat.mul_le_mul_right _ (le_roundDiv (lastPlace_pos n) (lastPlace_le hplace))
    rw [← nearest] at hupper hlower
    omega

/-! ### Numbers with a sign -/

/-- An integer rounded to 53 digits. -/
def nearestInt (z : Int) : Int := if z < 0 then -(nearest z.natAbs : Int) else nearest z.natAbs

/-- An integer that fits stays below a number above it, also when that is rounded. -/
theorem le_nearestInt {x z : Int} (h : Fits x.natAbs) (hle : x ≤ z) : x ≤ nearestInt z := by
  unfold nearestInt
  split
  · have := h.nearest_le (n := z.natAbs) (by omega)
    omega
  · by_cases hx : x < 0
    · omega
    · have := h.le_nearest (n := z.natAbs) (by omega)
      omega

/-- A step forward that is not lost against the number it starts from leads forward when it is rounded, too. -/
theorem lt_nearestInt {x d : Int} (h : Fits x.natAbs) (hd : 0 < d) (hlt : |x| < 2 ^ 53 * d) : x < nearestInt (x + d) := by
  have hle : x ≤ nearestInt (x + d) := le_nearestInt h (by omega)
  refine lt_of_le_of_ne hle fun heq => ?_
  obtain ⟨hup, hdown⟩ := nearest_error (x + d).natAbs
  rw [Int.abs_eq_natAbs] at hlt
  unfold nearestInt at heq
  split at heq <;> omega

end OdeSystem.Number
