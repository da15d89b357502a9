import OdeSystem.Number.Numeral
import OdeSystem.Proofs.Number.Sum

/-!
Doubles for integers. A number is finite unless its bits for the exponent are all set, and an integer of 64 bits needs
an exponent far below that, even where it is rounded. So digits that stand for such an integer read as a finite number.
-/

namespace OdeSystem.Number

open Float.Model (Format UnpackedFloat)
open Float.Model.UnpackedFloat

theorem isFinite_of_quantity {x : Float} {negative : Bool} {c : Nat} {e : Int} (h : quantity x = .finite negative c e) :
    isFinite x = true := by
  rw [isFinite, h]

/-- Bits with an exponent that is not all set stand for a finite number. -/
theorem isFinite_ofBits {bits : UInt64} (h : bits.toNat / 2 ^ 52 % 2048 ≠ 2047) : isFinite (Float.ofBits bits) = true := by
  have hquantity : quantity (Float.ofBits bits) =
      .ofUnpacked (Float.Model.pack (UnpackedFloat.unpack Format.binary64 bits.toBitVec)).unpack := quantity_eq _
  have hunpack := ofUnpacked_unpack bits.toBitVec
  have hexponent : (@unpackExponent Format.binary64 bits.toBitVec).toNat ≠ 2047 := by
    rw [toNat_unpackExponent]
    exact h
  rw [if_neg hexponent] at hunpack
  cases hu : UnpackedFloat.unpack Format.binary64 bits.toBitVec with
  | notANumber =>
    rw [hu] at hunpack
    split at hunpack <;> cases hunpack
  | infinity sign =>
    rw [hu] at hunpack
    split at hunpack <;> cases hunpack
  | zero sign =>
    rw [hu, unpack_pack_zero] at hquantity
    exact isFinite_of_quantity hquantity
  | finite sign c e hc =>
    have hmantissa : (@unpackMantissa Format.binary64 bits.toBitVec).toNat < 2 ^ 52 := BitVec.isLt _
    have hlt : (@unpackExponent Format.binary64 bits.toBitVec).toNat < 2 ^ 11 := BitVec.isLt _
    have hcanonical : Canonical c e ∧ e ≤ 971 := by
      rw [hu] at hunpack
      change Quantity.finite (sign == .negative) c e = _ at hunpack
      split at hunpack
      · obtain ⟨-, rfl, rfl⟩ := Quantity.finite.inj hunpack
        exact ⟨⟨Nat.lt_of_lt_of_le hmantissa (by decide), le_rfl, fun hne => absurd rfl hne⟩, by decide⟩
      · obtain ⟨-, rfl, rfl⟩ := Quantity.finite.inj hunpack
        exact ⟨⟨by omega, by simp only [leastExponent]; omega, fun _ => Nat.le_add_right _ _⟩, by omega⟩
    rw [hu, ofUnpacked_unpack_pack sign hc hcanonical.1 hcanonical.2] at hquantity
    exact isFinite_of_quantity hquantity

theorem isFinite_assemble {negative : Bool} {biased fraction : Nat} (h : biased * 2 ^ 52 + fraction < 2047 * 2 ^ 52) :
    isFinite (assemble negative biased fraction) = true := by
  refine isFinite_ofBits ?_
  rw [UInt64.toNat_ofNat']
  simp only [pow2, Nat.pow_eq]
  cases negative <;> simp only [Bool.false_eq_true, if_false, if_true] <;> omega

/-- The coefficient of a whole number that is rounded has at most 54 bits, and its exponent is small. -/
theorem fittingExponent_one {n : Nat} (hn : n < 2 ^ 64) :
    fittingExponent n 1 ≤ 11 ∧ (inUnits n 1 (fittingExponent n 1)).1 ≤
      2 ^ 54 * (inUnits n 1 (fittingExponent n 1)).2 ∧ 0 < (inUnits n 1 (fittingExponent n 1)).2 := by
  have hlog : n.log2 < 64 := by
    rcases Nat.eq_zero_or_pos n with rfl | hpos
    · decide
    · exact (Nat.log2_lt hpos.ne').mpr hn
  have hlt : n < 2 ^ (n.log2 + 1) := Nat.lt_log2_self
  have hexponent : (n.log2 : Int) - 53 ≤ fittingExponent n 1 ∧ fittingExponent n 1 ≤ n.log2 - 52 := by
    have hone : Nat.log2 1 = 0 := rfl
    unfold fittingExponent
    simp only [leastExponent, hone]
    split <;> omega
  obtain ⟨hlow, hhigh⟩ := hexponent
  generalize fittingExponent n 1 = e at hlow hhigh
  refine ⟨by omega, ?_, ?_⟩
  · simp only [inUnits, pow2, Nat.pow_eq, one_mul]
    rcases Int.le_total 0 e with he | he
    · rw [show (-e).toNat = 0 by omega, pow_zero, mul_one, ← pow_add]
      exact hlt.le.trans (Nat.pow_le_pow_right (by decide) (by omega))
    · rw [show e.toNat = 0 by omega, pow_zero, mul_one]
      calc n * 2 ^ (-e).toNat
        _ ≤ 2 ^ (n.log2 + 1) * 2 ^ (-e).toNat := Nat.mul_le_mul_right _ hlt.le
        _ = 2 ^ (n.log2 + 1 + (-e).toNat) := (pow_add ..).symm
        _ ≤ 2 ^ 54 := Nat.pow_le_pow_right (by decide) (by omega)
  · simp only [inUnits, pow2, Nat.pow_eq, one_mul]
    exact Nat.two_pow_pos _

theorem isFinite_ofRatio_one {negative : Bool} {n : Nat} (hn : n < 2 ^ 64) : isFinite (ofRatio negative n 1) = true := by
  obtain ⟨hexponent, hle, hpos⟩ := fittingExponent_one hn
  have hrounded := roundDiv_le hpos hle
  unfold ofRatio
  split
  · exact isFinite_assemble (by decide)
  · dsimp only
    generalize roundDiv _ _ = rounded at hrounded
    generalize fittingExponent n 1 = e at hexponent
    -- A coefficient of 54 bits is halved.
    have hpair : (if rounded = pow2 53 then (pow2 52, e + 1) else (rounded, e)).1 ≤ 2 ^ 54 ∧
        (if rounded = pow2 53 then (pow2 52, e + 1) else (rounded, e)).2 ≤ 12 := by
      split
      · exact ⟨show 2 ^ 52 ≤ 2 ^ 54 by decide, show e + 1 ≤ 12 by omega⟩
      · exact ⟨hrounded, show e ≤ 12 by omega⟩
    generalize (if rounded = pow2 53 then (pow2 52, e + 1) else (rounded, e)) = pair at hpair
    rw [show pow2 52 = 2 ^ 52 from rfl]
    split
    · exact isFinite_assemble (by omega)
    · rw [if_neg (by omega)]
      exact isFinite_assemble (by omega)

/-- Digits for an integer of 64 bits stand for a finite number. -/
theorem isFinite_toFloat {negative : Bool} {n : Nat} (hn : n < 2 ^ 64) :
    isFinite (Numeral.toFloat ⟨negative, n, 0⟩) = true := by
  have hlength : (Nat.toDigits 10 n).length ≤ 20 :=
    (Nat.length_toDigits_le_iff (by decide) (by decide)).mpr (hn.trans (by decide))
  unfold Numeral.toFloat
  dsimp only
  split
  · exact isFinite_assemble (by decide)
  · rw [if_neg (by omega)]
    exact isFinite_ofRatio_one (by simpa [pow10] using hn)

end OdeSystem.Number
