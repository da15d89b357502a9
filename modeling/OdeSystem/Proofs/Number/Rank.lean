import OdeSystem.Proofs.Number.Nearest

/-!
The place of a double-precision number among the others. Every number but the undefined one is a whole multiple of the
least positive one, if an infinite one is taken for the power of two beyond the largest finite one; and numbers are
compared as these multiples are.
-/

namespace OdeSystem.Number

open Float.Model (Format UnpackedFloat)
open Float.Model.UnpackedFloat

/-! ### Unpacked numbers -/

section
variable (b : BitVec Format.binary64.numBits)

theorem toNat_unpackMantissa : (unpackMantissa b).toNat = b.toNat % 2 ^ 52 := by
  simp [unpackMantissa, BitVec.extractLsb_toNat]

theorem toNat_unpackExponent : (unpackExponent b).toNat = b.toNat / 2 ^ 52 % 2048 := by
  simp [unpackExponent, BitVec.extractLsb_toNat, Nat.shiftRight_eq_div_pow]

theorem toNat_unpackSign : (unpackSign b).toNat = b.toNat / 2 ^ 63 % 2 := by
  unfold unpackSign
  simp [BitVec.extractLsb_toNat, Nat.shiftRight_eq_div_pow]

end

/-- What an unpacked number stands for. -/
def Quantity.ofUnpacked : UnpackedFloat → Quantity
  | .notANumber => .nan
  | .infinity sign => .infinite (sign == .negative)
  | .zero sign => .finite (sign == .negative) 0 leastExponent
  | .finite sign coefficient exponent _ => .finite (sign == .negative) coefficient exponent

theorem ofBitVec_eq_negative (b : BitVec 1) : (Sign.ofBitVec b == .negative) = (b.toNat == 1) := by
  revert b
  decide

theorem toNat_leadingOne (v : BitVec 52) : (1#1 ++ v).toNat = 2 ^ 52 + v.toNat := by
  rw [BitVec.toNat_append, ← Nat.shiftLeft_add_eq_or_of_lt v.isLt]
  rfl

theorem ofUnpacked_unpack (b : BitVec Format.binary64.numBits) :
    Quantity.ofUnpacked (UnpackedFloat.unpack Format.binary64 b) =
      if (unpackExponent b).toNat = 2047 then
        if (unpackMantissa b).toNat = 0 then .infinite (Sign.ofBitVec (unpackSign b) == .negative) else .nan
      else if (unpackExponent b).toNat = 0 then
        .finite (Sign.ofBitVec (unpackSign b) == .negative) (unpackMantissa b).toNat leastExponent
      else
        .finite (Sign.ofBitVec (unpackSign b) == .negative) (2 ^ 52 + (unpackMantissa b).toNat)
          ((unpackExponent b).toNat - 1075) := by
  have htop : (unpackExponent b).toNat = 2047 ↔ unpackExponent b = -1#_ := BitVec.toNat_inj (y := -1#11)
  have hbottom : (unpackExponent b).toNat = 0 ↔ unpackExponent b = 0#_ := BitVec.toNat_inj (y := 0#11)
  have hzero : (unpackMantissa b).toNat = 0 ↔ unpackMantissa b = 0#_ := BitVec.toNat_inj (y := 0#52)
  unfold UnpackedFloat.unpack
  dsimp only
  rw [if_congr htop (if_congr hzero rfl rfl) (if_congr hbottom rfl rfl)]
  by_cases top : unpackExponent b = -1#_
  · rw [if_pos top, if_pos top]
    by_cases zero : unpackMantissa b = 0#_
    · rw [if_pos zero, if_pos zero]
      rfl
    · rw [if_neg zero, if_neg zero]
      rfl
  · rw [if_neg top, if_neg top]
    by_cases bottom : unpackExponent b = 0#_
    · rw [if_pos bottom, if_pos bottom]
      by_cases zero : unpackMantissa b = 0#_
      · rw [dif_pos zero, zero]
        rfl
      · rw [dif_neg zero, bottom]
        rfl
    · rw [if_neg bottom, if_neg bottom]
      exact congrArg (Quantity.finite _ · _) (toNat_leadingOne _)

theorem quantity_eq (x : Float) : quantity x = .ofUnpacked x.toModel.unpack := by
  have hunpack := ofUnpacked_unpack x.toModel.toBits.toBitVec
  rw [ofBitVec_eq_negative, toNat_unpackSign, toNat_unpackExponent, toNat_unpackMantissa] at hunpack
  exact hunpack.symm

/-! ### Finite numbers -/

/-- A coefficient and an exponent that belong together: the exponent is the least with which the coefficient has no more
than 53 digits. -/
structure Canonical (coefficient : Nat) (exponent : Int) : Prop where
  digits : coefficient < 2 ^ 53
  least : leastExponent ≤ exponent
  full : exponent ≠ leastExponent → 2 ^ 52 ≤ coefficient

/-- A finite number as a multiple of the least positive one. -/
def size (coefficient : Nat) (exponent : Int) : Nat := coefficient * 2 ^ (exponent - leastExponent).toNat

/-- The power of two beyond the largest finite number, as a multiple of the least positive one. -/
def beyond : Nat := size (2 ^ 52) 972

theorem canonical_of_quantity {x : Float} {negative : Bool} {c : Nat} {e : Int}
    (h : quantity x = .finite negative c e) : Canonical c e ∧ e ≤ 971 := by
  have hbiased : x.toBits.toNat / pow2 52 % 2048 < 2048 := Nat.mod_lt _ (by decide)
  have hfraction : x.toBits.toNat % pow2 52 < 2 ^ 52 := Nat.mod_lt _ (by decide)
  unfold quantity at h
  dsimp only at h
  split at h
  · split at h <;> cases h
  · split at h
    · cases h
      exact ⟨⟨by omega, le_rfl, fun hne => absurd rfl hne⟩, by decide⟩
    · cases h
      refine ⟨⟨?_, ?_, fun _ => Nat.le_add_right _ _⟩, by omega⟩
      · simp only [pow2, Nat.pow_eq] at *
        omega
      · simp only [leastExponent]
        omega

section
variable {c c' : Nat} {e e' : Int}

theorem size_pos (h : 0 < c) : 0 < size c e := Nat.mul_pos h (Nat.two_pow_pos _)

theorem fits_size (h : Canonical c e) : Fits (size c e) := ⟨c, _, h.digits, rfl⟩

theorem size_lt_size_of_exponent (h : Canonical c e) (h' : Canonical c' e') (he : e < e') : size c e < size c' e' := by
  have hleast := h.least
  calc size c e < 2 ^ 53 * 2 ^ (e - leastExponent).toNat := Nat.mul_lt_mul_of_pos_right h.digits (Nat.two_pow_pos _)
    _ = 2 ^ 52 * 2 ^ ((e - leastExponent).toNat + 1) := by rw [← Nat.pow_add, ← Nat.pow_add]; congr 1; omega
    _ ≤ size c' e' := Nat.mul_le_mul (h'.full (by omega)) (Nat.pow_le_pow_right (by omega) (by omega))

theorem canonical_beyond : Canonical (2 ^ 52) 972 := ⟨by decide, by decide, fun _ => le_rfl⟩

theorem size_lt_beyond (h : Canonical c e) (he : e ≤ 971) : size c e < beyond :=
  size_lt_size_of_exponent h canonical_beyond (by omega)

theorem beyond_le_size (h : Canonical c e) (he : 971 < e) : beyond ≤ size c e := by
  rcases (show 972 ≤ e by omega).eq_or_lt with rfl | hlt
  · exact Nat.mul_le_mul_right _ (h.full (by decide))
  · exact (size_lt_size_of_exponent canonical_beyond h hlt).le

/-- Canonical numbers are compared by their exponents first. -/
theorem compare_size (h : Canonical c e) (h' : Canonical c' e') :
    (compare e e').then (compare c c') = compare (size c e : Int) (size c' e') := by
  rcases lt_trichotomy e e' with he | rfl | he
  · have hsize := size_lt_size_of_exponent h h' he
    rw [compare_lt_iff_lt.mpr he, compare_lt_iff_lt.mpr (Int.ofNat_lt.mpr hsize)]
    rfl
  · rw [compare_eq_iff_eq.mpr rfl]
    show compare c c' = _
    rcases lt_trichotomy c c' with hc | rfl | hc
    · have hsize : size c e < size c' e := Nat.mul_lt_mul_of_pos_right hc (Nat.two_pow_pos _)
      rw [compare_lt_iff_lt.mpr hc, compare_lt_iff_lt.mpr (Int.ofNat_lt.mpr hsize)]
    · rw [compare_eq_iff_eq.mpr rfl, compare_eq_iff_eq.mpr rfl]
    · have hsize : size c' e < size c e := Nat.mul_lt_mul_of_pos_right hc (Nat.two_pow_pos _)
      rw [compare_gt_iff_gt.mpr hc, compare_gt_iff_gt.mpr (Int.ofNat_lt.mpr hsize)]
  · have hsize := size_lt_size_of_exponent h' h he
    rw [compare_gt_iff_gt.mpr he, compare_gt_iff_gt.mpr (Int.ofNat_lt.mpr hsize)]
    rfl

end

/-! ### Ranks -/

/-- A number with its sign. -/
def signed (negative : Bool) (n : Nat) : Int := if negative then -n else n

/-- The multiple of the least positive number that a quantity is, an infinite one being beyond all finite ones. -/
def Quantity.rank : Quantity → Option Int
  | .nan => none
  | .infinite negative => some (signed negative beyond)
  | .finite negative c e => some (signed negative (size c e))

/-- The place of a number among the others. -/
def rank (x : Float) : Option Int := (quantity x).rank

/-- An unpacked number that some number unpacks to. -/
def Bounded (u : UnpackedFloat) : Prop :=
  ∀ sign c e h, u = .finite sign c e h → Canonical c e ∧ e ≤ 971

theorem bounded_unpack (x : Float) : Bounded x.toModel.unpack := by
  intro sign c e hpos h
  have hquantity : quantity x = .finite (sign == .negative) c e := by
    rw [quantity_eq, h]
    rfl
  exact canonical_of_quantity hquantity

theorem rank_ofUnpacked_zero (sign : Sign) : (Quantity.ofUnpacked (.zero sign)).rank = some 0 := by
  cases sign <;> rfl

/-- Opposite numbers are compared the other way round. -/
theorem swap_compare (a b : Int) : (compare a b).swap = compare (-a) (-b) := by
  rcases lt_trichotomy a b with hlt | rfl | hlt
  · rw [compare_lt_iff_lt.mpr hlt, compare_gt_iff_gt.mpr (Int.neg_lt_neg hlt)]
    rfl
  · rw [compare_eq_iff_eq.mpr rfl, compare_eq_iff_eq.mpr rfl]
    rfl
  · rw [compare_gt_iff_gt.mpr hlt, compare_lt_iff_lt.mpr (Int.neg_lt_neg hlt)]
    rfl

theorem places_before {a b : Int} (h : a < b) : some Ordering.lt = some (compare a b) := by rw [compare_lt_iff_lt.mpr h]

theorem places_behind {a b : Int} (h : b < a) : some Ordering.gt = some (compare a b) := by rw [compare_gt_iff_gt.mpr h]

theorem places_level (a : Int) : some Ordering.eq = some (compare a a) := by rw [compare_eq_iff_eq.mpr rfl]

/-- How the places of two unpacked numbers compare, if both have one. -/
def comparePlaces (u v : UnpackedFloat) : Option Ordering :=
  (Quantity.ofUnpacked u).rank.bind fun a => (Quantity.ofUnpacked v).rank.map (compare a)

section
variable {v : UnpackedFloat} (hv : Bounded v)
include hv

theorem compare_infinity (sign : Sign) :
    (UnpackedFloat.infinity sign).compare v = comparePlaces (.infinity sign) v := by
  have hbeyond : 0 < beyond := size_pos (by decide)
  cases v with
  | notANumber => cases sign <;> rfl
  | infinity sign' =>
    cases sign <;> cases sign'
    · exact places_level (-beyond)
    · exact places_before (show -(beyond : Int) < beyond by omega)
    · exact places_behind (show -(beyond : Int) < beyond by omega)
    · exact places_level beyond
  | zero sign' =>
    rw [comparePlaces, rank_ofUnpacked_zero]
    cases sign
    · exact places_before (show -(beyond : Int) < 0 by omega)
    · exact places_behind (show (0 : Int) < beyond by omega)
  | finite sign' c' e' hc' =>
    have hsize := size_lt_beyond (hv _ _ _ _ rfl).1 (hv _ _ _ _ rfl).2
    cases sign <;> cases sign'
    · exact places_before (show -(beyond : Int) < -size c' e' by omega)
    · exact places_before (show -(beyond : Int) < size c' e' by omega)
    · exact places_behind (show -(size c' e' : Int) < beyond by omega)
    · exact places_behind (show (size c' e' : Int) < beyond by omega)

theorem compare_finite {c : Nat} {e : Int} (hcanonical : Canonical c e) (he : e ≤ 971) (sign : Sign) (hc : 0 < c) :
    (UnpackedFloat.finite sign c e hc).compare v = comparePlaces (.finite sign c e hc) v := by
  have hpos : 0 < size c e := size_pos hc
  have hsize := size_lt_beyond hcanonical he
  cases v with
  | notANumber => cases sign <;> rfl
  | infinity sign' =>
    cases sign <;> cases sign'
    · exact places_behind (show -(beyond : Int) < -size c e by omega)
    · exact places_before (show -(size c e : Int) < beyond by omega)
    · exact places_behind (show -(beyond : Int) < size c e by omega)
    · exact places_before (show (size c e : Int) < beyond by omega)
  | zero sign' =>
    rw [comparePlaces, rank_ofUnpacked_zero]
    cases sign
    · exact places_before (show -(size c e : Int) < 0 by omega)
    · exact places_behind (show (0 : Int) < size c e by omega)
  | finite sign' c' e' hc' =>
    have hpos' : 0 < size c' e' := size_pos hc'
    have hcompare := compare_size hcanonical (hv _ _ _ _ rfl).1
    cases sign <;> cases sign'
    · exact (congrArg (some ·.swap) hcompare).trans (congrArg some (swap_compare _ _))
    · exact places_before (show -(size c e : Int) < size c' e' by omega)
    · exact places_behind (show -(size c' e' : Int) < size c e by omega)
    · exact congrArg some hcompare

end

theorem compare_zero (sign : Sign) (v : UnpackedFloat) :
    (UnpackedFloat.zero sign).compare v = comparePlaces (.zero sign) v := by
  have hbeyond : 0 < beyond := size_pos (by decide)
  rw [comparePlaces, rank_ofUnpacked_zero]
  cases v with
  | notANumber => rfl
  | infinity sign' =>
    cases sign'
    · exact places_behind (show -(beyond : Int) < 0 by omega)
    · exact places_before (show (0 : Int) < beyond by omega)
  | zero sign' =>
    rw [rank_ofUnpacked_zero]
    exact places_level 0
  | finite sign' c' e' hc' =>
    have hpos : 0 < size c' e' := size_pos hc'
    cases sign'
    · exact places_behind (show -(size c' e' : Int) < 0 by omega)
    · exact places_before (show (0 : Int) < size c' e' by omega)

theorem compare_eq {u v : UnpackedFloat} (hu : Bounded u) (hv : Bounded v) : u.compare v = comparePlaces u v := by
  cases u with
  | notANumber => rfl
  | infinity sign => exact compare_infinity hv sign
  | zero sign => exact compare_zero sign v
  | finite sign c e hc =>
    obtain ⟨hcanonical, he⟩ := hu _ _ _ _ rfl
    exact compare_finite hv hcanonical he sign hc

/-- Numbers are compared as their places are. -/
theorem lt_iff {x y : Float} : x < y ↔ ∃ a b, rank x = some a ∧ rank y = some b ∧ a < b := by
  have hcompare := compare_eq (bounded_unpack x) (bounded_unpack y)
  rw [comparePlaces, ← quantity_eq, ← quantity_eq] at hcompare
  show decide (x.toModel < y.toModel) = true ↔ _
  rw [decide_eq_true_iff]
  show (x.toModel.unpack.compare y.toModel.unpack == some .lt) = true ↔ _
  rw [hcompare, beq_iff_eq, Option.bind_eq_some_iff]
  simp only [Option.map_eq_some_iff, compare_lt_iff_lt]
  exact ⟨fun ⟨a, ha, b, hb, h⟩ => ⟨a, b, ha, hb, h⟩, fun ⟨a, b, ha, hb, h⟩ => ⟨a, ha, b, hb, h⟩⟩

theorem le_iff {x y : Float} : x ≤ y ↔ ∃ a b, rank x = some a ∧ rank y = some b ∧ a ≤ b := by
  have hcompare := compare_eq (bounded_unpack x) (bounded_unpack y)
  rw [comparePlaces, ← quantity_eq, ← quantity_eq] at hcompare
  show decide (x.toModel ≤ y.toModel) = true ↔ _
  rw [decide_eq_true_iff]
  show (x.toModel.unpack.compare y.toModel.unpack).any (·.isLE) = true ↔ _
  rw [hcompare, Option.any_eq_true]
  simp only [Option.bind_eq_some_iff, Option.map_eq_some_iff]
  constructor
  · rintro ⟨_, ⟨a, ha, b, hb, rfl⟩, h⟩
    exact ⟨a, b, ha, hb, compare_le_iff_le.mp (Ordering.isLE_iff_ne_gt.mp h)⟩
  · rintro ⟨a, b, ha, hb, h⟩
    exact ⟨_, ⟨a, ha, b, hb, rfl⟩, Ordering.isLE_iff_ne_gt.mpr (compare_le_iff_le.mpr h)⟩

theorem lt_of_lt_of_le {x y z : Float} (h : x < y) (h' : y ≤ z) : x < z := by
  obtain ⟨a, b, ha, hb, hab⟩ := lt_iff.mp h
  obtain ⟨b', c, hb', hc, hbc⟩ := le_iff.mp h'
  cases hb.symm.trans hb'
  exact lt_iff.mpr ⟨a, c, ha, hc, by omega⟩

end OdeSystem.Number
