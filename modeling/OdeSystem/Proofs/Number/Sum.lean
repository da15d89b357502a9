import OdeSystem.Proofs.Number.Rank

/-!
Sums of finite numbers. The sum is computed exactly and rounded once: bits that do not fit are shifted out, and what
they were is kept in two of them. So the place of a sum is the sum of the places, rounded to 53 digits, or the place of an
infinite number if it is beyond the largest finite one.
-/

namespace OdeSystem.Number

open Float.Model (Format UnpackedFloat)
open Float.Model.UnpackedFloat

/-! ### Shifting out bits -/

/-- A mantissa in a unit, with one bit that tells whether half a unit or more has been left out, and one that tells
whether what has been left out is neither nothing nor half a unit. -/
structure Represents (em : ExtendedMantissa) (n unit : Nat) : Prop where
  mantissa : em.mantissa = n / unit
  half : em.roundBit = true ↔ unit ≤ 2 * (n % unit)
  uneven : em.stickyBit = true ↔ n % unit ≠ 0 ∧ 2 * (n % unit) ≠ unit

theorem represents_exact (n : Nat) : Represents (.ofMantissaAndAccuracy n .exact) n 1 :=
  ⟨(Nat.div_one n).symm, by simp [ExtendedMantissa.ofMantissaAndAccuracy, Nat.mod_one],
    by simp [ExtendedMantissa.ofMantissaAndAccuracy, Nat.mod_one]⟩

theorem Represents.shiftRightOne {em : ExtendedMantissa} {n unit : Nat} (h : Represents em n unit) (hunit : 0 < unit) :
    Represents em.shiftRightOne n (unit * 2) := by
  have hlt := Nat.mod_lt n hunit
  have hmod : n % (unit * 2) = n % unit + unit * (n / unit % 2) := Nat.mod_mul
  refine ⟨?_, ?_, ?_⟩
  · rw [← Nat.div_div_eq_div_mul, ← h.mantissa]
    rfl
  · rw [ExtendedMantissa.shiftRightOne, h.mantissa, hmod, bne_iff_ne]
    rcases Nat.mod_two_eq_zero_or_one (n / unit) with hbit | hbit <;> rw [hbit] <;> omega
  · rw [ExtendedMantissa.shiftRightOne, Bool.or_eq_true, h.half, h.uneven, hmod]
    rcases Nat.mod_two_eq_zero_or_one (n / unit) with hbit | hbit <;> rw [hbit] <;> omega

theorem represents_shift (n k : Nat) : Represents (ExtendedMantissa.ofMantissaAndAccuracy n .exact >>> k) n (2 ^ k) := by
  show Represents (k.repeat ExtendedMantissa.shiftRightOne _) n (2 ^ k)
  induction k with
  | zero => exact represents_exact n
  | succ k ih => exact ih.shiftRightOne (Nat.two_pow_pos k)

theorem Represents.roundedMantissa {em : ExtendedMantissa} {n unit : Nat} (h : Represents em n unit) :
    em.roundedMantissa = roundDiv n unit := by
  obtain ⟨mantissa, half, uneven⟩ := em
  obtain ⟨hmantissa, hhalf, huneven⟩ := h
  dsimp only at hmantissa hhalf huneven
  subst hmantissa
  unfold roundDiv
  dsimp only
  cases half <;> cases uneven
  · rw [if_pos (by simp at hhalf; omega)]
    rfl
  · rw [if_pos (by simp at hhalf; omega)]
    rfl
  · simp only [true_iff, Bool.false_eq_true, false_iff] at hhalf huneven
    rw [if_neg (by omega), if_neg (by omega)]
    rfl
  · simp only [true_iff] at hhalf huneven
    rw [if_neg (by omega), if_pos (by omega)]
    rfl

/-! ### Rounding -/

theorem log2_mul_two_pow {n : Nat} (hn : 0 < n) (k : Nat) : (n * 2 ^ k).log2 = n.log2 + k := by
  refine (Nat.log2_eq_iff (Nat.mul_pos hn (Nat.two_pow_pos k)).ne').mpr ⟨?_, ?_⟩
  · rw [Nat.pow_add]
    exact Nat.mul_le_mul_right _ (Nat.log2_self_le hn.ne')
  · rw [Nat.add_right_comm, Nat.pow_add]
    exact Nat.mul_lt_mul_of_pos_right Nat.lt_log2_self (Nat.two_pow_pos k)

/-- The exponent of the last place of a multiple of the least positive number. -/
def lastExponent (n : Nat) : Int := leastExponent + (n.log2 - 52 : Nat)

section
variable {n : Nat} {e : Int}

/-- The exponent that is aimed at is the one in which the number has 53 digits, or the least. -/
theorem targetExponent_eq (hn : 0 < n) (he : leastExponent ≤ e) :
    Format.binary64.targetExponent (Float.Model.totalExponent n e) = lastExponent (size n e) := by
  have hmantissa : Format.binary64.mantissaBits = 53 := rfl
  have hmin : Format.binary64.minExponent = -1074 := rfl
  have hsize := log2_mul_two_pow hn (e - leastExponent).toNat
  rw [Format.targetExponent, Float.Model.totalExponent, hmantissa, hmin, lastExponent, size, hsize]
  simp only [leastExponent] at *
  omega

/-- A number without the bits behind its last place, rounded. -/
theorem shiftToTargetExponent_eq (hn : 0 < n) (he : leastExponent ≤ e)
    (hle : e ≤ lastExponent (size n e)) :
    (shiftToTargetExponent Format.binary64 n e .exact).1.roundedMantissa = roundDiv (size n e) (lastPlace (size n e)) ∧
      (shiftToTargetExponent Format.binary64 n e .exact).2 = lastExponent (size n e) := by
  unfold shiftToTargetExponent shiftToExponent
  dsimp only
  rw [targetExponent_eq hn he, (represents_shift n _).roundedMantissa]
  constructor
  · have hunit : 2 ^ (lastExponent (size n e) - e).toNat * 2 ^ (e - leastExponent).toNat = lastPlace (size n e) := by
      rw [lastExponent] at hle
      rw [← Nat.pow_add, lastPlace, lastExponent]
      congr 1
      omega
    rw [← roundDiv_mul_right (Nat.two_pow_pos (e - leastExponent).toNat), hunit]
    rfl
  · omega

/-- A number of 53 digits, or the next one behind all of these, is brought to a canonical form without loss. -/
theorem canonical_shiftToTargetExponent (hn : 0 < n) (he : leastExponent ≤ e) (hle : n ≤ 2 ^ 53)
    (hfull : e ≠ leastExponent → 2 ^ 52 ≤ n) :
    let shifted := shiftToTargetExponent Format.binary64 n e .exact
    0 < shifted.1.mantissa ∧ Canonical shifted.1.mantissa shifted.2 ∧ size shifted.1.mantissa shifted.2 = size n e := by
  have hsize : (size n e).log2 = n.log2 + (e - leastExponent).toNat := log2_mul_two_pow hn _
  unfold shiftToTargetExponent shiftToExponent
  dsimp only
  rw [targetExponent_eq hn he, (represents_shift n _).mantissa, lastExponent, hsize]
  rcases hle.lt_or_eq with hlt | rfl
  · have hlog : n.log2 < 53 := (Nat.log2_lt hn.ne').mpr hlt
    have hshift : (leastExponent + (n.log2 + (e - leastExponent).toNat - 52 : Nat) - e).toNat = 0 := by omega
    rw [hshift, Nat.pow_zero, Nat.div_one, Int.natCast_zero, Int.add_zero]
    exact ⟨hn, ⟨hlt, he, hfull⟩, rfl⟩
  · have hshift : (leastExponent + ((2 ^ 53).log2 + (e - leastExponent).toNat - 52 : Nat) - e).toNat = 1 := by
      rw [Nat.log2_two_pow]
      omega
    rw [hshift]
    refine ⟨by decide, ⟨by decide, by omega, fun _ => by decide⟩, ?_⟩
    have hexponent : (e + (1 : Nat) - leastExponent).toNat = (e - leastExponent).toNat + 1 := by omega
    show 2 ^ 52 * 2 ^ (e + (1 : Nat) - leastExponent).toNat = 2 ^ 53 * 2 ^ (e - leastExponent).toNat
    rw [hexponent, ← Nat.pow_add, ← Nat.pow_add]
    congr 1
    omega

/-- A number in units no larger than its last place is rounded to the nearest. -/
theorem roundWithAccuracy_eq (sign : Sign) (hn : 0 < n) (he : leastExponent ≤ e)
    (hle : e ≤ lastExponent (size n e)) :
    ∃ c e' h, roundWithAccuracy Format.binary64 sign n e .exact = .finite sign c e' h ∧ Canonical c e' ∧
      size c e' = nearest (size n e) := by
  obtain ⟨hrounded, hexponent⟩ := shiftToTargetExponent_eq hn he hle
  have hsize : 0 < size n e := size_pos hn
  -- The rounded coefficient has 53 digits in the last place, or it is the next one behind these.
  have hupper : roundDiv (size n e) (lastPlace (size n e)) ≤ 2 ^ 53 :=
    roundDiv_le (lastPlace_pos _) (lt_lastPlace _).le
  have hlower : lastPlace (size n e) ≠ 1 → 2 ^ 52 ≤ roundDiv (size n e) (lastPlace (size n e)) := fun h =>
    le_roundDiv (lastPlace_pos _) (lastPlace_le h)
  have hpos : 0 < roundDiv (size n e) (lastPlace (size n e)) := by
    by_cases hplace : lastPlace (size n e) = 1
    · refine le_roundDiv (lastPlace_pos _) ?_
      rw [hplace]
      exact hsize
    · exact Nat.lt_of_lt_of_le (by decide) (hlower hplace)
  have hshifted := canonical_shiftToTargetExponent (e := lastExponent (size n e))
    hpos (by rw [lastExponent]; omega) hupper fun hne => hlower (by
      rw [lastExponent] at hne
      exact (Nat.one_lt_two_pow (by omega)).ne')
  obtain ⟨hfinal, hcanonical, hvalue⟩ := hshifted
  unfold roundWithAccuracy
  dsimp only
  rw [hrounded, hexponent]
  rw [dif_neg hfinal.ne']
  refine ⟨_, _, hfinal, rfl, hcanonical, hvalue.trans ?_⟩
  rw [size, nearest, lastPlace, lastExponent]
  congr 2
  omega

/-- Rounding gives the nearest number. -/
theorem round_eq (sign : Sign) (hn : 0 < n) (he : leastExponent ≤ e) :
    ∃ c e' h, UnpackedFloat.round Format.binary64 sign n e = .finite sign c e' h ∧ Canonical c e' ∧
      size c e' = nearest (size n e) := by
  unfold UnpackedFloat.round decreaseExponent
  dsimp only
  rw [targetExponent_eq hn he, Nat.shiftLeft_eq]
  generalize hshift : (e - lastExponent (size n e)).toNat = shift
  have hleast : leastExponent ≤ lastExponent (size n e) := by rw [lastExponent]; omega
  -- Smaller units make the coefficient larger, and not the number.
  have hsame : size (n * 2 ^ shift) (e - shift) = size n e := by
    rw [size, size, Nat.mul_assoc, ← Nat.pow_add]
    congr 2
    omega
  rw [← hsame]
  refine roundWithAccuracy_eq sign (Nat.mul_pos hn (Nat.two_pow_pos _)) (by omega) ?_
  rw [hsame]
  omega

end

/-! ### Packing -/

theorem ofBitVec_unpackSign_packComponents (sign : Sign) (exponent : BitVec Format.binary64.exponentBits)
    (fraction : BitVec Format.binary64.mantissaBitsWithoutImplicit) :
    Sign.ofBitVec (unpackSign (packComponents Format.binary64 sign exponent fraction)) = sign := by
  -- The sign is in front of the other two, which are dropped one after the other.
  unfold unpackSign packComponents BitVec.extractLsb
  rw [BitVec.extractLsb'_append_eq_of_le (by decide), BitVec.extractLsb'_append_eq_of_le (by decide)]
  cases sign <;> rfl

theorem unpack_pack_infinity (sign : Sign) : (Float.Model.pack (.infinity sign)).unpack = .infinity sign := by
  cases sign <;> rfl

theorem unpack_pack_zero (sign : Sign) : (Float.Model.pack (.zero sign)).unpack = .zero sign := by
  cases sign <;> rfl

/-- A canonical number is kept as it is if it is not too large. -/
theorem ofUnpacked_unpack_pack (sign : Sign) {c : Nat} {e : Int} (hc : 0 < c) (h : Canonical c e) (he : e ≤ 971) :
    Quantity.ofUnpacked (Float.Model.pack (.finite sign c e hc)).unpack = .finite (sign == .negative) c e := by
  obtain ⟨hdigits, hleast, hfull⟩ := h
  simp only [leastExponent] at hleast hfull
  show Quantity.ofUnpacked (UnpackedFloat.unpack Format.binary64 (UnpackedFloat.pack Format.binary64 _)) = _
  have hbias : (e + Format.binary64.exponentBias + Format.binary64.mantissaBitsWithoutImplicit).toNat = (e + 1075).toNat := by
    show (e + (1023 : Nat) + (52 : Nat)).toNat = _
    omega
  rw [ofUnpacked_unpack]
  unfold UnpackedFloat.pack
  simp only [hbias]
  rw [if_neg (show ¬ 2 ^ 11 ≤ (e + 1075).toNat + 1 by omega)]
  split
  · next hnormal =>
    have hlow : 2 ^ 52 ≤ c := by
      have hlog := Nat.log2_self_le hc.ne'
      rwa [show c.log2 = 52 from Nat.succ.inj hnormal] at hlog
    rw [ofBitVec_unpackSign_packComponents, unpackExponent_packComponents, unpackMantissa_packComponents,
      BitVec.toNat_ofNat, BitVec.toNat_ofNat]
    show (if (e + 1075).toNat % 2 ^ 11 = 2047 then _ else _) = _
    rw [if_neg (by omega), if_neg (show ¬ (e + 1075).toNat % 2 ^ 11 = 0 by omega)]
    show Quantity.finite _ (2 ^ 52 + c % 2 ^ 52) (((e + 1075).toNat % 2 ^ 11 : Nat) - 1075) = _
    congr 1 <;> omega
  · next hsubnormal =>
    have hleastExponent : e = -1074 := by
      by_contra hne
      exact hsubnormal (congrArg Nat.succ ((Nat.log2_eq_iff hc.ne').mpr ⟨hfull hne, hdigits⟩))
    have hlow : c < 2 ^ 52 := by
      by_contra hge
      exact hsubnormal (congrArg Nat.succ ((Nat.log2_eq_iff hc.ne').mpr ⟨Nat.not_lt.mp hge, hdigits⟩))
    rw [ofBitVec_unpackSign_packComponents, unpackExponent_packComponents, unpackMantissa_packComponents]
    show Quantity.finite _ (c % 2 ^ 52) leastExponent = _
    rw [Nat.mod_eq_of_lt hlow, hleastExponent]
    rfl

/-- A rounded number as it is kept: infinite if it is beyond the largest finite one. -/
theorem rank_pack_finite (sign : Sign) {c : Nat} {e : Int} (hc : 0 < c) (h : Canonical c e) :
    (Quantity.ofUnpacked (Float.Model.pack (.finite sign c e hc)).unpack).rank =
      some (signed (sign == .negative) (min beyond (size c e))) := by
  by_cases he : e ≤ 971
  · rw [ofUnpacked_unpack_pack sign hc h he, Quantity.rank, Nat.min_eq_right (size_lt_beyond h he).le]
  · have hinfinite : Float.Model.pack (.finite sign c e hc) = Float.Model.pack (.infinity sign) := by
      have hover : 2 ^ 11 ≤ (e + (1023 : Nat) + (52 : Nat)).toNat + 1 := by omega
      unfold Float.Model.pack
      congr 2
      exact if_pos hover
    rw [hinfinite, unpack_pack_infinity, Nat.min_eq_left (beyond_le_size h (by omega))]
    rfl

/-! ### Adding -/

/-- A place that is beyond those of all finite numbers is that of an infinite one. -/
def clamp (z : Int) : Int := max (-beyond) (min beyond z)

theorem clamp_signed (negative : Bool) (n : Nat) : clamp (signed negative n) = signed negative (min beyond n) := by
  unfold clamp
  cases negative <;> simp only [signed, if_true, Bool.false_eq_true, if_false] <;> omega

theorem clamp_zero : clamp 0 = 0 := by
  unfold clamp
  omega

theorem nearestInt_signed (negative : Bool) (n : Nat) : nearestInt (signed negative n) = signed negative (nearest n) := by
  unfold nearestInt signed
  cases negative with
  | false => simp
  | true =>
    rcases Nat.eq_zero_or_pos n with rfl | hn
    · rfl
    · simp [hn]

/-- The exact sum is rounded. -/
theorem rank_normalize {mantissa : Int} {e : Int} (he : leastExponent ≤ e) (zeroSign : Sign) :
    (Quantity.ofUnpacked (Float.Model.pack (UnpackedFloat.normalize Format.binary64 mantissa e zeroSign)).unpack).rank =
      some (clamp (nearestInt (mantissa * 2 ^ (e - leastExponent).toNat))) := by
  have rounded (sign : Sign) {n : Nat} (hn : 0 < n) :
      (Quantity.ofUnpacked (Float.Model.pack (UnpackedFloat.round Format.binary64 sign n e)).unpack).rank =
        some (clamp (nearestInt (signed (sign == .negative) (size n e)))) := by
    obtain ⟨c, e', hc, hround, hcanonical, hsize⟩ := round_eq sign hn he
    rw [hround, rank_pack_finite sign hc hcanonical, hsize, nearestInt_signed, clamp_signed]
  have shifted (n : Nat) : signed false (size n e) = n * 2 ^ (e - leastExponent).toNat := by
    rw [signed, size]
    push_cast
    rfl
  unfold UnpackedFloat.normalize
  rcases lt_trichotomy mantissa 0 with hneg | rfl | hpos
  · rw [compare_lt_iff_lt.mpr hneg]
    have hsigned : signed true (size (-mantissa).toNat e) = mantissa * 2 ^ (e - leastExponent).toNat := by
      have hsize := shifted (-mantissa).toNat
      rw [Int.toNat_of_nonneg (by omega), Int.neg_mul] at hsize
      rw [← Int.neg_inj, ← hsize]
      exact Int.neg_neg _
    rw [← hsigned]
    exact rounded .negative (by omega)
  · rw [compare_eq_iff_eq.mpr rfl, Int.zero_mul]
    show (Quantity.ofUnpacked (Float.Model.pack (.zero zeroSign)).unpack).rank = some (clamp 0)
    rw [unpack_pack_zero, rank_ofUnpacked_zero, clamp_zero]
  · rw [compare_gt_iff_gt.mpr hpos]
    have hsigned := shifted mantissa.toNat
    rw [Int.toNat_of_nonneg hpos.le] at hsigned
    rw [← hsigned]
    exact rounded .positive (by omega)

theorem apply_signed (sign : Sign) (c : Nat) {e least : Int} (hleast : leastExponent ≤ least) (h : least ≤ e) :
    sign.apply (decreaseExponent c e least).1 * 2 ^ (least - leastExponent).toNat =
      signed (sign == .negative) (size c e) := by
  have hsize : (c <<< (e - least).toNat) * 2 ^ (least - leastExponent).toNat = size c e := by
    rw [Nat.shiftLeft_eq, Nat.mul_assoc, ← Nat.pow_add, size]
    congr 2
    omega
  rw [← hsize]
  cases sign with
  | negative =>
    show -((c <<< (e - least).toNat : Nat) : Int) * _ = -((_ : Nat) : Int)
    push_cast
    ring
  | positive =>
    show ((c <<< (e - least).toNat : Nat) : Int) * _ = ((_ : Nat) : Int)
    push_cast
    rfl

/-- A finite number is kept as it is when nothing is added to it. -/
theorem rank_pack_of_canonical (sign : Sign) {c : Nat} {e : Int} (hc : 0 < c) (h : Canonical c e) :
    (Quantity.ofUnpacked (Float.Model.pack (.finite sign c e hc)).unpack).rank =
      some (clamp (nearestInt (signed (sign == .negative) (size c e)))) := by
  rw [rank_pack_finite sign hc h, nearestInt_signed, clamp_signed, (fits_size h).nearest_eq]

/-- The place of a sum of finite numbers is the sum of their places, rounded. -/
theorem rank_add {x y : Float} {a b : Int} (hx : isFinite x = true) (hy : isFinite y = true) (ha : rank x = some a)
    (hb : rank y = some b) : rank (x + y) = some (clamp (nearestInt (a + b))) := by
  have hboundedx := bounded_unpack x
  have hboundedy := bounded_unpack y
  rw [isFinite, quantity_eq] at hx hy
  rw [rank, quantity_eq] at ha hb ⊢
  show (Quantity.ofUnpacked (Float.Model.pack (UnpackedFloat.add _ x.toModel.unpack y.toModel.unpack)).unpack).rank = _
  generalize x.toModel.unpack = u at *
  generalize y.toModel.unpack = v at *
  cases u with
  | notANumber => cases hx
  | infinity sign => cases hx
  | zero sign =>
    rw [rank_ofUnpacked_zero] at ha
    cases ha
    rw [Int.zero_add]
    cases v with
    | notANumber => cases hy
    | infinity sign' => cases hy
    | zero sign' =>
      rw [rank_ofUnpacked_zero] at hb
      cases hb
      have hsum : ∃ zeroSign, UnpackedFloat.add Format.binary64 (.zero sign) (.zero sign') = .zero zeroSign := by
        cases sign <;> cases sign' <;> exact ⟨_, rfl⟩
      obtain ⟨zeroSign, hzero⟩ := hsum
      rw [hzero, unpack_pack_zero, rank_ofUnpacked_zero]
      show some 0 = some (clamp 0)
      rw [clamp_zero]
    | finite sign' c' e' hc' =>
      cases hb
      exact rank_pack_of_canonical sign' hc' (hboundedy _ _ _ _ rfl).1
  | finite sign c e hc =>
    obtain ⟨hcanonical, -⟩ := hboundedx _ _ _ _ rfl
    cases ha
    cases v with
    | notANumber => cases hy
    | infinity sign' => cases hy
    | zero sign' =>
      rw [rank_ofUnpacked_zero] at hb
      cases hb
      rw [Int.add_zero]
      exact rank_pack_of_canonical sign hc hcanonical
    | finite sign' c' e' hc' =>
      obtain ⟨hcanonical', -⟩ := hboundedy _ _ _ _ rfl
      cases hb
      have hleast : leastExponent ≤ min e e' := le_min hcanonical.least hcanonical'.least
      rw [← apply_signed sign c hleast (min_le_left e e'), ← apply_signed sign' c' hleast (min_le_right e e'),
        ← Int.add_mul]
      exact rank_normalize hleast .positive

theorem natAbs_signed (negative : Bool) (n : Nat) : (signed negative n).natAbs = n := by
  cases negative <;> simp [signed]

theorem exists_rank_of_isFinite {x : Float} (h : isFinite x = true) :
    ∃ a, rank x = some a ∧ Fits a.natAbs ∧ |a| < beyond := by
  unfold isFinite at h
  split at h
  · next negative c e hquantity =>
    obtain ⟨hcanonical, he⟩ := canonical_of_quantity hquantity
    refine ⟨signed negative (size c e), by rw [rank, hquantity, Quantity.rank], ?_, ?_⟩
    · rw [natAbs_signed]
      exact fits_size hcanonical
    · rw [Int.abs_eq_natAbs, natAbs_signed]
      exact Int.ofNat_lt.mpr (size_lt_beyond hcanonical he)
  · cases h

/-- A number that has a place is finite, or it is infinite and all sums with finite ones are in the same place. -/
theorem isFinite_or_rank_add {x y : Float} {a : Int} (ha : rank x = some a) (hy : isFinite y = true) :
    (isFinite x = true ∧ |a| < beyond) ∨ (|a| = beyond ∧ rank (x + y) = some a) := by
  cases hquantity : quantity x with
  | nan =>
    rw [rank, hquantity] at ha
    cases ha
  | finite negative c e =>
    have hfinite : isFinite x = true := by rw [isFinite, hquantity]
    obtain ⟨a', ha', -, hlt⟩ := exists_rank_of_isFinite hfinite
    cases ha.symm.trans ha'
    exact .inl ⟨hfinite, hlt⟩
  | infinite negative =>
    have hrank := ha
    rw [rank, hquantity] at hrank
    cases hrank
    refine .inr ⟨by rw [Int.abs_eq_natAbs, natAbs_signed], ?_⟩
    rw [isFinite, quantity_eq] at hy
    rw [quantity_eq] at hquantity
    rw [rank, quantity_eq] at ha ⊢
    rw [← ha]
    show (Quantity.ofUnpacked (Float.Model.pack (UnpackedFloat.add _ x.toModel.unpack y.toModel.unpack)).unpack).rank = _
    generalize x.toModel.unpack = u at *
    generalize y.toModel.unpack = v at *
    cases u with
    | infinity sign =>
      cases v with
      | notANumber => cases hy
      | infinity => cases hy
      | zero sign' => exact congrArg (Quantity.rank ∘ Quantity.ofUnpacked) (unpack_pack_infinity sign)
      | finite sign' c' e' hc' => exact congrArg (Quantity.rank ∘ Quantity.ofUnpacked) (unpack_pack_infinity sign)
    | notANumber => cases hquantity
    | zero => cases hquantity
    | finite => cases hquantity

section
variable {x y d : Float} {a b : Int}

/-- A step forward does not lead back, and it leads on from a finite number that is not too large for it. -/
theorem le_rank_add (ha : rank x = some a) (hd : isFinite d = true) (hb : rank d = some b) (hpos : 0 < b) :
    ∃ c, rank (x + d) = some c ∧ a ≤ c ∧ (isFinite x = true → |a| < 2 ^ 53 * b → a < c) := by
  rcases isFinite_or_rank_add ha hd with ⟨hx, hlt⟩ | ⟨habs, hsum⟩
  · obtain ⟨a', ha', hfits, -⟩ := exists_rank_of_isFinite hx
    cases ha.symm.trans ha'
    rw [abs_lt] at hlt
    refine ⟨_, rank_add hx hd ha hb, ?_, fun _ hsmall => ?_⟩
    · have hle := le_nearestInt hfits (show a ≤ a + b by omega)
      exact le_max_of_le_right (le_min hlt.2.le hle)
    · exact lt_max_of_lt_right (lt_min hlt.2 (lt_nearestInt hfits hpos hsmall))
  · refine ⟨a, hsum, le_rfl, fun hx => ?_⟩
    obtain ⟨a', ha', -, hlt⟩ := exists_rank_of_isFinite hx
    cases ha.symm.trans ha'
    omega

/-- Numbers in the same place are in the same place after a step. -/
theorem rank_add_congr (ha : rank x = some a) (ha' : rank y = some a) (hd : isFinite d = true) :
    rank (x + d) = rank (y + d) := by
  obtain ⟨b, hb, -, -⟩ := exists_rank_of_isFinite hd
  rcases isFinite_or_rank_add ha hd with ⟨hx, hlt⟩ | ⟨habs, hsum⟩ <;>
    rcases isFinite_or_rank_add ha' hd with ⟨hy, hlt'⟩ | ⟨habs', hsum'⟩
  · rw [rank_add hx hd ha hb, rank_add hy hd ha' hb]
  · omega
  · omega
  · rw [hsum, hsum']

end

end OdeSystem.Number
