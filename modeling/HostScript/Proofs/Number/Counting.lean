import Mathlib
import HostScript.Value.Operation

/-!
# Counting with numbers

A loop over an array counts its turns with a number, which starts at zero and grows by one. Numbers
have 53 bits of precision, so up to 2 ^ 53 counting is exact. From there on adding one rounds back
to 2 ^ 53, and the count stands still.
-/

namespace HostScript

open Float.Model UnpackedFloat

namespace Number

/-- The number that counting by ones from zero has reached after some turns. -/
def counted : Nat → Float
  | 0 => 0.0
  | k + 1 => counted k + 1.0

/-- The largest number up to which counting is exact. -/
def countingLimit : Nat :=
  2 ^ 53

/-- Shifting out zeros loses nothing. -/
theorem shiftRight_exact (m n : Nat) :
    (⟨m * 2 ^ n, false, false⟩ : ExtendedMantissa) >>> n = ⟨m, false, false⟩ := by
  change Nat.repeat ExtendedMantissa.shiftRightOne n _ = _
  induction n generalizing m with
  | zero => simp [Nat.repeat]
  | succ n ih =>
    rw [Nat.repeat, show m * 2 ^ (n + 1) = m * 2 * 2 ^ n by ring, ih]
    simp [ExtendedMantissa.shiftRightOne]

/-- Whether a mantissa has all 53 bits. -/
def Full (m : Nat) : Prop :=
  2 ^ 52 ≤ m ∧ m < 2 ^ 53

/-- A number is a full mantissa times a power of two, which is not below one. -/
def Holds (f : Float) (k : Nat) : Prop :=
  ∃ (m j : Nat) (hm : 0 < m), f.toModel.unpack = .finite .positive m (j + -52) hm ∧
    Full m ∧ j ≤ 53 ∧
    m * 2 ^ j = k * 2 ^ 52

/-- A positive number up to the limit can be written with a full mantissa. -/
theorem exists_full {k : Nat} (hpos : 0 < k) (hle : k ≤ countingLimit) :
    ∃ m j, Full m ∧ j ≤ 53 ∧ m * 2 ^ j = k * 2 ^ 52 := by
  rcases Nat.eq_or_lt_of_le hle with rfl | hlt
  · exact ⟨2 ^ 52, 53, ⟨Nat.le_refl _, by decide⟩, Nat.le_refl _, by decide⟩
  · have hlog : k.log2 ≤ 52 := Nat.le_of_lt_succ ((Nat.log2_lt (by omega)).mpr hlt)
    have hpow : 2 ^ k.log2 * 2 ^ (52 - k.log2) = 2 ^ 52 := by
      rw [← Nat.pow_add, Nat.add_sub_cancel' hlog]
    refine ⟨k * 2 ^ (52 - k.log2), k.log2, ⟨?_, ?_⟩, by omega, ?_⟩
    · rw [← hpow]
      exact Nat.mul_le_mul_right _ (Nat.log2_self_le (by omega))
    · calc k * 2 ^ (52 - k.log2) < 2 ^ (k.log2 + 1) * 2 ^ (52 - k.log2) :=
            Nat.mul_lt_mul_of_pos_right Nat.lt_log2_self (by simp)
        _ = 2 ^ 53 := by rw [Nat.pow_succ, Nat.mul_right_comm, hpow, ← Nat.pow_succ]
    · rw [Nat.mul_assoc, Nat.mul_comm (2 ^ (52 - k.log2)), hpow]

theorem log2_full {m : Nat} (h : Full m) (j : Nat) : (m * 2 ^ j).log2 = 52 + j := by
  have hpos : m * 2 ^ j ≠ 0 := Nat.mul_ne_zero (by have := h.1; omega) (by simp)
  rw [Nat.log2_eq_iff hpos]
  constructor
  · calc 2 ^ (52 + j) = 2 ^ 52 * 2 ^ j := Nat.pow_add ..
      _ ≤ m * 2 ^ j := Nat.mul_le_mul_right _ h.1
  · calc m * 2 ^ j < 2 ^ 53 * 2 ^ j := Nat.mul_lt_mul_of_pos_right h.2 (by simp)
      _ = 2 ^ (52 + j + 1) := by ring

/-- The exponent at which a shifted mantissa is full again. -/
theorem targetExponent_full {m : Nat} (h : Full m) (j : Nat) {e : Int} (he : -1000 ≤ e) :
    Format.binary64.targetExponent (totalExponent (m * 2 ^ j) e) = j + e := by
  simp only [Format.targetExponent, totalExponent, log2_full h, Format.mantissaBits,
    Format.minExponent]
  omega

/-- Shifting a full mantissa to its exponent is exact. -/
theorem shiftToTargetExponent_full {m : Nat} (h : Full m) (j : Nat) {e : Int} (he : -1000 ≤ e) :
    shiftToTargetExponent .binary64 (m * 2 ^ j) e .exact =
      (ExtendedMantissa.mk m false false, j + e) := by
  have hshift : ((j : Int) + e - e).toNat = j := by omega
  rw [shiftToTargetExponent, targetExponent_full h j he, shiftToExponent, hshift]
  exact Prod.ext (shiftRight_exact m j) (Int.add_comm e j)

/-- A full mantissa that was shifted to the left is rounded to itself, if no exponent is
to be made smaller. -/
theorem roundWithAccuracy_full {m : Nat} (h : Full m) (j : Nat) {e : Int} (he : -1000 ≤ e)
    (hm : 0 < m) :
    roundWithAccuracy .binary64 .positive (m * 2 ^ j) e .exact =
      .finite .positive m (j + e) hm := by
  have hagain := shiftToTargetExponent_full h 0 (show (-1000 : Int) ≤ j + e by omega)
  simp only [Nat.pow_zero, Nat.mul_one, Int.natCast_zero, Int.zero_add] at hagain
  simp only [roundWithAccuracy, shiftToTargetExponent_full h j he, ExtendedMantissa.roundedMantissa,
    ExtendedMantissa.accuracy, Accuracy.roundToNearestEven, hagain, Nat.ne_of_gt hm, dite_false]

/-- A full mantissa that was shifted to the left is rounded to itself. -/
theorem round_full {m : Nat} (h : Full m) (j : Nat) (hm : 0 < m) :
    UnpackedFloat.round .binary64 .positive (m * 2 ^ j)
      (-52) = .finite .positive m (j + -52) hm := by
  have hlow : (-1000 : Int) ≤ -52 := by decide
  have hstay : (-52 - ((j : Int) + -52)).toNat = 0 := by omega
  simp only [UnpackedFloat.round, targetExponent_full h j hlow, decreaseExponent, hstay,
    Nat.shiftLeft_zero, Int.natCast_zero, Int.sub_zero, roundWithAccuracy_full h j hlow hm]

/-- The bits of a full mantissa after the first one, with that one in front of them again. -/
theorem toNat_append_full {m : Nat} (h : Full m) : (1#1 ++ BitVec.ofNat 52 m).toNat = m := by
  have hlow : (BitVec.ofNat 52 m).toNat = m - 2 ^ 52 := by
    rw [BitVec.toNat_ofNat]
    have := h.1
    have := h.2
    omega
  have hfit : m - 2 ^ 52 < 2 ^ 52 := by
    have := h.2
    omega
  rw [BitVec.toNat_append, hlow, ← Nat.shiftLeft_add_eq_or_of_lt hfit]
  exact Nat.add_sub_cancel' h.1

/-- A full mantissa is packed without loss. -/
theorem unpack_pack_full {m j : Nat} (h : Full m) (hj : j ≤ 53) (hm : 0 < m) :
    (Float.Model.pack (.finite .positive m (j + -52) hm)).unpack =
      .finite .positive m (j + -52) hm := by
  have hlog : m.log2 = 52 := by simpa using log2_full h 0
  have hbiased : ((j : Int) + -52 + 1023 + 52).toNat = j + 1023 := by omega
  have hexponent : (BitVec.ofNat 11 (j + 1023)).toNat = j + 1023 := by
    rw [BitVec.toNat_ofNat, Nat.mod_eq_of_lt (by omega)]
  have hpack : UnpackedFloat.pack .binary64 (.finite .positive m (j + -52) hm) =
      packComponents .binary64 .positive (BitVec.ofNat 11 (j + 1023)) (BitVec.ofNat 52 m) := by
    have hfits : ¬2 ^ Format.binary64.exponentBits ≤ j + 1023 + 1 := by
      change ¬2048 ≤ j + 1023 + 1
      omega
    have hbits : m.log2 + 1 = Format.binary64.mantissaBits := by rw [hlog]; rfl
    have hbias : ((j : Int) + -52 + Format.binary64.exponentBias +
        Format.binary64.mantissaBitsWithoutImplicit).toNat = j + 1023 := hbiased
    rw [UnpackedFloat.pack]
    simp only [hbias, if_neg hfits, if_pos hbits]
  change UnpackedFloat.unpack .binary64 (UnpackedFloat.pack .binary64 _) = _
  rw [hpack]
  have hfinite : BitVec.ofNat 11 (j + 1023) ≠ -1#11 := by
    intro heq
    have := congrArg BitVec.toNat heq
    rw [hexponent] at this
    have hmax : (-1#11).toNat = 2047 := rfl
    omega
  have hnormal : BitVec.ofNat 11 (j + 1023) ≠ 0#11 := by
    intro heq
    have := congrArg BitVec.toNat heq
    rw [hexponent] at this
    simp at this
  simp only [UnpackedFloat.unpack, unpackMantissa_packComponents, unpackExponent_packComponents,
    unpackSign_packComponents]
  rw [if_neg hfinite, if_neg hnormal]
  simp only [hexponent, toNat_append_full h, finite.injEq, true_and]
  refine ⟨rfl, ?_⟩
  change ((j + 1023 : Nat) : Int) - (1023 + 52) = j + -52
  omega

theorem unpack_one : (1.0 : Float).toModel.unpack = .finite .positive (2 ^ 52) (-52) (by decide) :=
  rfl

theorem holds_one : Holds (0.0 + 1.0) 1 :=
  ⟨2 ^ 52, 0, by decide, rfl, ⟨Nat.le_refl _, by decide⟩, by decide, by decide⟩

theorem normalize_pos {n : Nat} (hn : 0 < n) (e : Int) :
    UnpackedFloat.normalize .binary64 n e .positive =
      UnpackedFloat.round .binary64 .positive n e := by
  have hgt : compare (n : Int) 0 = .gt := Int.compare_eq_gt.mpr (by omega)
  simp only [UnpackedFloat.normalize, hgt, Int.toNat_natCast]

/-- Adding one is exact below the limit. -/
theorem Holds.succ {f : Float} {k : Nat} (h : Holds f k) (hk : k < countingLimit) :
    Holds (f + 1.0) (k + 1) := by
  obtain ⟨m, j, hm, hunpack, hfull, hj, hvalue⟩ := h
  obtain ⟨m', j', hfull', hj', hvalue'⟩ := exists_full (Nat.succ_pos k) hk
  have hm' : 0 < m' := Nat.lt_of_lt_of_le (by decide) hfull'.1
  refine ⟨m', j', hm', ?_, hfull', hj', hvalue'⟩
  have hadd : UnpackedFloat.add .binary64 (.finite .positive m (j + -52) hm)
      (.finite .positive (2 ^ 52) (-52) (by decide)) =
        UnpackedFloat.round .binary64 .positive (m' * 2 ^ j') (-52) := by
    have hmin : min ((j : Int) + -52) (-52) = -52 := by omega
    have hshift : ((j : Int) + -52 - -52).toNat = j := by omega
    have hsum : ((m <<< j : Nat) : Int) + ((2 ^ 52 : Nat) : Int) = (m' * 2 ^ j' : Nat) := by
      rw [Nat.shiftLeft_eq, hvalue, hvalue', Nat.succ_mul, Int.natCast_add]
    rw [UnpackedFloat.add]
    simp only [hmin, decreaseExponent, hshift, Sign.apply, Int.sub_self, Int.toNat_zero,
      Nat.shiftLeft_zero, hsum]
    exact normalize_pos (Nat.mul_pos hm' (by simp)) _
  change (Float.Model.pack
    (UnpackedFloat.add .binary64 f.toModel.unpack (1.0 : Float).toModel.unpack)).unpack = _
  rw [hunpack, unpack_one, hadd, round_full hfull' j' hm']
  exact unpack_pack_full hfull' hj' hm'

/-- A number that holds a natural number counts to it. -/
theorem Holds.count {f : Float} {k : Nat} (h : Holds f k) (hk : k ≤ countingLimit) :
    count f = k := by
  obtain ⟨m, j, hm, hunpack, hfull, hj, hvalue⟩ := h
  have hround : roundToInt .positive m (j + -52) = k := by
    unfold roundToInt
    rcases Nat.lt_or_eq_of_le hj with hlt | rfl
    · have hleft : ((j : Int) + -52).toNat = 0 := by omega
      have hright : (0 - ((j : Int) + -52)).toNat = 52 - j := by omega
      have hm : m = k * 2 ^ (52 - j) := by
        refine Nat.eq_of_mul_eq_mul_right (Nat.two_pow_pos j) ?_
        rw [hvalue, Nat.mul_assoc, ← Nat.pow_add, Nat.sub_add_cancel (by omega)]
      simp only [decreaseExponent, shiftToExponent, Int.sub_zero, hleft, Nat.shiftLeft_zero,
        Int.natCast_zero, hright,
        ExtendedMantissa.ofMantissaAndAccuracy, Sign.apply]
      rw [hm, shiftRight_exact]
    · have hm : m <<< 1 = k := by
        rw [Nat.shiftLeft_eq]
        omega
      change ((m <<< 1 : Nat) : Int) = k
      rw [hm]
  have hsmall : k < UInt64.size := Nat.lt_of_le_of_lt hk (by decide)
  change (UInt64.ofNatClamp
    (UnpackedFloat.toInt 0 (UInt64.size - 1) f.toModel.unpack).toNat).toNat = k
  rw [hunpack, UnpackedFloat.toInt, hround, Int.toNat_natCast, UInt64.ofNatClamp, dif_pos hsmall]
  exact UInt64.toNat_ofNatLT

/-- At the limit adding one changes nothing that can be seen. -/
theorem Holds.stay {f : Float} (h : Holds f countingLimit) : Holds (f + 1.0) countingLimit := by
  obtain ⟨m, j, hm, hunpack, hfull, hj, hvalue⟩ := h
  obtain rfl : j = 53 := by
    by_contra hne
    have hpow : 2 ^ j ≤ 2 ^ 52 := Nat.pow_le_pow_right (by decide) (by omega)
    have hlt : m * 2 ^ j < 2 ^ 53 * 2 ^ 52 := Nat.mul_lt_mul_of_lt_of_le hfull.2 hpow (by decide)
    exact absurd hvalue (Nat.ne_of_lt hlt)
  obtain rfl : m = 2 ^ 52 := by
    have : countingLimit = 2 ^ 53 := rfl
    omega
  refine ⟨2 ^ 52, 53, hm, ?_, hfull, hj, hvalue⟩
  have hadd : UnpackedFloat.add .binary64 (.finite .positive (2 ^ 52) ((53 : Nat) + -52) hm)
      (.finite .positive (2 ^ 52) (-52) (by decide)) = .finite .positive (2 ^ 52)
        ((53 : Nat) + -52) hm :=
    rfl
  change (Float.Model.pack
    (UnpackedFloat.add .binary64 f.toModel.unpack (1.0 : Float).toModel.unpack)).unpack = _
  rw [hunpack, unpack_one, hadd]
  exact unpack_pack_full hfull hj hm

/-- Counting reaches every number up to the limit and stands still there. -/
theorem holds_counted (k : Nat) : Holds (counted (k + 1)) (min (k + 1) countingLimit) := by
  induction k with
  | zero => exact holds_one
  | succ k ih =>
    rw [counted]
    rcases Nat.lt_or_ge (k + 1) countingLimit with hlt | hge
    · rw [Nat.min_eq_left (Nat.le_of_lt hlt)] at ih
      rw [Nat.min_eq_left hlt]
      exact ih.succ hlt
    · rw [Nat.min_eq_right hge] at ih
      rw [Nat.min_eq_right (Nat.le_succ_of_le hge)]
      exact ih.stay

/-- Counting by ones is exact up to the limit and stands still there. -/
theorem count_counted (k : Nat) : count (counted k) = min k countingLimit := by
  cases k with
  | zero => rfl
  | succ k => exact (holds_counted k).count (Nat.min_le_right _ _)

end Number

end HostScript
