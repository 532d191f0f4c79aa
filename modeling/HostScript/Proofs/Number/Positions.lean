import Mathlib
import HostScript.Proofs.Number.Counting

/-!
# Numbers as positions

A finite number is a rational number. It denotes a position of an array when that rational number is
a natural number below the length. Numbers have 53 bits of precision, so a natural number below
2 ^ 53 is a number, and zero apart, which has two signs, only one. Fractions, numbers below zero,
infinities and what is not a number denote no position.
-/

namespace HostScript

open Float.Model UnpackedFloat

namespace Number

/-- The rational number that a finite number is. -/
def rational? (n : Float) : Option ℚ :=
  match n.toModel.unpack with
  | .zero _ => some 0
  | .finite sign m e _ => some (sign.apply m * 2 ^ e)
  | .infinity _ | .notANumber => none

theorem rational?_zero {n : Float} {sign : Sign} (h : n.toModel.unpack = .zero sign) :
    rational? n = some 0 := by
  rw [rational?, h]

theorem rational?_finite {n : Float} {sign : Sign} {m : Nat} {e : Int} {hm : 0 < m}
    (h : n.toModel.unpack = .finite sign m e hm) :
    rational? n = some ((sign.apply m : ℚ) * 2 ^ e) := by
  rw [rational?, h]

/-- What is infinite or not a number is no rational number, and all else is one. -/
theorem rational?_eq_none_iff {n : Float} :
    rational? n = none ↔ n.isNaN = true ∨ n.isInf = true := by
  change rational? n = none ↔ n.toModel.unpack.isNaN = true ∨ n.toModel.unpack.isInf = true
  unfold rational?
  cases n.toModel.unpack <;> simp [UnpackedFloat.isNaN, UnpackedFloat.isInf]

/-- Equal numbers are the same rational number. -/
theorem rational?_eq_of_beq {a b : Float} (h : (a == b) = true) : rational? a = rational? b := by
  have hbeq : a.toModel.unpack.beq b.toModel.unpack = true := h
  obtain ⟨-, -, heq | ⟨ha, hb⟩ | ⟨ha, hb⟩⟩ := (beq_iff_ne_notANumber_and_eq _ _).mp hbeq
  · rw [rational?, rational?, heq]
  · rw [rational?_zero ha, rational?_zero hb]
  · rw [rational?_zero ha, rational?_zero hb]

/-- What is not a number, infinite, below zero or a fraction is no natural number. -/
theorem rational?_ne_natCast {n : Float}
    (h : n.isNaN = true ∨ n.isInf = true ∨ ∃ q, rational? n = some q ∧ (q < 0 ∨ q.den ≠ 1))
    (k : Nat) : rational? n ≠ some (k : ℚ) := by
  intro hk
  obtain hnan | hinf | ⟨q, hq, hfraction⟩ := h
  · cases hk.symm.trans (rational?_eq_none_iff.mpr (.inl hnan))
  · cases hk.symm.trans (rational?_eq_none_iff.mpr (.inr hinf))
  · obtain rfl := Option.some.inj (hk.symm.trans hq)
    rcases hfraction with hnegative | hden
    · exact absurd hnegative (not_lt.mpr (Nat.cast_nonneg k))
    · exact hden (Rat.den_natCast k)

/-- A number that is a natural number is zero, or has a mantissa and a positive sign. -/
theorem unpack_of_rational?_natCast {n : Float} {k : Nat} (h : rational? n = some (k : ℚ)) :
    k = 0 ∧ (∃ sign, n.toModel.unpack = .zero sign) ∨
      0 < k ∧ ∃ m e hm, n.toModel.unpack = .finite .positive m e hm ∧ (m : ℚ) * 2 ^ e = k := by
  cases hunpack : n.toModel.unpack with
  | zero sign =>
    rw [rational?_zero hunpack, Option.some.injEq] at h
    exact .inl ⟨by exact_mod_cast h.symm, sign, rfl⟩
  | finite sign m e hm =>
    rw [rational?_finite hunpack, Option.some.injEq] at h
    have hpositive : (0 : ℚ) < (m : ℚ) * 2 ^ e := by positivity
    cases sign with
    | positive =>
      have hvalue : (m : ℚ) * 2 ^ e = k := by simpa [Sign.apply] using h
      rw [hvalue] at hpositive
      exact .inr ⟨by exact_mod_cast hpositive, m, e, hm, rfl, hvalue⟩
    | negative =>
      have hvalue : -((m : ℚ) * 2 ^ e) = k := by simpa [Sign.apply] using h
      have hk : (0 : ℚ) ≤ k := Nat.cast_nonneg k
      linarith
  | infinity sign => simp [rational?, hunpack] at h
  | notANumber => simp [rational?, hunpack] at h

section Mantissas

/-- A mantissa with its first bit in front is full. -/
theorem full_append (v : BitVec 52) : Full (1#1 ++ v).toNat := by
  have hv := v.isLt
  rw [BitVec.toNat_append, ← Nat.shiftLeft_add_eq_or_of_lt hv]
  constructor
  · exact Nat.le_add_right _ _
  · change 2 ^ 52 + v.toNat < 2 ^ 53
    omega

/-- Numbers have full mantissas, except those next to zero. -/
theorem full_or_of_unpack {n : Float} {sign : Sign} {m : Nat} {e : Int} {hm : 0 < m}
    (h : n.toModel.unpack = .finite sign m e hm) : Full m ∨ m < 2 ^ 52 ∧ e = -1074 := by
  change UnpackedFloat.unpack .binary64 _ = _ at h
  unfold UnpackedFloat.unpack at h
  dsimp only at h
  split at h
  · split at h <;> cases h
  · split at h
    next hzero =>
      split at h
      · cases h
      · obtain ⟨-, rfl, rfl⟩ := finite.inj h
        refine .inr ⟨BitVec.isLt _, ?_⟩
        rw [hzero]
        rfl
    · obtain ⟨-, rfl, -⟩ := finite.inj h
      exact .inl (full_append _)

/-- A number from one on has an exponent that is not too small. -/
theorem exponent_gt {m : Nat} {e : Int} (hm : m < 2 ^ 53) (h : 1 ≤ (m : ℚ) * 2 ^ e) : -53 < e := by
  by_contra hle
  have hm' : (m : ℚ) < 2 ^ 53 := by exact_mod_cast hm
  have hpow : (2 : ℚ) ^ e ≤ 2 ^ (-53 : ℤ) := zpow_le_zpow_right₀ (by norm_num) (by omega)
  have hsmall : (m : ℚ) * 2 ^ e < 1 := by
    calc (m : ℚ) * 2 ^ e ≤ m * 2 ^ (-53 : ℤ) := by gcongr
      _ < 2 ^ 53 * 2 ^ (-53 : ℤ) := by gcongr
      _ = 1 := by norm_num
  linarith

/-- A number below 2 ^ 53 with a full mantissa has no positive exponent. -/
theorem exponent_le {m : Nat} {e : Int} (hm : 2 ^ 52 ≤ m) (h : (m : ℚ) * 2 ^ e < 2 ^ 53) :
    e ≤ 0 := by
  by_contra hlt
  have hm' : (2 : ℚ) ^ 52 ≤ m := by exact_mod_cast hm
  have hpow : (2 : ℚ) ^ (1 : ℤ) ≤ 2 ^ e := zpow_le_zpow_right₀ (by norm_num) (by omega)
  have hlarge : (2 : ℚ) ^ 52 * 2 ^ (1 : ℤ) ≤ m * 2 ^ e := by gcongr
  have htwo : (2 : ℚ) ^ 52 * 2 ^ (1 : ℤ) = 2 ^ 53 := by norm_num
  linarith

end Mantissas

/-- A number that is a positive natural number below 2 ^ 53 holds it. -/
theorem holds_of_rational? {n : Float} {k : Nat} (hpos : 0 < k) (hlt : k < countingLimit)
    (h : rational? n = some (k : ℚ)) : Holds n k := by
  obtain ⟨rfl, -⟩ | ⟨-, m, e, hm, hunpack, hvalue⟩ := unpack_of_rational?_natCast h
  · exact absurd hpos (Nat.lt_irrefl 0)
  have hone : 1 ≤ (m : ℚ) * 2 ^ e := by
    rw [hvalue]
    exact_mod_cast hpos
  have hlimit : (m : ℚ) * 2 ^ e < 2 ^ 53 := by
    rw [hvalue]
    exact_mod_cast hlt
  rcases full_or_of_unpack hunpack with hfull | ⟨hsmall, rfl⟩
  · have hlow := exponent_gt hfull.2 hone
    have hhigh := exponent_le hfull.1 hlimit
    obtain ⟨j, rfl⟩ : ∃ j : Nat, e = j + -52 := ⟨(e + 52).toNat, by omega⟩
    refine ⟨m, j, hm, hunpack, hfull, by omega, ?_⟩
    have hshifted : (m : ℚ) * 2 ^ j = k * 2 ^ 52 := by
      rw [← hvalue, zpow_add₀ (by norm_num), zpow_natCast]
      ring
    exact_mod_cast hshifted
  · -- Next to zero there is no natural number but zero.
    have hlow := exponent_gt (Nat.lt_trans hsmall (by norm_num)) hone
    omega

/-- Numbers that hold the same natural number are the same. -/
theorem Holds.unpack_eq {f g : Float} {k : Nat} (hf : Holds f k) (hg : Holds g k) :
    f.toModel.unpack = g.toModel.unpack := by
  obtain ⟨m, j, hm, hunpack, hfull, -, hvalue⟩ := hf
  obtain ⟨m', j', hm', hunpack', hfull', -, hvalue'⟩ := hg
  have hsame : m * 2 ^ j = m' * 2 ^ j' := hvalue.trans hvalue'.symm
  obtain rfl : j = j' := by
    have hlog := log2_full hfull j
    rw [hsame, log2_full hfull'] at hlog
    omega
  obtain rfl : m = m' := Nat.eq_of_mul_eq_mul_right (Nat.two_pow_pos j) hsame
  rw [hunpack, hunpack']

/-- A number that holds a natural number is that rational number. -/
theorem Holds.rational?_eq {f : Float} {k : Nat} (h : Holds f k) : rational? f = some (k : ℚ) := by
  obtain ⟨m, j, hm, hunpack, -, -, hvalue⟩ := h
  have hvalue' : (m : ℚ) * 2 ^ j = k * 2 ^ 52 := by exact_mod_cast hvalue
  have hsign : Sign.apply .positive (m : Int) = m := rfl
  rw [rational?_finite hunpack, hsign, Int.cast_natCast, zpow_add₀ (by norm_num), zpow_natCast,
    ← mul_assoc, hvalue']
  congr 1
  norm_num
  ring

section Conversion

/-- A number that becomes full when it is shifted by `i` has 53 bits but `i`. -/
theorem log2_of_full {k i : Nat} (h : Full (k * 2 ^ i)) (hi : i ≤ 52) : k.log2 = 52 - i := by
  have hpow : 2 ^ (52 - i) * 2 ^ i = 2 ^ 52 := by rw [← Nat.pow_add, Nat.sub_add_cancel hi]
  have hk : k ≠ 0 := by
    rintro rfl
    exact absurd h.1 (by simp)
  rw [Nat.log2_eq_iff hk]
  constructor
  · apply Nat.le_of_mul_le_mul_right _ (Nat.two_pow_pos i)
    rw [hpow]
    exact h.1
  · apply Nat.lt_of_mul_lt_mul_right (a := 2 ^ i)
    calc k * 2 ^ i < 2 ^ 52 * 2 := h.2
      _ = 2 ^ (52 - i + 1) * 2 ^ i := by rw [← hpow, Nat.pow_succ, Nat.mul_right_comm]

/-- A natural number is rounded to a full mantissa without loss. -/
theorem round_shifted {k i : Nat} (h : Full (k * 2 ^ i)) (hi : i ≤ 52) (hm : 0 < k * 2 ^ i) :
    UnpackedFloat.round .binary64 .positive k 0 = .finite .positive (k * 2 ^ i) (-i) hm := by
  have hlog := log2_of_full h hi
  have htarget : Format.binary64.targetExponent (totalExponent k 0) = -i := by
    simp only [Format.targetExponent, totalExponent, Format.mantissaBits, Format.minExponent]
    omega
  have hround := roundWithAccuracy_full h 0 (show (-1000 : Int) ≤ -i by omega) hm
  have hshift : (0 - -(i : Int)).toNat = i := by omega
  have hexponent : (0 - (i : Int)) = -i := by omega
  simp only [Nat.pow_zero, Nat.mul_one, Int.natCast_zero, Int.zero_add] at hround
  simp only [UnpackedFloat.round, htarget, decreaseExponent, hshift, hexponent,
    Nat.shiftLeft_eq, hround]

/-- The word of a positive natural number below 2 ^ 53 is converted without loss. -/
theorem holds_toFloat {k : Nat} (hpos : 0 < k) (hlt : k < countingLimit) :
    Holds k.toUInt64.toFloat k := by
  obtain ⟨m, j, hfull, hj, hvalue⟩ := exists_full hpos (Nat.le_of_lt hlt)
  have hlimit : countingLimit = 2 ^ 53 := rfl
  have hj' : j ≤ 52 := by
    by_contra hgt
    obtain rfl : j = 53 := by omega
    have hfirst := hfull.1
    omega
  obtain rfl : m = k * 2 ^ (52 - j) := by
    refine Nat.eq_of_mul_eq_mul_right (Nat.two_pow_pos j) ?_
    rw [hvalue, Nat.mul_assoc, ← Nat.pow_add, Nat.sub_add_cancel hj']
  have hm : 0 < k * 2 ^ (52 - j) := Nat.mul_pos hpos (Nat.two_pow_pos _)
  have hword : k.toUInt64.toNat = k := Nat.mod_eq_of_lt (Nat.lt_trans hlt (by decide))
  have hexponent : (-((52 - j : Nat) : Int)) = j + -52 := by omega
  have hround : UnpackedFloat.ofUInt64 .binary64 k.toUInt64 = .finite .positive (k * 2 ^ (52 - j))
      (j + -52) hm := by
    rw [UnpackedFloat.ofUInt64, UnpackedFloat.ofNat, UnpackedFloat.ofInt, hword, normalize_pos hpos,
      round_shifted hfull (Nat.sub_le 52 j) hm, hexponent]
  refine ⟨_, j, hm, ?_, hfull, hj, hvalue⟩
  change (Float.Model.pack (UnpackedFloat.ofUInt64 .binary64 k.toUInt64)).unpack = _
  rw [hround]
  exact unpack_pack_full hfull hj hm

/-- A natural number below 2 ^ 53 is converted by way of a word, which is multiplied by one. -/
theorem unpack_ofNat {k : Nat} (hlt : k < countingLimit) :
    (Float.ofNat k).toModel.unpack =
      (Float.Model.pack (UnpackedFloat.mul .binary64 k.toUInt64.toFloat.toModel.unpack
        (.finite .positive (2 ^ 52) (-52) (by decide)))).unpack := by
  have hone : Float.exactlyRepresentablePowersOfTen[0].toModel.unpack =
      .finite .positive (2 ^ 52) (-52) (by decide) := rfl
  change (Float.ofScientific k false 0).toModel.unpack = _
  rw [Float.ofScientific, dif_pos ⟨hlt, by decide⟩, ← hone]
  rfl

/-- A positive natural number below 2 ^ 53 is converted without loss. -/
theorem holds_ofNat {k : Nat} (hpos : 0 < k) (hlt : k < countingLimit) :
    Holds (Float.ofNat k) k := by
  obtain ⟨m, j, hm, hunpack, hfull, hj, hvalue⟩ := holds_toFloat hpos hlt
  refine ⟨m, j, hm, ?_, hfull, hj, hvalue⟩
  have hexponent : ((52 : Nat) : Int) + ((j : Int) + -52 + -52) = j + -52 := by omega
  have hmul : UnpackedFloat.mul .binary64 (.finite .positive m (j + -52) hm)
      (.finite .positive (2 ^ 52) (-52) (by decide)) = .finite .positive m (j + -52) hm := by
    change roundWithAccuracy .binary64 .positive (m * 2 ^ 52) (j + -52 + -52) .exact = _
    rw [roundWithAccuracy_full hfull 52 (by omega) hm, hexponent]
  rw [unpack_ofNat hlt, hunpack, hmul]
  exact unpack_pack_full hfull hj hm

end Conversion

/-- A natural number below 2 ^ 53 is a number. -/
theorem rational?_ofNat {k : Nat} (hlt : k < countingLimit) :
    rational? (Float.ofNat k) = some (k : ℚ) := by
  rcases Nat.eq_zero_or_pos k with rfl | hpos
  · have hunpack : (Float.ofNat 0).toModel.unpack = .zero .positive := rfl
    exact rational?_zero hunpack
  · exact (holds_ofNat hpos hlt).rational?_eq

/-- A number that is a natural number below 2 ^ 53 counts to it. -/
theorem count_of_rational? {n : Float} {k : Nat} (hlt : k < countingLimit)
    (h : rational? n = some (k : ℚ)) : count n = k := by
  obtain ⟨rfl, sign, hunpack⟩ | ⟨hpos, -⟩ := unpack_of_rational?_natCast h
  · change (UInt64.ofNatClamp
      (UnpackedFloat.toInt 0 (UInt64.size - 1) n.toModel.unpack).toNat).toNat = 0
    rw [hunpack]
    rfl
  · exact (holds_of_rational? hpos hlt h).count (Nat.le_of_lt hlt)

/-- A number that is a natural number below 2 ^ 53 is equal to it. -/
theorem ofNat_beq_of_rational? {n : Float} {k : Nat} (hlt : k < countingLimit)
    (h : rational? n = some (k : ℚ)) : (Float.ofNat k == n) = true := by
  change (Float.ofNat k).toModel.unpack.beq n.toModel.unpack = true
  obtain ⟨rfl, sign, hunpack⟩ | ⟨hpos, -⟩ := unpack_of_rational?_natCast h
  · rw [hunpack]
    rfl
  · have hholds := holds_of_rational? hpos hlt h
    rw [(holds_ofNat hpos hlt).unpack_eq hholds]
    obtain ⟨m, j, hm, hunpack, -⟩ := hholds
    rw [hunpack, beq_iff_ne_notANumber_and_eq]
    exact ⟨nofun, nofun, .inl rfl⟩

/-- A number denotes the position that it is equal to as a rational number. -/
theorem position?_eq_some_iff {n : Float} {length : Nat} (hlength : length < countingLimit)
    {k : Fin length} : position? n length = some k ↔ rational? n = some (k.val : ℚ) := by
  have hlimit : k.val < countingLimit := Nat.lt_trans k.isLt hlength
  unfold position?
  constructor
  · intro h
    split at h
    next hcount =>
      split at h
      next hbeq =>
        obtain rfl := Option.some.inj h
        rw [← rational?_eq_of_beq hbeq]
        exact rational?_ofNat hlimit
      · cases h
    · cases h
  · intro h
    have hcount := count_of_rational? hlimit h
    have hbelow : count n < length := by
      rw [hcount]
      exact k.isLt
    have hbeq : (Float.ofNat (count n) == n) = true := by
      rw [hcount]
      exact ofNat_beq_of_rational? hlimit h
    rw [dif_pos hbelow, if_pos hbeq]
    exact congrArg some (Fin.ext hcount)

end Number

end HostScript
