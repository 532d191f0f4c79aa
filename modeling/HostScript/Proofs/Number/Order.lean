import Mathlib
import HostScript.Proofs.Number.Positions

/-!
# The order of numbers

Numbers are ordered as the rational numbers that they are, between an infinity at each end. A zero
of either sign is the rational number zero, and what is not a number has no place in the order.

A finite number is kept as a mantissa and an exponent, and compared by the exponent first. That is
right because a mantissa has all its bits unless the exponent is the least one, so that a number
with a larger exponent is larger.
-/

namespace HostScript

open Float.Model UnpackedFloat

namespace Number

/-- The rational number or infinity that a number is, if it is one. -/
def extended? (n : Float) : Option (WithBot (WithTop ℚ)) :=
  match n.toModel.unpack with
  | .zero _ => some ((0 : ℚ) : WithTop ℚ)
  | .finite sign m e _ => some ((sign.apply m * 2 ^ e : ℚ) : WithTop ℚ)
  | .infinity .positive => some ⊤
  | .infinity .negative => some ⊥
  | .notANumber => none

/-- A number has a place in the order unless it is not a number. -/
theorem extended?_eq_none_iff {n : Float} : extended? n = none ↔ n.isNaN = true := by
  change extended? n = none ↔ n.toModel.unpack.isNaN = true
  unfold extended?
  split <;> simp [*, UnpackedFloat.isNaN]

section Magnitudes

/-- An exponent field that is not zero stands for an exponent from -1074 on. -/
theorem exponent_ge_of_field {field : BitVec 11} (h : field ≠ 0#11) :
    -1074 ≤ (field.toNat : Int) - (1023 + 52) := by
  have hpos : field.toNat ≠ 0 := fun hzero => h (BitVec.eq_of_toNat_eq hzero)
  omega

/-- The least exponent is that of the numbers next to zero. -/
theorem exponent_ge_of_unpack {n : Float} {sign : Sign} {m : Nat} {e : Int} {hm : 0 < m}
    (h : n.toModel.unpack = .finite sign m e hm) : -1074 ≤ e := by
  change UnpackedFloat.unpack .binary64 _ = _ at h
  unfold UnpackedFloat.unpack at h
  dsimp only at h
  split at h
  · split at h <;> cases h
  · split at h
    next hzero =>
      split at h
      · cases h
      · obtain ⟨-, -, rfl⟩ := finite.inj h
        rw [hzero]
        decide
    next hfield =>
      obtain ⟨-, -, rfl⟩ := finite.inj h
      exact exponent_ge_of_field hfield

/-- Whether a mantissa and an exponent are those of a number. -/
structure Proper (m : Nat) (e : Int) : Prop where
  lt : m < 2 ^ 53
  exponent_ge : -1074 ≤ e
  full : -1074 < e → 2 ^ 52 ≤ m

theorem proper_of_unpack {n : Float} {sign : Sign} {m : Nat} {e : Int} {hm : 0 < m}
    (h : n.toModel.unpack = .finite sign m e hm) : Proper m e := by
  have hlow := exponent_ge_of_unpack h
  rcases full_or_of_unpack h with hfull | ⟨hsmall, rfl⟩
  · exact ⟨hfull.2, hlow, fun _ => hfull.1⟩
  · exact ⟨Nat.lt_trans hsmall (by norm_num), hlow, fun hlt => absurd hlt (lt_irrefl _)⟩

variable {m m' : Nat} {e e' : Int}

/-- Of two magnitudes the one with the smaller exponent is smaller. -/
theorem Proper.lt_of_exponent_lt (h : Proper m e) (h' : Proper m' e') (hlt : e < e') :
    (m : ℚ) * 2 ^ e < m' * 2 ^ e' := by
  have hm : (m : ℚ) < 2 ^ 53 := by exact_mod_cast h.lt
  have hm' : (2 : ℚ) ^ 52 ≤ m' := by exact_mod_cast h'.full (lt_of_le_of_lt h.exponent_ge hlt)
  have hpow : (2 : ℚ) ^ (e + 1) ≤ 2 ^ e' := zpow_le_zpow_right₀ (by norm_num) hlt
  calc (m : ℚ) * 2 ^ e < 2 ^ 53 * 2 ^ e := by gcongr
    _ = 2 ^ 52 * 2 ^ (e + 1) := by rw [zpow_add_one₀ (by norm_num)]; ring
    _ ≤ m' * 2 ^ e' := by gcongr

/-- Magnitudes are compared by exponent, then by mantissa. -/
theorem Proper.compare_eq (h : Proper m e) (h' : Proper m' e') :
    (compare e e').then (compare m m') = compare ((m : ℚ) * 2 ^ e) (m' * 2 ^ e') := by
  rcases lt_trichotomy e e' with hlt | rfl | hgt
  · rw [compare_lt_iff_lt.mpr hlt, compare_lt_iff_lt.mpr (h.lt_of_exponent_lt h' hlt)]
    rfl
  · have hpos : (0 : ℚ) < 2 ^ e := by positivity
    have hmono : StrictMono fun k : Nat => (k : ℚ) * 2 ^ e := fun a b hlt =>
      mul_lt_mul_of_pos_right (Nat.cast_lt.mpr hlt) hpos
    rw [compare_eq_iff_eq.mpr rfl, Ordering.eq_then, ← cmp_eq_compare, ← cmp_eq_compare]
    exact (hmono.cmp_map_eq m m').symm
  · rw [compare_gt_iff_gt.mpr hgt, compare_gt_iff_gt.mpr (h'.lt_of_exponent_lt h hgt)]
    rfl

end Magnitudes

section Places

theorem compare_coe (p q : ℚ) :
    compare ((p : WithTop ℚ) : WithBot (WithTop ℚ))
      ((q : WithTop ℚ) : WithBot (WithTop ℚ)) = compare p q := by
  have hmono : StrictMono fun p : ℚ => ((p : WithTop ℚ) : WithBot (WithTop ℚ)) :=
    WithBot.coe_strictMono.comp WithTop.coe_strictMono
  rw [← cmp_eq_compare, ← cmp_eq_compare]
  exact hmono.cmp_map_eq p q

theorem compare_neg (p q : ℚ) : compare (-p) (-q) = (compare p q).swap := by
  rcases lt_trichotomy p q with hlt | rfl | hgt
  · rw [compare_lt_iff_lt.mpr hlt, compare_gt_iff_gt.mpr (neg_lt_neg hlt)]
    rfl
  · rw [compare_eq_iff_eq.mpr rfl, compare_eq_iff_eq.mpr rfl]
    rfl
  · rw [compare_gt_iff_gt.mpr hgt, compare_lt_iff_lt.mpr (neg_lt_neg hgt)]
    rfl

theorem signed_positive (m : Nat) (e : Int) :
    ((Sign.positive.apply m : Int) : ℚ) * 2 ^ e = m * 2 ^ e := by
  rw [Sign.apply, Int.cast_natCast]

theorem signed_negative (m : Nat) (e : Int) :
    ((Sign.negative.apply m : Int) : ℚ) * 2 ^ e = -(m * 2 ^ e) := by
  rw [Sign.apply, Int.cast_neg, Int.cast_natCast, neg_mul]

/-- Numbers are compared by their places in the order. -/
theorem compare_unpack_eq (a b : Float) :
    a.toModel.unpack.compare b.toModel.unpack =
      (extended? a).bind fun p => (extended? b).map (compare p) := by
  unfold extended?
  cases ha : a.toModel.unpack with
  | notANumber => rfl
  | infinity s =>
    cases b.toModel.unpack with
    | infinity s' => cases s <;> cases s' <;> rfl
    | _ => cases s <;> rfl
  | zero s =>
    cases b.toModel.unpack with
    | infinity s' => cases s' <;> rfl
    | finite s' m' e' hm' =>
      have hpos : (0 : ℚ) < m' * 2 ^ e' := by positivity
      cases s' with
      | positive =>
        rw [Option.bind_some, Option.map_some, compare_coe, signed_positive,
          compare_lt_iff_lt.mpr hpos]
        rfl
      | negative =>
        rw [Option.bind_some, Option.map_some, compare_coe, signed_negative,
          compare_gt_iff_gt.mpr (neg_lt_zero.mpr hpos)]
        rfl
    | _ => rfl
  | finite s m e hm =>
    have hpos : (0 : ℚ) < m * 2 ^ e := by positivity
    cases hb : b.toModel.unpack with
    | notANumber => cases s <;> rfl
    | infinity s' => cases s <;> cases s' <;> rfl
    | zero s' =>
      cases s with
      | positive =>
        rw [Option.bind_some, Option.map_some, compare_coe, signed_positive,
          compare_gt_iff_gt.mpr hpos]
        rfl
      | negative =>
        rw [Option.bind_some, Option.map_some, compare_coe, signed_negative,
          compare_lt_iff_lt.mpr (neg_lt_zero.mpr hpos)]
        rfl
    | finite s' m' e' hm' =>
      have hpos' : (0 : ℚ) < m' * 2 ^ e' := by positivity
      have hmagnitude := (proper_of_unpack ha).compare_eq (proper_of_unpack hb)
      rw [Option.bind_some, Option.map_some, compare_coe]
      cases s <;> cases s' <;> simp only [signed_positive, signed_negative]
      · rw [compare_neg, ← hmagnitude]
        rfl
      · rw [compare_lt_iff_lt.mpr ((neg_lt_zero.mpr hpos).trans hpos')]
        rfl
      · rw [compare_gt_iff_gt.mpr ((neg_lt_zero.mpr hpos').trans hpos)]
        rfl
      · rw [← hmagnitude]
        rfl

theorem lt_iff_compare_unpack {a b : Float} :
    a < b ↔ a.toModel.unpack.compare b.toModel.unpack = some .lt := by
  change decide (a.toModel < b.toModel) = true ↔ _
  rw [decide_eq_true_iff]
  exact beq_iff_eq

theorem beq_iff_compare_unpack {a b : Float} :
    (a == b) = true ↔ a.toModel.unpack.compare b.toModel.unpack = some .eq := by
  change (a.toModel.unpack.compare b.toModel.unpack == some .eq) = true ↔ _
  exact beq_iff_eq

/-- The order of numbers is that of their places. -/
theorem order_eq (a b : Float) :
    order a b = (extended? a).bind fun p => (extended? b).map (compare p) := by
  have hlt := lt_iff_compare_unpack (a := a) (b := b)
  have hgt := lt_iff_compare_unpack (a := b) (b := a)
  have hbeq := beq_iff_compare_unpack (a := a) (b := b)
  rw [compare_unpack_eq] at hlt hgt hbeq
  unfold order
  cases ha : extended? a with
  | none => simp [hlt, hgt, hbeq, ha, GT.gt]
  | some p =>
    cases hb : extended? b with
    | none => simp [hlt, hgt, hbeq, ha, hb, GT.gt]
    | some q =>
      simp only [ha, hb, Option.bind_some, Option.map_some, Option.some.injEq] at hlt hgt hbeq ⊢
      rw [compare_lt_iff_lt] at hlt hgt
      rw [compare_eq_iff_eq] at hbeq
      rcases lt_trichotomy p q with h | rfl | h
      · rw [if_pos (hlt.mpr h), compare_lt_iff_lt.mpr h]
      · rw [if_neg (mt hlt.mp (lt_irrefl p)), if_neg (mt hgt.mp (lt_irrefl p)),
          if_pos (hbeq.mpr rfl), compare_eq_iff_eq.mpr rfl]
      · rw [if_neg (mt hlt.mp (lt_asymm h)), if_pos (hgt.mpr h), compare_gt_iff_gt.mpr h]

/-- Numbers are equal when they have the same place. -/
theorem beq_eq_order (a b : Float) : (a == b) = (order a b == some .eq) := by
  rw [order_eq, ← compare_unpack_eq]
  rfl

/-- The order of two numbers the other way round. -/
theorem order_swap (a b : Float) : order b a = (order a b).map Ordering.swap := by
  rw [order_eq, order_eq]
  cases extended? a <;> cases extended? b <;> simp [← cmp_eq_compare, cmp_swap]

/-- Two numbers have an order unless one of them is not a number. -/
theorem order_eq_none_iff {a b : Float} : order a b = none ↔ a.isNaN = true ∨ b.isNaN = true := by
  rw [order_eq, ← extended?_eq_none_iff, ← extended?_eq_none_iff]
  cases extended? a <;> cases extended? b <;> simp

end Places

end Number

end HostScript
