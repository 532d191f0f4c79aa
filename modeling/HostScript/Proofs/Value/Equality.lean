import Mathlib
import HostScript.Value.Operation

/-!
# Equality of values

Equality of values is symmetric and transitive. It is not reflexive: a number that is not a number
differs from itself, and so does every value that has one somewhere inside. Arrays are compared
position by position, to any depth, and never by where they are stored.
-/

namespace HostScript

namespace Value

/-- What holds of every value that is no array, and of an array if it holds of its items,
holds of all values. -/
theorem induction {P : Value → Prop} (atom : ∀ v, (∀ items, v ≠ .array items) → P v)
    (array : ∀ items, (∀ v ∈ items, P v) → P (.array items)) : (v : Value) → P v
  | .void | .number _ | .string _ | .boolean _ | .object _ => atom _ nofun
  | .array items => array items fun v _ => induction atom array v

/-- Items are compared position by position. -/
theorem beqItems_iff (as bs : List Value) :
    beqItems as bs = true ↔
      as.length = bs.length ∧ ∀ (k : Nat) (a b : Value), as[k]? = some a → bs[k]? = some b →
      a.beq b = true := by
  induction as generalizing bs with
  | nil => cases bs <;> simp [beqItems]
  | cons a as ih =>
    cases bs with
    | nil => simp [beqItems]
    | cons b bs =>
      rw [beqItems, Bool.and_eq_true, ih, List.length_cons, List.length_cons,
        Nat.add_right_cancel_iff]
      constructor
      · rintro ⟨hhead, hlength, hitems⟩
        refine ⟨hlength, fun k x y hx hy => ?_⟩
        cases k with
        | zero =>
          obtain rfl := Option.some.inj hx
          obtain rfl := Option.some.inj hy
          exact hhead
        | succ k => exact hitems k x y hx hy
      · rintro ⟨hlength, hitems⟩
        exact ⟨hitems 0 a b rfl rfl, hlength, fun k x y hx hy => hitems (k + 1) x y hx hy⟩

/-- What two equal values have in common. -/
inductive Equal : Value → Value → Prop
  | void : Equal .void .void
  | number {x y : Float} (h : (x == y) = true) : Equal (.number x) (.number y)
  | string (s : String) : Equal (.string s) (.string s)
  | boolean (b : Bool) : Equal (.boolean b) (.boolean b)
  | object (id : ObjectId) : Equal (.object id) (.object id)
  | array {as bs : Array Value} (hsize : as.size = bs.size)
      (hitems : ∀ (k : Nat) (a b : Value), as[k]? = some a → bs[k]? = some b → (a == b) = true) :
      Equal (.array as) (.array bs)

/-- Equality is decided by kind and content. -/
theorem beq_iff {a b : Value} : (a == b) = true ↔ Equal a b := by
  change a.beq b = true ↔ Equal a b
  constructor
  · intro h
    cases a with
    | void =>
      cases b with
      | void => exact .void
      | _ => cases h
    | number x =>
      cases b with
      | number y => exact .number h
      | _ => cases h
    | string s =>
      cases b with
      | string t => exact beq_iff_eq.mp (show (s == t) = true from h) ▸ .string s
      | _ => cases h
    | boolean x =>
      cases b with
      | boolean y => exact beq_iff_eq.mp (show (x == y) = true from h) ▸ .boolean x
      | _ => cases h
    | object x =>
      cases b with
      | object y => exact beq_iff_eq.mp (show (x == y) = true from h) ▸ .object x
      | _ => cases h
    | array as =>
      cases b with
      | array bs =>
        obtain ⟨hlength, hitems⟩ := (beqItems_iff as.toList bs.toList).mp h
        refine .array hlength fun k a b ha hb => hitems k a b ?_ ?_
        · rwa [Array.getElem?_toList]
        · rwa [Array.getElem?_toList]
      | _ => cases h
  · intro h
    cases h with
    | void => rfl
    | number h => exact h
    | string s => exact beq_self_eq_true s
    | boolean b => exact beq_self_eq_true b
    | object id => exact beq_self_eq_true id
    | @array as bs hsize hitems =>
      refine (beqItems_iff as.toList bs.toList).mpr ⟨hsize, fun k a b ha hb => hitems k a b ?_ ?_⟩
      · rwa [Array.getElem?_toList] at ha
      · rwa [Array.getElem?_toList] at hb

/-- Equal values are of one kind. -/
theorem Equal.typeName_eq {a b : Value} (h : Equal a b) : a.typeName = b.typeName := by
  cases h <;> rfl

/-- Arrays are equal when they are equally long and equal position by position. -/
theorem array_beq_iff {as bs : Array Value} :
    (Value.array as == .array bs) = true ↔
      as.size = bs.size ∧
        ∀ (k : Nat) (a b : Value), as[k]? = some a → bs[k]? = some b → (a == b) = true := by
  rw [beq_iff]
  constructor
  · rintro ⟨⟩
    exact ⟨‹_›, ‹_›⟩
  · rintro ⟨hsize, hitems⟩
    exact .array hsize hitems

/-- Where an array has an item, every array of the same size has one. -/
theorem exists_item {as bs : Array Value} (h : as.size = bs.size) {k : Nat} {a : Value}
    (ha : as[k]? = some a) : ∃ b, bs[k]? = some b := by
  obtain ⟨hk, -⟩ := Array.getElem?_eq_some_iff.mp ha
  exact ⟨bs[k], Array.getElem?_eq_getElem (h ▸ hk)⟩

theorem beq_symm {a b : Value} (h : (a == b) = true) : (b == a) = true := by
  induction a using Value.induction generalizing b with
  | atom a hatom =>
    cases beq_iff.mp h with
    | number h => exact beq_iff.mpr (.number (PartialEquivBEq.symm h))
    | array => exact absurd rfl (hatom _)
    | _ => exact h
  | array as ih =>
    cases beq_iff.mp h with
    | array hsize hitems =>
      refine array_beq_iff.mpr ⟨hsize.symm, fun k x y hx hy => ?_⟩
      exact ih y (Array.mem_of_getElem? hy) (hitems k y x hy hx)

theorem beq_trans {a b c : Value} (hab : (a == b) = true) (hbc : (b == c) = true) :
    (a == c) = true := by
  induction a using Value.induction generalizing b c with
  | atom a hatom =>
    cases beq_iff.mp hab with
    | number hab =>
      cases beq_iff.mp hbc with
      | number hbc => exact beq_iff.mpr (.number (PartialEquivBEq.trans hab hbc))
    | array => exact absurd rfl (hatom _)
    | _ => exact hbc
  | array as ih =>
    cases beq_iff.mp hab with
    | array hsize hitems =>
      cases beq_iff.mp hbc with
      | array hsize' hitems' =>
        refine array_beq_iff.mpr ⟨hsize.trans hsize', fun k x z hx hz => ?_⟩
        obtain ⟨y, hy⟩ := exists_item hsize hx
        exact ih x (Array.mem_of_getElem? hx) (hitems k x y hx hy) (hitems' k y z hy hz)

/-- Whether a value is not a number or has one inside that is not a number. -/
inductive HasNaN : Value → Prop
  | number {n : Float} (h : n.isNaN = true) : HasNaN (.number n)
  | item {items : Array Value} {v : Value} (hv : v ∈ items) (h : HasNaN v) : HasNaN (.array items)

/-- A number equals itself unless it is not a number. -/
theorem number_beq_self_iff {n : Float} : (n == n) = true ↔ ¬n.isNaN = true := by
  rw [Float.beq_self_iff, Float.isNaN_eq_decide_eq_nan, decide_eq_true_eq]

/-- A value equals itself unless there is something in it that is not a number. -/
theorem beq_self_iff {a : Value} : (a == a) = true ↔ ¬a.HasNaN := by
  induction a using Value.induction with
  | atom a hatom =>
    cases a with
    | number n =>
      constructor
      · rintro h ⟨hnan⟩
        cases beq_iff.mp h with
        | number h => exact number_beq_self_iff.mp h hnan
      · intro h
        exact beq_iff.mpr (.number (number_beq_self_iff.mpr fun hnan => h (.number hnan)))
    | void => exact iff_of_true rfl nofun
    | string s => exact iff_of_true (beq_iff.mpr (.string s)) nofun
    | boolean b => exact iff_of_true (beq_iff.mpr (.boolean b)) nofun
    | object id => exact iff_of_true (beq_iff.mpr (.object id)) nofun
    | array items => exact absurd rfl (hatom items)
  | array items ih =>
    rw [array_beq_iff]
    constructor
    · rintro ⟨-, hitems⟩ (_ | ⟨hv, hnan⟩)
      obtain ⟨k, hk⟩ := Array.mem_iff_getElem?.mp hv
      exact (ih _ hv).mp (hitems k _ _ hk hk) hnan
    · intro h
      refine ⟨rfl, fun k x y hx hy => ?_⟩
      obtain rfl := Option.some.inj (hx.symm.trans hy)
      have hmem := Array.mem_of_getElem? hx
      exact (ih x hmem).mpr fun hnan => h (.item hmem hnan)

/-- Equality of values is a partial equivalence. It fails to be reflexive exactly where something is
not a number, at any depth; values of different kinds differ; numbers, strings and truth values are
compared by content, arrays by length and position by position, objects by identity; and the two
operators on any two values give this truth value and its opposite. -/
theorem beq_partialEquivalence :
    (∀ a b : Value, (a == b) = true → (b == a) = true) ∧
    (∀ a b c : Value, (a == b) = true → (b == c) = true → (a == c) = true) ∧
    (∀ a : Value, (a == a) = true ↔ ¬a.HasNaN) ∧
    (∀ a b : Value, a.typeName ≠ b.typeName → (a == b) = false) ∧
    (∀ x y : Float, (Value.number x == .number y) = (x == y)) ∧
    (∀ s t : String, (Value.string s == .string t) = true ↔ s = t) ∧
    (∀ x y : Bool, (Value.boolean x == .boolean y) = true ↔ x = y) ∧
    (∀ as bs : Array Value, (Value.array as == .array bs) = true ↔
      as.size = bs.size ∧ ∀ (k : Nat) (a b : Value), as[k]? = some a → bs[k]? = some b →
      (a == b) = true) ∧
    (∀ x y : ObjectId, (Value.object x == .object y) = true ↔ x = y) ∧
    (∀ a b : Value, BinaryOp.equals.apply a b = .ok (.boolean (a == b)) ∧
      BinaryOp.differs.apply a b = .ok (.boolean !(a == b))) := by
  refine ⟨fun a b => beq_symm, fun a b c => beq_trans, fun a => beq_self_iff, fun a b hkind => ?_,
    fun x y => rfl, fun s t => ?_, fun x y => ?_, fun as bs => array_beq_iff, fun x y => ?_,
    fun a b => ⟨rfl, rfl⟩⟩
  · rw [Bool.eq_false_iff]
    exact fun h => hkind (beq_iff.mp h).typeName_eq
  · exact beq_iff_eq (a := s)
  · exact beq_iff_eq (a := x)
  · exact beq_iff_eq (a := x)

/-- Inside arrays zeros of both signs are equal, whichever comes first, and a division of zero by
zero makes an array differ from itself. -/
theorem nestedZeros_beq :
    (Value.array #[.array #[.number 0.0]] == .array #[.array #[.number (-0.0)]]) = true ∧
      (Value.array #[.array #[.number (-0.0)]] == .array #[.array #[.number 0.0]]) = true ∧
      ¬(Value.array #[.array #[.number (0.0 / 0.0)]] == .array #[.array #[.number (0.0 / 0.0)]]) =
        true := by
  obtain ⟨hsymm, -, hself, -⟩ := beq_partialEquivalence
  have hzeros :
      (Value.array #[.array #[.number 0.0]] == .array #[.array #[.number (-0.0)]]) = true := by
    decide +kernel
  have hnan : (0.0 / 0.0 : Float).isNaN = true := by
    decide +kernel
  refine ⟨hzeros, hsymm _ _ hzeros, fun h => (hself _).mp h ?_⟩
  exact .item (Array.mem_singleton.mpr rfl) (.item (Array.mem_singleton.mpr rfl) (.number hnan))

end Value

end HostScript
