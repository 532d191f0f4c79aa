import Mathlib
import HostScript.Proofs.Number.Order
import HostScript.Proofs.Text.Utf8
import HostScript.Proofs.Value.Equality

/-!
# Comparison of values

Two numbers and two strings have an order, and no other two values do. The four orderings are read
off that order, while the two equalities are decided on their own. All the same the six belong
together: what is equal is neither less nor more, and one of the three always holds, except where
something is not a number.
-/

namespace HostScript

/-- The comparisons that need an order. -/
def BinaryOp.orderings : List BinaryOp :=
  [.less, .more, .lessOrEqual, .greaterOrEqual]

/-- Whether an operator gives true on two values. -/
def BinaryOp.Holds (op : BinaryOp) (a b : Value) : Prop :=
  op.apply a b = .ok (.boolean true)

namespace Value

/-- Two numbers or two strings. -/
inductive Comparable : Value → Value → Prop
  | numbers (x y : Float) : Comparable (.number x) (.number y)
  | strings (s t : String) : Comparable (.string s) (.string t)

/-- Whether the six comparisons of two values give the truth values that belong together. -/
structure Compares (a b : Value) (lt eq gt : Bool) : Prop where
  less : BinaryOp.less.apply a b = .ok (.boolean lt)
  more : BinaryOp.more.apply a b = .ok (.boolean gt)
  lessOrEqual : BinaryOp.lessOrEqual.apply a b = .ok (.boolean (lt || eq))
  greaterOrEqual : BinaryOp.greaterOrEqual.apply a b = .ok (.boolean (gt || eq))
  equals : BinaryOp.equals.apply a b = .ok (.boolean eq)
  differs : BinaryOp.differs.apply a b = .ok (.boolean !eq)

/-- Values without an order are refused by all orderings alike. -/
theorem orderings_refuse {a b : Value} {fault : Fault} (h : order a b = .error fault)
    {op : BinaryOp} (hop : op ∈ BinaryOp.orderings) : op.apply a b = .error fault := by
  simp only [BinaryOp.orderings, List.mem_cons, List.not_mem_nil, or_false] at hop
  rcases hop with rfl | rfl | rfl | rfl <;> simp only [BinaryOp.apply, ordered, h, Except.map]

/-- Only two numbers or two strings have an order. -/
theorem order_of_not_comparable {a b : Value} (h : ¬Comparable a b) :
    ∃ fault, order a b = .error fault := by
  cases a with
  | number x =>
    cases b with
    | number y => exact absurd (.numbers x y) h
    | _ => exact ⟨_, rfl⟩
  | string s =>
    cases b with
    | string t => exact absurd (.strings s t) h
    | _ => exact ⟨_, rfl⟩
  | _ => exact ⟨_, rfl⟩

/-- Where there is an order that agrees with equality, the comparisons belong together. -/
theorem compares_of_order {a b : Value} {o : Option Ordering} (horder : order a b = .ok o)
    (hequal : (a == b) = (o == some .eq)) :
    Compares a b (o == some .lt) (o == some .eq) (o == some .gt) := by
  constructor <;> simp only [BinaryOp.apply, ordered, horder, Except.map, bne, hequal]

theorem hasNaN_number_iff {n : Float} : HasNaN (.number n) ↔ n.isNaN = true :=
  ⟨fun | .number h => h, .number⟩

/-- How two values that have an order stand to each other: seen from the other side the order is
reversed, equality agrees with it, and it is missing where something is not a number. -/
theorem Comparable.exists_order {a b : Value} (h : Comparable a b) :
    ∃ o, order a b = .ok o ∧ order b a = .ok (o.map Ordering.swap) ∧ (a == b) = (o == some .eq) ∧
      (o = none ↔ a.HasNaN ∨ b.HasNaN) := by
  cases h with
  | numbers x y =>
    refine ⟨Number.order x y, rfl, congrArg Except.ok (Number.order_swap x y),
      Number.beq_eq_order x y, ?_⟩
    rw [hasNaN_number_iff, hasNaN_number_iff]
    exact Number.order_eq_none_iff
  | strings s t =>
    have hswap : compare t s = (compare s t).swap := by
      rw [← cmp_eq_compare, ← cmp_eq_compare, cmp_swap]
    have hequal : (s == t) = (some (compare s t) == some .eq) := by
      rw [Bool.eq_iff_iff, beq_iff_eq, beq_iff_eq, Option.some.injEq, compare_eq_iff_eq]
    refine ⟨some (compare s t), rfl, congrArg (fun o => Except.ok (some o)) hswap, hequal, ?_⟩
    exact iff_of_false nofun (by rintro (h | h) <;> cases h)

/-- Seen from the other side less and more change places, and equal stays. -/
theorem compares_swap {o : Option Ordering} :
    (o.map Ordering.swap == some .lt) = (o == some .gt) ∧
      (o.map Ordering.swap == some .eq) = (o == some .eq) ∧
      (o.map Ordering.swap == some .gt) = (o == some .lt) := by
  rcases o with _ | _ | _ | _ <;> decide

/-- What it means that one value is less than another: a number of a lower place, or a string
before another one. -/
inductive Less : Value → Value → Prop
  | number {x y : Float} {p q : WithBot (WithTop ℚ)} (hx : Number.extended? x = some p)
      (hy : Number.extended? y = some q) (h : p < q) : Less (.number x) (.number y)
  | string {s t : String} (h : s < t) : Less (.string s) (.string t)

theorem Less.trans {a b c : Value} (hab : Less a b) (hbc : Less b c) : Less a c := by
  cases hab with
  | number hx hy hlt =>
    cases hbc with
    | number hy' hz hlt' =>
      obtain rfl := Option.some.inj (hy.symm.trans hy')
      exact .number hx hz (hlt.trans hlt')
  | string hlt =>
    cases hbc with
    | string hlt' => exact .string (hlt.trans hlt')

theorem less_holds_iff_order {a b : Value} :
    BinaryOp.less.Holds a b ↔ order a b = .ok (some .lt) := by
  unfold BinaryOp.Holds BinaryOp.apply ordered
  cases order a b <;> simp [Except.map]

/-- The operator for less holds of the values that are less. -/
theorem less_holds_iff {a b : Value} : BinaryOp.less.Holds a b ↔ Less a b := by
  rw [less_holds_iff_order]
  constructor
  · intro h
    have hcomparable : Comparable a b := by
      by_contra hnot
      obtain ⟨fault, hfault⟩ := order_of_not_comparable hnot
      cases hfault.symm.trans h
    cases hcomparable with
    | numbers x y =>
      rw [order, Except.ok.injEq, Number.order_eq, Option.bind_eq_some_iff] at h
      obtain ⟨p, hx, h⟩ := h
      obtain ⟨q, hy, hlt⟩ := Option.map_eq_some_iff.mp h
      exact .number hx hy (compare_lt_iff_lt.mp hlt)
    | strings s t => exact .string (compare_lt_iff_lt.mp (Option.some.inj (Except.ok.inj h)))
  · rintro (⟨hx, hy, hlt⟩ | hlt)
    · rw [order, Number.order_eq, hx, hy, Option.bind_some, Option.map_some,
        compare_lt_iff_lt.mpr hlt]
    · rw [order, compare_lt_iff_lt.mpr hlt]

/-- Numbers are less when their place is lower. -/
theorem number_less_iff {x y : Float} {p q : WithBot (WithTop ℚ)} (hx : Number.extended? x = some p)
    (hy : Number.extended? y = some q) : BinaryOp.less.Holds (.number x) (.number y) ↔ p < q := by
  rw [less_holds_iff]
  constructor
  · rintro ⟨hx', hy', hlt⟩
    obtain rfl := Option.some.inj (hx.symm.trans hx')
    obtain rfl := Option.some.inj (hy.symm.trans hy')
    exact hlt
  · exact .number hx hy

/-- Numbers are equal when they have the same place. -/
theorem number_equals_iff {x y : Float} {p q : WithBot (WithTop ℚ)}
    (hx : Number.extended? x = some p) (hy : Number.extended? y = some q) :
    BinaryOp.equals.Holds (.number x) (.number y) ↔ p = q := by
  have hbeq : (x == y) = true ↔ p = q := by
    rw [Number.beq_eq_order, Number.order_eq, hx, hy, Option.bind_some, Option.map_some, beq_iff_eq,
      Option.some.injEq, compare_eq_iff_eq]
  rw [← hbeq]
  constructor
  · exact fun h => Value.boolean.inj (Except.ok.inj h)
  · exact fun h => congrArg (fun b => Except.ok (Value.boolean b)) h

theorem string_less_iff {s t : String} : BinaryOp.less.Holds (.string s) (.string t) ↔ s < t := by
  rw [less_holds_iff]
  constructor
  · rintro (_ | hlt)
    exact hlt
  · exact .string

/-- The six comparisons of any two values belong together. Values that are not two numbers or two
strings are refused by all orderings with one fault. For the others one of less, equal and more
holds, or none of them if something is not a number; the order is transitive, that of strings goes
by code points, which is the order of their bytes, and that of numbers is the order of the rational
numbers with an infinity at each end. -/
theorem comparison_consistent :
    (∀ a b : Value, ¬Comparable a b → ∃ fault, ∀ op ∈ BinaryOp.orderings,
      op.apply a b = .error fault) ∧
    (∀ a b : Value, Comparable a b → ∃ lt eq gt : Bool, Compares a b lt eq gt ∧
      Compares b a gt eq lt ∧
      (a.HasNaN ∨ b.HasNaN → lt = false ∧ eq = false ∧ gt = false) ∧
      (¬(a.HasNaN ∨ b.HasNaN) → [lt, eq, gt].count true = 1)) ∧
    (∀ a b c : Value, BinaryOp.less.Holds a b → BinaryOp.less.Holds b c → BinaryOp.less.Holds a c) ∧
    (∀ s t : String,
      (BinaryOp.less.Holds (.string s) (.string t) ↔ Text.codePoints s < Text.codePoints t) ∧
      (BinaryOp.less.Holds (.string s) (.string t) ↔ Text.bytes s < Text.bytes t)) ∧
    (∀ (x y : Float) (p q : WithBot (WithTop ℚ)), Number.extended? x = some p →
      Number.extended? y = some q →
      (BinaryOp.less.Holds (.number x) (.number y) ↔ p < q) ∧
      (BinaryOp.equals.Holds (.number x) (.number y) ↔ p = q)) := by
  refine ⟨fun a b h => ?_, fun a b h => ?_, fun a b c hab hbc => ?_, fun s t => ?_,
    fun x y p q hx hy => ?_⟩
  · obtain ⟨fault, hfault⟩ := order_of_not_comparable h
    exact ⟨fault, fun op hop => orderings_refuse hfault hop⟩
  · obtain ⟨o, horder, hswapped, hequal, hnan⟩ := h.exists_order
    have hequal' : (b == a) = (o.map Ordering.swap == some .eq) := by
      rw [compares_swap.2.1, ← hequal]
      exact Bool.eq_iff_iff.mpr ⟨beq_symm, beq_symm⟩
    have hback := compares_of_order hswapped hequal'
    obtain ⟨hlt, heq, hgt⟩ := @compares_swap o
    rw [hlt, heq, hgt] at hback
    refine ⟨_, _, _, compares_of_order horder hequal, hback, fun h => ?_, fun h => ?_⟩
    · rw [hnan.mpr h]
      decide
    · have hsome : o ≠ none := mt hnan.mp h
      rcases o with _ | _ | _ | _
      · exact absurd rfl hsome
      all_goals decide
  · rw [less_holds_iff] at hab hbc ⊢
    exact hab.trans hbc
  · rw [string_less_iff]
    exact ⟨Text.lt_iff_codePoints_lt, Text.lt_iff_bytes_lt⟩
  · exact ⟨number_less_iff hx hy, number_equals_iff hx hy⟩

/-- A number and a string are refused by all orderings, strings are told apart by what comes after a
character of two bytes, zeros of both signs are equal, and a division of zero by zero is neither
less, equal nor more. -/
theorem accentedStrings_less :
    (∃ fault, ∀ op ∈ BinaryOp.orderings, op.apply (.number 1.0) (.string "1") = .error fault) ∧
      BinaryOp.less.Holds (.string "é") (.string "é😀") ∧
      BinaryOp.less.Holds (.string "é\uffff") (.string "é😀") ∧
      BinaryOp.equals.Holds (.number 0.0) (.number (-0.0)) ∧
      Compares (.number (0.0 / 0.0)) (.number 1.0) false false false := by
  obtain ⟨hrefused, hcompared, htrans, hstring, hnumber⟩ := comparison_consistent
  have hfirst : BinaryOp.less.Holds (.string "é") (.string "é\uffff") :=
    (hstring _ _).1.mpr (by decide +kernel)
  have hsecond : BinaryOp.less.Holds (.string "é\uffff") (.string "é😀") :=
    (hstring _ _).2.mpr (by decide +kernel)
  have hnan : (0.0 / 0.0 : Float).isNaN = true := by decide +kernel
  obtain ⟨_, _, _, hcompares, -, hfalse, -⟩ := hcompared _ _ (.numbers (0.0 / 0.0) 1.0)
  obtain ⟨rfl, rfl, rfl⟩ := hfalse (.inl (.number hnan))
  exact ⟨hrefused _ _ nofun, htrans _ _ _ hfirst hsecond, hsecond,
    (hnumber 0.0 (-0.0) _ _ rfl rfl).2.mpr rfl, hcompares⟩

end Value

end HostScript
