import Mathlib
import HostScript.Proofs.Number.Positions

/-!
# Elements of arrays

An element is read and replaced at the position that an index denotes. The two agree on which arrays
and indices they take and on the fault of all others, and they obey the laws of a store: what was
replaced is read back, all else is read as before, the last of two updates at one position wins, and
updates at two positions commute.

Main statement: `element_withElement_lawful`.
-/

namespace HostScript

namespace Value

/-- The index is a number, and this number is the natural number `k`. -/
def Denotes (index : Value) (k : Nat) : Prop :=
  ∃ n, index = .number n ∧ Number.rational? n = some (k : ℚ)

/-- An array, if it is one, is so short that numbers tell all its positions apart. -/
def Short (array : Value) : Prop :=
  ∀ items, array = .array items → items.size < 2 ^ 53

theorem short_array {items : Array Value} (h : items.size < 2 ^ 53) :
    (Value.array items).Short := by
  intro items' heq
  rw [← array.inj heq]
  exact h

/-- Why there is no element of a value at an index. The array is blamed first. -/
inductive Refuses : Value → Value → Fault → Prop
  | array {array index : Value} (h : ∀ items, array ≠ .array items) :
    Refuses array index (array.mismatch "array")
  | index {items : Array Value} {index : Value} (h : ∀ n, index ≠ .number n) :
    Refuses (.array items) index (index.mismatch "number")
  | range {items : Array Value} {n : Float}
      (h : ∀ k < items.size, Number.rational? n ≠ some (k : ℚ)) :
    Refuses (.array items) (.number n) (.indexOutOfRange n items.size)

/-- The position of an index that denotes one. -/
theorem position_of_denotes {index : Value} {length k : Nat} (hlength : length < 2 ^ 53)
    (hk : k < length) (h : index.Denotes k) : index.position length = .ok ⟨k, hk⟩ := by
  obtain ⟨n, rfl, hn⟩ := h
  have hposition : Number.position? n length = some ⟨k, hk⟩ :=
    (Number.position?_eq_some_iff hlength).mpr hn
  rw [position, hposition]

/-- A number that is not a position below the length is refused. -/
theorem position_number_error {n : Float} {length : Nat} (hlength : length < 2 ^ 53)
    (h : ∀ k < length, Number.rational? n ≠ some (k : ℚ)) :
    (Value.number n).position length = .error (.indexOutOfRange n length) := by
  have hposition : Number.position? n length = none := by
    cases hfound : Number.position? n length with
    | none => rfl
    | some k => exact absurd ((Number.position?_eq_some_iff hlength).mp hfound) (h k k.isLt)
  rw [position, hposition]

section Access

variable {items : Array Value} {array index value : Value} {fault : Fault} {k : Nat}

theorem element_of_denotes (hsize : items.size < 2 ^ 53) (hk : k < items.size)
    (h : index.Denotes k) : (Value.array items).element index = .ok items[k] := by
  rw [element, position_of_denotes hsize hk h]
  rfl

theorem withElement_of_denotes (hsize : items.size < 2 ^ 53) (hk : k < items.size)
    (h : index.Denotes k) :
    (Value.array items).withElement index value = .ok (.array (items.set k value)) := by
  rw [withElement, position_of_denotes hsize hk h]

/-- An index that is refused has no position. -/
theorem position_error_of_refuses (hsize : items.size < 2 ^ 53)
    (h : Refuses (.array items) index fault) : index.position items.size = .error fault := by
  cases h with
  | array hnone => exact absurd rfl (hnone items)
  | index hnone =>
    cases index with
    | number n => exact absurd rfl (hnone n)
    | _ => rfl
  | range hnone => exact position_number_error hsize hnone

theorem element_of_refuses (hshort : array.Short)
    (h : Refuses array index fault) : array.element index = .error fault := by
  cases array with
  | array items => rw [element, position_error_of_refuses (hshort items rfl) h]
  | _ =>
    cases h
    rfl

theorem withElement_of_refuses (hshort : array.Short)
    (h : Refuses array index fault) : array.withElement index value = .error fault := by
  cases array with
  | array items => rw [withElement, position_error_of_refuses (hshort items rfl) h]
  | _ =>
    cases h
    rfl

/-- An index denotes a position of an array, or is refused. -/
theorem denotes_or_refuses (array index : Value) :
    (∃ items k, array = .array items ∧ k < items.size ∧ index.Denotes k) ∨
      ∃ fault, Refuses array index fault := by
  by_cases harray : ∃ items, array = .array items
  case neg => exact .inr ⟨_, .array fun items heq => harray ⟨items, heq⟩⟩
  obtain ⟨items, rfl⟩ := harray
  by_cases hindex : ∃ n, index = .number n
  case neg => exact .inr ⟨_, .index fun n heq => hindex ⟨n, heq⟩⟩
  obtain ⟨n, rfl⟩ := hindex
  by_cases hposition : ∃ k < items.size, Number.rational? n = some (k : ℚ)
  case neg => exact .inr ⟨_, .range fun k hk heq => hposition ⟨k, hk, heq⟩⟩
  obtain ⟨k, hk, hn⟩ := hposition
  exact .inl ⟨items, k, rfl, hk, n, rfl, hn⟩

/-- The element at an index is the one at the position that the index denotes. -/
theorem element_eq_ok_iff (hshort : array.Short) :
    array.element index = .ok value ↔
      ∃ items k, array = .array items ∧ index.Denotes k ∧ items[k]? = some value := by
  constructor
  · intro h
    obtain ⟨items, k, rfl, hk, hindex⟩ | ⟨fault, hrefused⟩ := denotes_or_refuses array index
    · rw [element_of_denotes (hshort items rfl) hk hindex] at h
      exact ⟨items, k, rfl, hindex, by rw [Array.getElem?_eq_getElem hk, Except.ok.inj h]⟩
    · rw [element_of_refuses hshort hrefused] at h
      cases h
  · intro h
    obtain ⟨items, k, rfl, hindex, hitem⟩ := h
    obtain ⟨hk, rfl⟩ := Array.getElem?_eq_some_iff.mp hitem
    exact element_of_denotes (hshort items rfl) hk hindex

/-- Reading fails with the fault of what is refused, and on nothing else. -/
theorem element_eq_error_iff (hshort : array.Short) :
    array.element index = .error fault ↔ Refuses array index fault := by
  constructor
  · intro h
    obtain ⟨items, k, rfl, hk, hindex⟩ | ⟨fault', hrefused⟩ := denotes_or_refuses array index
    · rw [element_of_denotes (hshort items rfl) hk hindex] at h
      cases h
    · rw [element_of_refuses hshort hrefused] at h
      cases h
      exact hrefused
  · exact element_of_refuses hshort

/-- Replacing gives the array with the value at the position that the index denotes. -/
theorem withElement_eq_ok_iff {updated : Value} (hshort : array.Short) :
    array.withElement index value = .ok updated ↔
      ∃ items k, ∃ hk : k < items.size, array = .array items ∧ index.Denotes k ∧
        updated = .array (items.set k value hk) := by
  constructor
  · intro h
    obtain ⟨items, k, rfl, hk, hindex⟩ | ⟨fault, hrefused⟩ := denotes_or_refuses array index
    · rw [withElement_of_denotes (hshort items rfl) hk hindex] at h
      exact ⟨items, k, hk, rfl, hindex, (Except.ok.inj h).symm⟩
    · rw [withElement_of_refuses hshort hrefused] at h
      cases h
  · intro h
    obtain ⟨items, k, hk, rfl, hindex, rfl⟩ := h
    exact withElement_of_denotes (hshort items rfl) hk hindex

/-- Replacing fails with the fault of what is refused, and on nothing else. -/
theorem withElement_eq_error_iff (hshort : array.Short) :
    array.withElement index value = .error fault ↔ Refuses array index fault := by
  constructor
  · intro h
    obtain ⟨items, k, rfl, hk, hindex⟩ | ⟨fault', hrefused⟩ := denotes_or_refuses array index
    · rw [withElement_of_denotes (hshort items rfl) hk hindex] at h
      cases h
    · rw [withElement_of_refuses hshort hrefused] at h
      cases h
      exact hrefused
  · exact withElement_of_refuses hshort

/-- What is refused depends on the length of an array and not on its elements. -/
theorem Refuses.of_size_eq {items' : Array Value} (hsize : items'.size = items.size)
    (h : Refuses (.array items) index fault) : Refuses (.array items') index fault := by
  cases h with
  | array hnone => exact absurd rfl (hnone items)
  | index hnone => exact .index hnone
  | range hnone =>
    rw [← hsize] at hnone ⊢
    exact .range hnone

end Access

/-- The array `updated` is the array with the value at the index. -/
structure Updated (array index value updated : Value) : Prop where
  /-- Both are arrays, of the same length. -/
  size : ∃ items items', array = .array items ∧ updated = .array items' ∧ items'.size = items.size
  /-- The value is read back. -/
  element_self : updated.element index = .ok value
  /-- Nothing else has changed, the faults included. -/
  element_other :
    ∀ other, (∀ k, index.Denotes k → ¬other.Denotes k) → updated.element other = array.element other
  /-- The same indices have an element. -/
  element_ok :
    ∀ other, (∃ item, updated.element other = .ok item) ↔ ∃ item, array.element other = .ok item
  /-- The second of two updates at one index wins. -/
  withElement_self : ∀ item, updated.withElement index item = array.withElement index item
  /-- The element that was there can be put back. -/
  withElement_element :
    ∀ item, array.element index = .ok item → updated.withElement index item = .ok array
  /-- Updates at two positions commute. -/
  withElement_comm : ∀ other item, (∀ k, index.Denotes k → ¬other.Denotes k) →
    updated.withElement other item = (array.withElement other item).bind fun array =>
      array.withElement index value

section Update

variable {items : Array Value} {index other value item : Value} {k : Nat}
  (hsize : items.size < 2 ^ 53) (hk : k < items.size)

include hsize

/-- An update leaves the elements at all other positions. -/
theorem element_set_other (hother : ¬other.Denotes k) :
    (Value.array (items.set k value)).element other = (Value.array items).element other := by
  have hsize' : (items.set k value).size < 2 ^ 53 := by rwa [Array.size_set]
  obtain ⟨items', l, heq, hl, hdenotes⟩ | ⟨fault, hrefused⟩ :=
    denotes_or_refuses (.array items) other
  · obtain rfl := array.inj heq
    have hl' : l < (items.set k value).size := by rwa [Array.size_set]
    have hne : k ≠ l := by
      intro hkl
      exact hother (hkl ▸ hdenotes)
    rw [element_of_denotes hsize' hl' hdenotes, element_of_denotes hsize hl hdenotes,
      Array.getElem_set_ne hk hl hne]
  · have hrefused' := hrefused.of_size_eq (Array.size_set (v := value) hk)
    rw [element_of_refuses (short_array hsize) hrefused,
      element_of_refuses (short_array hsize') hrefused']

/-- An update is read back. -/
theorem element_set_self (hindex : index.Denotes k) :
    (Value.array (items.set k value)).element index = .ok value := by
  have hsize' : (items.set k value).size < 2 ^ 53 := by rwa [Array.size_set]
  have hk' : k < (items.set k value).size := by rwa [Array.size_set]
  rw [element_of_denotes hsize' hk' hindex, Array.getElem_set_self]

/-- An update leaves the indices that have an element. -/
theorem element_set_ok_iff :
    (∃ item, (Value.array (items.set k value)).element other = .ok item) ↔
      ∃ item, (Value.array items).element other = .ok item := by
  by_cases hother : other.Denotes k
  · rw [element_set_self hsize hk hother, element_of_denotes hsize hk hother]
    simp
  · rw [element_set_other hsize hk hother]

/-- The second of two updates at one position wins. -/
theorem withElement_set_self (hindex : index.Denotes k) :
    (Value.array (items.set k value)).withElement index item = .ok (.array (items.set k item)) := by
  have hsize' : (items.set k value).size < 2 ^ 53 := by rwa [Array.size_set]
  have hk' : k < (items.set k value).size := by rwa [Array.size_set]
  rw [withElement_of_denotes hsize' hk' hindex, Array.set_set]

/-- Updates at two positions commute, and what is refused after one was refused before it. -/
theorem withElement_set_comm (hindex : index.Denotes k) (hother : ¬other.Denotes k) :
    (Value.array (items.set k value)).withElement other item =
      ((Value.array items).withElement other item).bind
        fun array => array.withElement index value := by
  have hsize' : (items.set k value).size < 2 ^ 53 := by rwa [Array.size_set]
  obtain ⟨items', l, heq, hl, hdenotes⟩ | ⟨fault, hrefused⟩ :=
    denotes_or_refuses (.array items) other
  · obtain rfl := array.inj heq
    have hl' : l < (items.set k value).size := by rwa [Array.size_set]
    have hk' : k < (items.set l item).size := by rwa [Array.size_set]
    have hsize'' : (items.set l item).size < 2 ^ 53 := by rwa [Array.size_set]
    have hne : k ≠ l := by
      intro hkl
      exact hother (hkl ▸ hdenotes)
    rw [withElement_of_denotes hsize' hl' hdenotes, withElement_of_denotes hsize hl hdenotes,
      Except.bind, withElement_of_denotes hsize'' hk' hindex, Array.set_comm value item hne]
  · have hrefused' := hrefused.of_size_eq (Array.size_set (v := value) hk)
    rw [withElement_of_refuses (short_array hsize') hrefused',
      withElement_of_refuses (short_array hsize) hrefused]
    rfl

/-- The array with a value at the position of an index is that array updated. -/
theorem updated_set (hindex : index.Denotes k) :
    Updated (.array items) index value (.array (items.set k value)) where
  size := ⟨items, items.set k value, rfl, rfl, Array.size_set hk⟩
  element_self := element_set_self hsize hk hindex
  element_other := fun other hother => element_set_other hsize hk (hother k hindex)
  element_ok := fun other => element_set_ok_iff hsize hk
  withElement_self := fun item => by
    rw [withElement_set_self hsize hk hindex, withElement_of_denotes hsize hk hindex]
  withElement_element := fun item hitem => by
    rw [element_of_denotes hsize hk hindex] at hitem
    rw [withElement_set_self hsize hk hindex, ← Except.ok.inj hitem, Array.set_getElem_self]
  withElement_comm := fun other item hother =>
    withElement_set_comm hsize hk hindex (hother k hindex)

end Update

/-- Reading and replacing elements is a lawful access to arrays. An element is read at the position
that a number is equal to, so fractions, numbers below zero, infinities and what is not a number are
out of range. An element is replaced where one is read, and refused with the same fault. -/
theorem element_withElement_lawful (array index : Value) (hshort : array.Short) :
    (∀ item, array.element index = .ok item ↔
      ∃ items k, array = .array items ∧ index.Denotes k ∧ items[k]? = some item) ∧
    (∀ fault, array.element index = .error fault ↔ Refuses array index fault) ∧
    (∀ items n, array = .array items → index = .number n →
      (n.isNaN = true ∨ n.isInf = true ∨ ∃ q, Number.rational? n = some q ∧ (q < 0 ∨ q.den ≠ 1)) →
      array.element index = .error (.indexOutOfRange n items.size)) ∧
    (∀ value, (∃ updated, array.withElement index value = .ok updated) ↔
      ∃ item, array.element index = .ok item) ∧
    (∀ value fault, array.withElement index value = .error fault ↔
      array.element index = .error fault) ∧
    (∀ value updated, array.withElement index value = .ok updated →
      Updated array index value updated) ∧
    (∀ item, array.element index = .ok item → array.withElement index item = .ok array) := by
  refine ⟨fun item => element_eq_ok_iff hshort, fun fault => element_eq_error_iff hshort, ?_,
    ?_, ?_, ?_, ?_⟩
  · intro items n harray hindex hn
    rw [element_eq_error_iff hshort, harray, hindex]
    exact .range fun k _ => Number.rational?_ne_natCast hn k
  · intro value
    constructor
    · intro h
      obtain ⟨updated, h⟩ := h
      obtain ⟨items, k, hk, harray, hindex, -⟩ := (withElement_eq_ok_iff hshort).mp h
      exact ⟨items[k],
        (element_eq_ok_iff hshort).mpr ⟨items, k, harray, hindex, Array.getElem?_eq_getElem hk⟩⟩
    · intro h
      obtain ⟨item, h⟩ := h
      obtain ⟨items, k, harray, hindex, hitem⟩ := (element_eq_ok_iff hshort).mp h
      obtain ⟨hk, -⟩ := Array.getElem?_eq_some_iff.mp hitem
      exact ⟨_, (withElement_eq_ok_iff hshort).mpr ⟨items, k, hk, harray, hindex, rfl⟩⟩
  · intro value fault
    rw [element_eq_error_iff hshort, withElement_eq_error_iff hshort]
  · intro value updated h
    obtain ⟨items, k, hk, rfl, hindex, rfl⟩ := (withElement_eq_ok_iff hshort).mp h
    exact updated_set (hshort items rfl) hk hindex
  · intro item h
    obtain ⟨items, k, rfl, hindex, hitem⟩ := (element_eq_ok_iff hshort).mp h
    obtain ⟨hk, rfl⟩ := Array.getElem?_eq_some_iff.mp hitem
    rw [withElement_of_denotes (hshort items rfl) hk hindex, Array.set_getElem_self]

/-- The zero below zero denotes the first position of an array, and no fraction denotes one. -/
theorem element_negative_zero :
    (Value.array #[.boolean true, .void]).Short ∧
    (Value.array #[.boolean true, .void]).element (.number (-0.0)) = .ok (.boolean true) ∧
    (Value.array #[.boolean true, .void]).withElement (.number (-0.0)) .void =
      .ok (.array #[.void, .void]) ∧
    Updated (.array #[.boolean true, .void]) (.number (-0.0)) .void (.array #[.void, .void]) ∧
    (Value.array #[.boolean true, .void]).element (.number 0.5) =
      .error (.indexOutOfRange 0.5 2) := by
  have hshort : (Value.array #[.boolean true, .void]).Short := short_array (by decide)
  have hunpack : (-0.0 : Float).toModel.unpack = .zero .negative := rfl
  have hunpack' : (0.5 : Float).toModel.unpack = .finite .positive (2 ^ 52) (-53) (by decide) := rfl
  have hzero : (Value.number (-0.0)).Denotes 0 := ⟨-0.0, rfl, Number.rational?_zero hunpack⟩
  have hhalf : Number.rational? 0.5 = some (1 / 2) := by
    rw [Number.rational?_finite hunpack']
    norm_num [Float.Model.UnpackedFloat.Sign.apply]
  obtain ⟨hread, -, -, -, -, hupdated, -⟩ := element_withElement_lawful _ (.number (-0.0)) hshort
  obtain ⟨-, -, hrange, -⟩ := element_withElement_lawful _ (.number 0.5) hshort
  have hwritten : (Value.array #[.boolean true, .void]).withElement (.number (-0.0)) .void =
      .ok (.array #[.void, .void]) := withElement_of_denotes (hshort _ rfl) (by decide) hzero
  refine ⟨hshort, (hread _).mpr ⟨_, 0, rfl, hzero, rfl⟩, hwritten, hupdated _ _ hwritten, ?_⟩
  exact hrange _ _ rfl rfl (.inr (.inr ⟨_, hhalf, .inr (by norm_num)⟩))

end Value

end HostScript
