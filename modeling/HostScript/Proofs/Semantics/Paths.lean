import HostScript.Proofs.Semantics.Rounds

/-!
# Elements at paths

A path of indices denotes positions, one in each of the arrays that it goes through. An element that
can be read at a path of indices can be replaced there. The result has the new element at these
positions, and at all positions that are neither above nor below them it has what was there before.
Where a path cannot be read, nothing can be replaced, for the same reason.
-/

namespace HostScript

namespace Value

/-- What lies at positions inside nested arrays, one position for each array from the outermost
on. -/
def at? (value : Value) : List Nat → Option Value
  | [] => some value
  | k :: positions =>
    match value with
    | .array items => items[k]?.bind fun item => item.at? positions
    | _ => none

/-- Whether a path of indices leads through nested arrays to an element, at certain positions. -/
inductive Leads : Value → List Value → List Nat → Value → Prop
  | here (value : Value) : Leads value [] [] value
  | step {items : Array Value} {index item leaf : Value} {path : List Value} {k : Fin items.size}
      {positions : List Nat} (hk : index.position items.size = .ok k)
      (hitem : items[k.val]? = some item) (h : Leads item path positions leaf) :
      Leads (.array items) (index :: path) (k :: positions) leaf

/-- Whether a value has an element at some positions, and differs from the value
before nowhere else. -/
structure DiffersAt (positions : List Nat) (element before after : Value) : Prop where
  inside : after.at? positions = some element
  outside :
    ∀ others, ¬positions <+: others → ¬others <+: positions → after.at? others = before.at? others

section Lemmas

variable {array leaf element : Value} {items : Array Value} {path : List Value}
  {positions : List Nat}

@[simp] theorem at?_cons (items : Array Value) (k : Nat) (positions : List Nat) :
    (Value.array items).at? (k :: positions) = items[k]?.bind fun item => item.at? positions :=
  rfl

theorem element_of_position {index item : Value} {k : Fin items.size}
    (hk : index.position items.size = .ok k) (hitem : items[k.val]? = some item) :
    (Value.array items).element index = .ok item := by
  simp only [Value.element, hk]
  exact congrArg Except.ok (Array.getElem?_eq_some_iff.mp hitem).2

theorem position_of_eq {index : Value} {length length' : Nat} (h : length = length')
    {k : Fin length} (hk : index.position length = .ok k) :
    index.position length' = .ok (k.cast h) := by
  subst h
  exact hk

/-- An element can be read exactly at the paths that lead to it. -/
theorem elementAt_eq_ok_iff :
    array.elementAt path = .ok leaf ↔ ∃ positions, array.Leads path positions leaf := by
  constructor
  · intro h
    induction path generalizing array with
    | nil =>
      cases h
      exact ⟨[], .here _⟩
    | cons index path ih =>
      obtain ⟨inner, hinner, hpath⟩ := bind_eq_ok_iff.mp h
      obtain ⟨positions, hpositions⟩ := ih hpath
      cases array with
      | array items =>
        simp only [Value.element] at hinner
        cases hk : index.position items.size with
        | error fault =>
          rw [hk] at hinner
          cases hinner
        | ok k =>
          rw [hk] at hinner
          cases hinner
          exact ⟨k :: positions, .step hk (Array.getElem?_eq_getElem k.isLt) hpositions⟩
      | _ => cases hinner
  · rintro ⟨positions, h⟩
    induction h with
    | here value => rfl
    | step hk hitem _ ih => exact bind_eq_ok_iff.mpr ⟨_, element_of_position hk hitem, ih⟩

/-- An array whose item is replaced by one that differs at some positions differs at these
positions in that item. -/
theorem DiffersAt.step {k : Nat} {item changed : Value} (hitem : items[k]? = some item)
    (h : DiffersAt positions element item changed) :
    DiffersAt (k :: positions) element (.array items) (.array (items.setIfInBounds k changed)) := by
  have hlt : k < items.size := (Array.getElem?_eq_some_iff.mp hitem).1
  have hself : (items.setIfInBounds k changed)[k]? = some changed :=
    Array.getElem?_setIfInBounds_self_of_lt hlt
  constructor
  · rw [at?_cons, hself]
    exact h.inside
  · intro others hbelow habove
    cases others with
    | nil => exact absurd List.nil_prefix habove
    | cons j others =>
      rw [at?_cons, at?_cons]
      by_cases hj : k = j
      · subst hj
        rw [hself, hitem]
        exact h.outside others (fun hprefix => hbelow (List.cons_prefix_cons.mpr ⟨rfl, hprefix⟩))
          fun hprefix => habove (List.cons_prefix_cons.mpr ⟨rfl, hprefix⟩)
      · rw [Array.getElem?_setIfInBounds_ne hj]

/-- An element that a path leads to can be replaced there, and nowhere else. -/
theorem Leads.replaceAt (h : array.Leads path positions leaf) (element : Value) :
    ∃ changed, array.replaceAt path element = .ok changed ∧ changed.Leads path positions element ∧
      DiffersAt positions element array changed := by
  induction h with
  | here value =>
    exact ⟨element, rfl, .here element, rfl, fun others hbelow _ => absurd List.nil_prefix hbelow⟩
  | @step items index item leaf path k positions hk hitem _ ih =>
    obtain ⟨changed, hchanged, hleads, hdiffers⟩ := ih
    have hsize : items.size = (items.set k changed).size := (Array.size_set k.isLt).symm
    have hk' := position_of_eq hsize hk
    refine ⟨.array (items.set k changed), ?_, .step hk' (by simp) hleads, ?_⟩
    · refine bind_eq_ok_iff.mpr ⟨item, element_of_position hk hitem,
        bind_eq_ok_iff.mpr ⟨changed, hchanged, ?_⟩⟩
      rw [Value.withElement, hk]
    · have hset : items.set k changed = items.setIfInBounds k changed := by
        simp [Array.setIfInBounds]
      rw [hset]
      exact hdiffers.step hitem

end Lemmas

end Value

end HostScript
