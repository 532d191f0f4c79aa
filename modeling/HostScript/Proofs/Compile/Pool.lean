import HostScript.Proofs.Compile.Independence

/-!
# String pools of units

While code is emitted, the numbers that a pool gives and the strings that it holds stay inverse to
each other, and every number is used by the instruction that it was given for. So the pool of a unit
holds no string twice and none that the code does not use, and the code uses the numbers for the
first time in their order.
-/

namespace HostScript

namespace StringPool

variable {pool : StringPool} {s : String}

/-- Whether the numbers of a pool and its strings are inverse to each other. -/
structure Inverse (pool : StringPool) : Prop where
  sound : pool.Sound
  numbered : ∀ (s : String) (id : Nat), pool.strings[id]? = some s → pool.ids[s]? = some id

theorem inverse_empty : Inverse {} :=
  ⟨sound_empty, fun s id h => by simp at h⟩

/-- A string that the pool has keeps its number, and a new one is put at the end. -/
theorem intern_cases (pool : StringPool) (s : String) :
    (∃ id, pool.ids[s]? = some id ∧ pool.intern s = (id, pool)) ∨
    pool.ids[s]? = none ∧ pool.intern s =
      (pool.strings.size,
        { ids := pool.ids.insert s pool.strings.size, strings := pool.strings.push s }) := by
  cases hid : pool.ids[s]? with
  | some id => exact .inl ⟨id, rfl, by simp only [intern, hid]⟩
  | none => exact .inr ⟨rfl, by simp only [intern, hid]⟩

/-- Numbering a string keeps numbers and strings inverse to each other. -/
theorem Inverse.intern (h : pool.Inverse) : (pool.intern s).2.Inverse := by
  refine ⟨h.sound.intern, ?_⟩
  obtain ⟨id, -, heq⟩ | ⟨hnew, heq⟩ := pool.intern_cases s
  · rw [heq]
    exact h.numbered
  · rw [heq]
    intro t id ht
    change (pool.strings.push s)[id]? = some t at ht
    change (pool.ids.insert s pool.strings.size)[t]? = some id
    rw [Array.getElem?_push] at ht
    rw [Std.TreeMap.getElem?_insert]
    split at ht
    next hid =>
      obtain rfl := Option.some.inj ht
      simp [hid]
    next =>
      -- A string that is there already has a number, so it is not the new one.
      have hold := h.numbered t id ht
      have hne : s ≠ t := by
        rintro rfl
        rw [hnew] at hold
        cases hold
      simpa [hne] using hold

/-- A pool with numbers for its strings holds no string twice. -/
theorem Inverse.nodup (h : pool.Inverse) : pool.strings.toList.Nodup := by
  rw [List.nodup_iff_getElem?_ne_getElem?]
  intro i j hij hj heq
  have hsome : pool.strings.toList[j]? = some pool.strings.toList[j] := List.getElem?_eq_getElem hj
  rw [hsome] at heq
  have hi := h.numbered _ i (by rwa [Array.getElem?_toList] at heq)
  have hj := h.numbered _ j (by rwa [Array.getElem?_toList] at hsome)
  rw [hi] at hj
  exact Nat.ne_of_lt hij (Option.some.inj hj)

end StringPool

/-- The numbers of strings that code uses for the first time, in the order in which it does. -/
def Instruction.firstStrings (code : List Instruction) : List Nat :=
  (code.filterMap string?).eraseDups

namespace Instruction

variable {code : List Instruction} {i : Instruction} {id : Nat}

theorem mem_firstStrings : id ∈ firstStrings code ↔ ∃ i ∈ code, i.string? = some id := by
  rw [firstStrings, List.mem_eraseDups, List.mem_filterMap]

/-- An instruction without a string uses none for the first time. -/
theorem firstStrings_append_of_none (h : i.string? = none) :
    firstStrings (code ++ [i]) = firstStrings code := by
  rw [firstStrings, List.filterMap_append, List.filterMap_cons_none h, List.filterMap_nil,
    List.append_nil, firstStrings]

/-- An instruction with a string uses it for the first time if none before it has used it. -/
theorem firstStrings_append_of_some (h : i.string? = some id) :
    firstStrings (code ++ [i]) =
      if id ∈ firstStrings code then firstStrings code else firstStrings code ++ [id] := by
  have hsame : id ∈ firstStrings code ↔ id ∈ code.filterMap string? := List.mem_eraseDups
  rw [firstStrings, List.filterMap_append, List.filterMap_cons_some h, List.filterMap_nil,
    List.eraseDups_append, ← firstStrings, List.removeAll]
  split
  next hmem =>
    rw [List.filter_cons_of_neg (by simpa using hsame.mp hmem), List.filter_nil, List.eraseDups_nil,
      List.append_nil]
  next hmem =>
    rw [List.filter_cons_of_pos (by simpa using mt hsame.mpr hmem), List.filter_nil,
      List.eraseDups_cons, List.filter_nil, List.eraseDups_nil]

end Instruction

namespace Emitter

variable {e : Emitter} {op : Op}

/-- Whether all strings of the emitted code have their own number, and the code uses the numbers for
the first time in their order. -/
structure Canonical (e : Emitter) : Prop where
  inverse : e.pool.Inverse
  ordered : Instruction.firstStrings e.code.toList = List.range e.pool.strings.size

theorem canonical_empty : Canonical {} :=
  ⟨StringPool.inverse_empty, rfl⟩

/-- Appending an operation keeps the numbers in the order of their first use. -/
theorem Canonical.add (h : e.Canonical) (hop : op.Regular) : (e.add op).Canonical := by
  cases op with
  | plain n i =>
    refine ⟨h.inverse, ?_⟩
    change Instruction.firstStrings (e.code.push i).toList = List.range e.pool.strings.size
    rw [Array.toList_push, Instruction.firstStrings_append_of_none hop, h.ordered]
  | named n name i =>
    refine ⟨h.inverse.intern, ?_⟩
    have hstring := (hop (e.pool.intern name).1).1
    change Instruction.firstStrings (e.code.push (i (e.pool.intern name).1)).toList =
      List.range (e.pool.intern name).2.strings.size
    rw [Array.toList_push]
    obtain ⟨id, hid, heq⟩ | ⟨-, heq⟩ := e.pool.intern_cases name
    · rw [heq] at hstring ⊢
      have hlt := (Array.getElem?_eq_some_iff.mp (h.inverse.sound name id hid)).1
      have hmem : id ∈ Instruction.firstStrings e.code.toList := by
        rw [h.ordered]
        exact List.mem_range.mpr hlt
      rw [Instruction.firstStrings_append_of_some hstring, if_pos hmem, h.ordered]
    · rw [heq] at hstring ⊢
      have hnew : e.pool.strings.size ∉ Instruction.firstStrings e.code.toList := by
        rw [h.ordered]
        exact List.not_mem_range_self
      rw [Instruction.firstStrings_append_of_some hstring, if_neg hnew, h.ordered, Array.size_push,
        List.range_succ]

/-- Appending operations keeps the numbers in the order of their first use. -/
theorem Canonical.addAll {ops : List Op} (h : e.Canonical) (hops : ∀ op ∈ ops, op.Regular) :
    (e.addAll ops).Canonical := by
  induction ops generalizing e with
  | nil => exact h
  | cons op ops ih =>
    obtain ⟨hop, hrest⟩ := List.forall_mem_cons.mp hops
    exact ih (h.add hop) hrest

end Emitter

namespace Bound

/-- The operations of bodies are regular. -/
theorem Body.codes_regular (start : Nat) (bs : List Body) :
    ∀ op ∈ Body.codes start bs, op.Regular := by
  induction bs generalizing start with
  | nil => exact List.forall_mem_nil _
  | cons b rest ih =>
    rw [Body.codes, List.forall_mem_append]
    exact ⟨b.code_regular start, ih _⟩

/-- The operations of a program are regular. -/
theorem Program.code_regular (program : Program) : ∀ op ∈ program.code, op.Regular := by
  rw [program.code_eq_codes]
  exact Body.codes_regular 0 program.bodies

end Bound

/-- Whether the pool of a unit holds each string once, holds none that no instruction uses, and
numbers them in the order in which the code, read from its start, uses them for the first time. -/
structure CodeUnit.CanonicalPool (u : CodeUnit) : Prop where
  distinct : u.strings.toList.Nodup
  used : ∀ id < u.strings.size, ∃ (pc : Nat) (i : Instruction), u.code[pc]? = some i ∧
    i.string? = some id
  ordered : Instruction.firstStrings u.code.toList = List.range u.strings.size

/-- The pool of the unit of a bound program is canonical. -/
theorem Bound.Program.canonicalPool_toUnit (program : Bound.Program) :
    program.toUnit.CanonicalPool := by
  have hcanonical := Emitter.canonical_empty.addAll program.code_regular
  rw [program.toUnit_eq]
  refine ⟨hcanonical.inverse.nodup, fun id hid => ?_, hcanonical.ordered⟩
  have hmem := List.mem_range.mpr hid
  rw [← hcanonical.ordered, Instruction.mem_firstStrings] at hmem
  obtain ⟨i, hi, hstring⟩ := hmem
  obtain ⟨pc, hpc⟩ := List.mem_iff_getElem?.mp hi
  exact ⟨pc, i, by rwa [Array.getElem?_toList] at hpc, hstring⟩

end HostScript
