import HostScript.Proofs.Emission.Append

/-!
# The code of a unit

Emitting a bound program appends the code of the top-level body and then that of each function. A
unit therefore has every operation of that code at its own offset, with a number for its string
under which the string is found in the pool.
-/

namespace HostScript

namespace Bound

/-- The number of instructions of a body. -/
def Body.size (b : Body) : Nat :=
  Stmt.sizes 0 b.statements + 1

/-- The entry of a body that starts at an offset. -/
def Body.entry (start : Nat) (b : Body) : Entry where
  name := b.name
  start
  arity := b.arity
  locals := b.locals

/-- The entries of bodies that stand one after the other. -/
def Body.entries (start : Nat) : List Body → List Entry
  | [] => []
  | b :: rest => b.entry start :: Body.entries (start + b.size) rest

/-- The code of bodies that stand one after the other. -/
def Body.codes (start : Nat) : List Body → List Op
  | [] => []
  | b :: rest => b.code start ++ Body.codes (start + b.size) rest

/-- The code of a program: the top-level code and then the functions. -/
def Program.code (program : Program) : List Op :=
  program.top.code 0 ++ Body.codes program.top.size program.functions

/-- The code of a body has as many operations as its size says. -/
@[simp] theorem Body.length_code (start : Nat) (b : Body) : (b.code start).length = b.size := by
  simp [Body.code, Body.size]

end Bound

namespace Emitter

variable {e : Emitter} {op : Op} {ops : List Op}

/-- Emitting a body appends its code and gives its entry. -/
theorem body_eq (e : Emitter) (b : Bound.Body) :
    e.body b = (b.entry e.here, e.addAll (b.code e.here)) := by
  simp [body, Bound.Body.entry, Bound.Body.code, stmts_eq_addAll, add]

/-- Emitting bodies appends their code and gives their entries. -/
theorem bodies_eq (e : Emitter) (entries : Array Entry) (bs : List Bound.Body) :
    e.bodies entries bs =
      (entries ++ (Bound.Body.entries e.here bs).toArray,
        e.addAll (Bound.Body.codes e.here bs)) := by
  induction bs generalizing e entries with
  | nil => simp [bodies, Bound.Body.entries, Bound.Body.codes]
  | cons b rest ih =>
    rw [bodies, body_eq]
    simp [ih, Bound.Body.entries, Bound.Body.codes]

/-- Whether an operation stands at an offset, with its string in the pool. -/
def Has (e : Emitter) (pc : Nat) : Op → Prop
  | .plain _ instruction => e.code[pc]? = some instruction
  | .named _ name instruction =>
    ∃ id : Nat, e.pool.strings[id]? = some name ∧ e.code[pc]? = some (instruction id)

/-- Appending keeps the instructions that are there. -/
theorem code_add {pc : Nat} {instruction : Instruction} (h : e.code[pc]? = some instruction) :
    (e.add op).code[pc]? = some instruction := by
  obtain ⟨hpc, rfl⟩ := Array.getElem?_eq_some_iff.mp h
  cases op <;> simp [add, push, pushWith, Array.getElem?_push_lt, hpc]

/-- Appending keeps the operations that are there. -/
theorem Has.add {pc : Nat} {old : Op} (h : e.Has pc old) : (e.add op).Has pc old := by
  cases old with
  | plain _ instruction => exact code_add h
  | named _ name instruction =>
    obtain ⟨id, hid, hcode⟩ := h
    refine ⟨id, ?_, code_add hcode⟩
    cases op with
    | plain _ _ => exact hid
    | named _ _ _ => exact StringPool.strings_intern hid

/-- An appended operation is there. -/
theorem has_add (h : e.pool.Sound) : (e.add op).Has e.here op := by
  cases op with
  | plain _ instruction => simp [Has, add, push, here]
  | named _ name instruction =>
    refine ⟨(e.pool.intern name).1, h.strings_intern_self, ?_⟩
    simp [add, pushWith, here]

/-- Appending keeps the pool sound. -/
theorem sound_add (h : e.pool.Sound) : (e.add op).pool.Sound := by
  cases op with
  | plain _ _ => exact h
  | named _ _ _ => exact h.intern

/-- Appending a list keeps the operations that are there. -/
theorem Has.addAll {pc : Nat} {old : Op} (h : e.Has pc old) : (e.addAll ops).Has pc old := by
  induction ops generalizing e with
  | nil => exact h
  | cons op ops ih => exact ih h.add

/-- Every operation of an appended list is there at its own offset. -/
theorem each_has_addAll (h : e.pool.Sound) : Op.Each (e.addAll ops).Has e.here ops := by
  induction ops generalizing e with
  | nil => exact Op.each_nil
  | cons op ops ih =>
    rw [Op.each_cons]
    refine ⟨(has_add h).addAll, ?_⟩
    have := ih (e := e.add op) (sound_add h)
    rwa [here_add] at this

end Emitter

/-- Whether a unit has an operation at an offset, with its string in the pool. -/
def CodeUnit.Has (u : CodeUnit) (pc : Nat) : Op → Prop
  | .plain _ instruction => u.code[pc]? = some instruction
  | .named _ name instruction =>
    ∃ id : Nat, u.strings[id]? = some name ∧ u.code[pc]? = some (instruction id)

@[simp] theorem CodeUnit.has_plain {u : CodeUnit} {pc n : Nat} {instruction : Instruction} :
    u.Has pc (.plain n instruction) ↔ u.code[pc]? = some instruction :=
  Iff.rfl

/-- An operation that is there is the instruction at its offset, with a number for its string. -/
theorem CodeUnit.Has.eq_instruction {u : CodeUnit} {pc : Nat} {op : Op} {i : Instruction}
    (h : u.Has pc op) (hcode : u.code[pc]? = some i) :
    (∃ n, op = .plain n i) ∨ ∃ n name j id, op = .named n name j ∧ id < u.strings.size ∧
      j id = i := by
  cases op with
  | plain n j =>
    have hat : u.code[pc]? = some j := h
    obtain rfl : j = i := by simpa [hat] using hcode
    exact Or.inl ⟨n, rfl⟩
  | named n name j =>
    obtain ⟨id, hid, hat⟩ := h
    obtain rfl : j id = i := by simpa [hat] using hcode
    exact Or.inr ⟨n, name, j, id, rfl, (Array.getElem?_eq_some_iff.mp hid).1, rfl⟩

namespace Bound.Program

variable (program : Program)

/-- The parts of the unit of a program. -/
theorem toUnit_eq :
    program.toUnit =
      { code := (({} : Emitter).addAll program.code).code
        top := program.top.entry 0
        functions := (Body.entries program.top.size program.functions).toArray
        globals := program.globals
        strings := (({} : Emitter).addAll program.code).pool.strings } := by
  have hhere : ({} : Emitter).here = 0 := rfl
  rw [toUnit, Emitter.body_eq]
  simp [Emitter.bodies_eq, Program.code, hhere]

/-- The unit has the whole code of the program, from the first offset on. -/
theorem each_has_toUnit : Op.Each program.toUnit.Has 0 program.code := by
  have h : Op.Each (({} : Emitter).addAll program.code).Has 0 program.code :=
    Emitter.each_has_addAll StringPool.sound_empty
  rw [toUnit_eq]
  intro k op hop
  have := h k op hop
  cases op <;> exact this

/-- The unit has no more instructions than the code of the program. -/
theorem size_code_toUnit : program.toUnit.code.size = program.code.length := by
  have h : (({} : Emitter).addAll program.code).here = 0 + program.code.length :=
    Emitter.here_addAll
  rw [toUnit_eq, ← Nat.zero_add program.code.length, ← h]
  rfl

end Bound.Program

end HostScript
