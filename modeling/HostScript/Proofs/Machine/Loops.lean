import HostScript.Proofs.Compile.Loops
import HostScript.Proofs.Execution.Instructions
import HostScript.Proofs.Machine.Heights
import HostScript.Proofs.Machine.Lifecycle
import HostScript.Proofs.Machine.Stretches
import HostScript.Proofs.Number.Counting

/-!
# Loops over arrays

A loop over an array keeps the array and a cursor in slots that have no name, so that its body
cannot change them, whatever it assigns to and whichever calls it makes. Every turn takes the item
at the cursor, moves the cursor on and puts the item into the slot of the loop variable before the
body starts. The loop is left when there is no item at the cursor, or by a break, and then the call
holds as many operands as before the loop: none.
-/

namespace HostScript

open Machine

variable {σ : Type}

section Instructions

variable {m : Machine} {function : Option Nat} {pc : Nat} {locals : Array Value}
  {callers : List Frame}

/-- An instruction that changes nothing but the frame leads on with that frame. -/
theorem exec_proceed {f g : Frame} {i : Instruction} (hstatus : m.status = .running f callers)
    (hcode : m.unit.code[f.pc]? = some i) {host host' : Host σ}
    (hact : i.act m.unit m.limits.operands m.globals (f.goto (f.pc + 1)) host =
        (.ok (.proceed g), host')) : (m.exec host).1.status = .running g callers := by
  rw [exec_eq_settle hstatus hcode, hact]
  rfl

theorem exec_storeLocal {slot : Nat} {value : Value}
    (hstatus : m.status = .running ⟨function, pc, locals, #[value]⟩ callers)
    (hcode : m.unit.code[pc]? = some (.storeLocal slot)) (hslot : slot < locals.size)
    (host : Host σ) : (m.exec host).1.status =
      .running ⟨function, pc + 1, locals.setIfInBounds slot value, #[]⟩ callers := by
  have hact := act_storeLocal m.unit m.limits.operands m.globals
    ⟨function, pc + 1, locals, #[]⟩ host slot value
  rw [if_pos hslot] at hact
  exact exec_proceed hstatus hcode hact

theorem exec_pushNumber {n : Float}
    (hstatus : m.status = .running ⟨function, pc, locals, #[]⟩ callers)
    (hcode : m.unit.code[pc]? = some (.pushNumber n)) (hroom : 0 < m.limits.operands)
    (host : Host σ) :
    (m.exec host).1.status = .running ⟨function, pc + 1, locals, #[.number n]⟩ callers := by
  have hact : (Instruction.pushNumber n).act m.unit m.limits.operands m.globals
      ⟨function, pc + 1, locals, #[]⟩
      host = (.ok (.proceed ⟨function, pc + 1, locals, #[.number n]⟩), host) := by
    rw [Instruction.act, Instruction.quietly, Frame.deliver_of_lt hroom]
    rfl
  exact exec_proceed hstatus hcode hact

theorem exec_jump {target : Nat} (hstatus : m.status = .running ⟨function, pc, locals, #[]⟩ callers)
    (hcode : m.unit.code[pc]? = some (.jump target)) (host : Host σ) :
    (m.exec host).1.status = .running ⟨function, target, locals, #[]⟩ callers :=
  exec_proceed hstatus hcode rfl

section Iteration

variable {array cursor exit : Nat} {n : Float}

/-- The step of a loop pushes the item at the cursor and moves the cursor on. -/
theorem exec_iterNext_some {items : Array Value} {item : Value}
    (hstatus : m.status = .running ⟨function, pc, locals, #[]⟩ callers)
    (hcode : m.unit.code[pc]? = some (.iterNext array cursor exit)) (hroom : 0 < m.limits.operands)
    (hcursor : locals[cursor]? = some (.number n)) (harray : locals[array]? = some (.array items))
    (hitem : items[Number.count n]? = some item) (host : Host σ) :
    (m.exec host).1.status =
      .running ⟨function, pc + 1, locals.setIfInBounds cursor (.number (n + 1.0)),
          #[item]⟩ callers := by
  have hact := act_iterNext m.unit m.limits.operands m.globals ⟨function, pc + 1, locals, #[]⟩ host
    exit hcursor harray
  rw [hitem] at hact
  dsimp only at hact
  rw [Frame.deliver_of_lt hroom] at hact
  exact exec_proceed hstatus hcode hact

/-- The step of a loop goes to the exit if there is no item at the cursor. -/
theorem exec_iterNext_none {items : Array Value}
    (hstatus : m.status = .running ⟨function, pc, locals, #[]⟩ callers)
    (hcode : m.unit.code[pc]? = some (.iterNext array cursor exit))
    (hcursor : locals[cursor]? = some (.number n)) (harray : locals[array]? = some (.array items))
    (hitem : items[Number.count n]? = none) (host : Host σ) :
    (m.exec host).1.status = .running ⟨function, exit, locals, #[]⟩ callers := by
  have hact := act_iterNext m.unit m.limits.operands m.globals ⟨function, pc + 1, locals, #[]⟩ host
    exit hcursor harray
  rw [hitem] at hact
  exact exec_proceed hstatus hcode hact

/-- The step of a loop fails if there is something else in the slot of the array. -/
theorem exec_iterNext_mismatch {value : Value}
    (hstatus : m.status = .running ⟨function, pc, locals, #[]⟩ callers)
    (hcode : m.unit.code[pc]? = some (.iterNext array cursor exit))
    (hcursor : locals[cursor]? = some (.number n)) (harray : locals[array]? = some value)
    (hvalue : ∀ items, value ≠ .array items) (host : Host σ) :
    ∃ error, (m.exec host).1.status = .faulted error ∧ error.fault = value.mismatch "array" ∧
      error.pc = some pc := by
  have hact : (Instruction.iterNext array cursor exit).act m.unit m.limits.operands m.globals
      ⟨function, pc + 1, locals, #[]⟩ host =
        (.error { fault := value.mismatch "array" }, host) := by
    simp only [Instruction.act, Instruction.quietly, Frame.advance, Frame.getLocal, hcursor, harray,
      bind, Except.bind]
    cases value with
    | array items => exact absurd rfl (hvalue items)
    | _ => rfl
  rw [exec_eq_settle hstatus hcode]
  simp only [Frame.goto, hact, settle]
  exact ⟨_, rfl, RuntimeError.fault_locate _ _ _, rfl⟩

end Iteration

end Instructions

/-- Whether a run of a unit comes to a machine with its host. -/
def Machine.Reachable (u : CodeUnit) (limits : Limits) (c : Machine × Host σ) : Prop :=
  ∃ host n, c = after (start u limits, host) n

namespace Machine.Reachable

variable {u : CodeUnit} {limits : Limits} {c : Machine × Host σ} {p : Program}
  {program : Bound.Program} {f : Frame} {callers : List Frame}

theorem after (h : Reachable u limits c) (k : Nat) : Reachable u limits (after c k) := by
  obtain ⟨host, n, rfl⟩ := h
  exact ⟨host, n + k, (after_add _ n k).symm⟩

theorem unit_eq (h : Reachable u limits c) : c.1.unit = u := by
  obtain ⟨host, n, rfl⟩ := h
  exact unit_after _ n

theorem limits_eq (h : Reachable u limits c) : c.1.limits = limits := by
  obtain ⟨host, n, rfl⟩ := h
  exact limits_after _ n

/-- All open calls are at their places. -/
theorem status_placed (hbind : p.bind = .ok program) (h : Reachable program.toUnit limits c) :
    c.1.status.Placed program := by
  obtain ⟨host, n, rfl⟩ := h
  exact execMany_placed hbind limits host n

/-- The current call is at its place. -/
theorem placed (hbind : p.bind = .ok program) (h : Reachable program.toUnit limits c)
    (hstatus : c.1.status = .running f callers) : f.Placed program 0 := by
  have hplaced := h.status_placed hbind
  rw [hstatus] at hplaced
  exact hplaced.1

/-- The current call has no more operands than the limit. -/
theorem size_stack_le (h : Reachable u limits c) (hstatus : c.1.status = .running f callers) :
    f.stack.size ≤ limits.operands := by
  obtain ⟨host, n, rfl⟩ := h
  have horderly := Status.Orderly.after u limits host n
  rw [hstatus] at horderly
  exact horderly.operands f List.mem_cons_self

/-- The current call has no operands at an offset of height zero. -/
theorem stack_eq_empty (hbind : p.bind = .ok program) (h : Reachable program.toUnit limits c)
    (hstatus : c.1.status = .running f callers) (hheight : program.height f.pc = 0) :
    f.stack = #[] := by
  have hsize := (h.placed hbind hstatus).height
  rw [hheight] at hsize
  exact Array.eq_empty_of_size_eq_zero hsize

/-- The operands of the next instruction are in range, and it leads to offsets with the
heights that it leaves. -/
theorem valid (hbind : p.bind = .ok program) (h : Reachable program.toUnit limits c)
    (hstatus : c.1.status = .running f callers) {i : Instruction}
    (hcode : program.toUnit.code[f.pc]? = some i) :
    ∃ r : Region, r.locals ≤ f.locals.size ∧ i.Valid program.toUnit r f.pc ∧
      i.Flows program.height f.pc (program.height f.pc) := by
  obtain ⟨r, hr, hpc, hlocals⟩ := (h.placed hbind hstatus).region
  obtain ⟨i', hi', hvalid, hflows, -⟩ := instruction_at hbind hr hpc
  obtain rfl := Option.some.inj (hcode.symm.trans hi')
  exact ⟨r, hlocals, hvalid, hflows⟩

/-- A slot that the next instruction stores into is there. -/
theorem slot_lt (hbind : p.bind = .ok program) (h : Reachable program.toUnit limits c)
    (hstatus : c.1.status = .running f callers) {slot : Nat}
    (hcode : program.toUnit.code[f.pc]? = some (.storeLocal slot)) : slot < f.locals.size := by
  obtain ⟨r, hlocals, hvalid, -⟩ := h.valid hbind hstatus hcode
  exact Nat.lt_of_lt_of_le hvalid hlocals

end Machine.Reachable

namespace Loop

variable (l : Loop)

/-- Where a call may be when its run of the body is over, or before that. -/
def Reach (pc : Nat) : Prop :=
  l.first ≤ pc ∧ pc ≤ l.close ∨ pc = l.exit ∨ pc = l.next

/-- What is known of a loop that stands in the code of a program. -/
structure StandsIn (program : Bound.Program) : Prop where
  store : program.toUnit.code[l.loaded]? = some (.storeLocal l.array)
  zero : program.toUnit.code[l.loaded + 1]? = some (.pushNumber 0.0)
  reset : program.toUnit.code[l.loaded + 2]? = some (.storeLocal l.cursor)
  step : program.toUnit.code[l.next]? = some (.iterNext l.array l.cursor l.exit)
  take : program.toUnit.code[l.next + 1]? = some (.storeLocal l.item)
  again : program.toUnit.code[l.close]? = some (.jump l.next)
  source :
    program.toUnit.Confines l.start l.loaded (fun pc => l.start ≤ pc ∧ pc ≤ l.loaded) fun _ => False
  body : program.toUnit.Confines l.first l.close l.Reach (· ∈ l.body.written)
  height_start : program.height l.start = 0
  height_loaded : program.height l.loaded = 1
  height_next : program.height l.next = 0
  height_close : program.height l.close = 0
  array_ne_cursor : l.array ≠ l.cursor
  item_ne_array : l.item ≠ l.array
  item_ne_cursor : l.item ≠ l.cursor
  array_unwritten : l.array ∉ l.body.written
  cursor_unwritten : l.cursor ∉ l.body.written

end Loop

/-- Code of operations that keep to certain offsets and slots. -/
theorem CodeUnit.confines_of_each {u : CodeUnit}
    {offsets slots : Nat → Prop} {lo hi : Nat} {ops : List Op}
    (hhas : Op.Each u.Has lo ops) (hkeepsTo : Op.Each (fun _ op => op.KeepsTo offsets slots) lo ops)
    (hlength : lo + ops.length = hi) (hoffsets : ∀ pc, lo ≤ pc → pc ≤ hi → offsets pc) :
    u.Confines lo hi offsets slots := by
  refine ⟨hoffsets, fun pc hlo hhi => ?_⟩
  obtain ⟨op, hop, hkeeps⟩ := (hhas.and hkeepsTo).exists_at hlo (hlength ▸ hhi)
  exact hop.keepsTo hkeeps

/-- A loop of a program has its instructions, and its body leaves the array and the cursor alone. -/
theorem Loop.IsOf.standsIn {l : Loop} {program : Bound.Program} {around : Surroundings}
    {v : Visible} {name : String} {source : Expr} {body : Stmt}
    (h : l.IsOf program around v name source body) : l.StandsIn program := by
  obtain ⟨inLoop, v', exits, hsound, hbind, hcode⟩ := h
  obtain ⟨b₁, b₂, v₂, -, hlimit, hbody, hr⟩ := bindStmt_forLoop.mp hbind
  obtain ⟨harray, hcursor, hitem, -, hb₂⟩ := Bound.Stmt.forLoop.inj (Prod.mk.inj hr).1
  rw [hb₂] at hbody
  have hnone : ∀ n ∈ ([] : List Nat), v.scopes.Hidden n := nofun
  obtain ⟨-, -, -, hhidden⟩ := Visible.forHeader_hidden name hsound hlimit hnone
  obtain ⟨hcursorHidden, harrayHidden⟩ := List.forall_mem_cons.mp hhidden
  obtain ⟨hsource, hstore, hzero, hreset, hstep, htake, hbodyCode, hagain⟩ :=
    Bound.Stmt.each_forLoop.mp (program.each_has_toUnit.part hcode)
  obtain ⟨hsourceHeight, hloadedHeight, -, -, hnextHeight, -, -, hcloseHeight⟩ :=
    Bound.Stmt.each_forLoop.mp (program.each_heightAt.part hcode)
  have hreach : ∀ pc, l.first ≤ pc → pc ≤ l.close → l.Reach pc := fun pc hlo hhi => .inl ⟨hlo, hhi⟩
  exact {
    store := hstore
    zero := hzero
    reset := hreset
    step := hstep
    take := htake
    again := hagain
    source := CodeUnit.confines_of_each hsource
      (l.source.each_keepsTo (fun pc hlo hhi => ⟨hlo, hhi⟩) _ _ (Nat.le_refl _) (Nat.le_refl _))
      (by rw [Bound.Expr.length_code]; rfl) fun pc hlo hhi => ⟨hlo, hhi⟩
    body := CodeUnit.confines_of_each hbodyCode
      (l.body.each_keepsTo hreach _ (.inr (.inl rfl)) (.inr (.inr rfl)) _ (Nat.le_refl _)
        (Nat.le_refl _)
        fun slot hslot => hslot)
      (by rw [Bound.Stmt.length_code]; rfl) hreach
    height_start := (l.source.each_flows _ _ hsourceHeight hloadedHeight).1
    height_loaded := hloadedHeight
    height_next := hnextHeight
    height_close := hcloseHeight
    array_ne_cursor := by omega
    item_ne_array := by omega
    item_ne_cursor := by omega
    array_unwritten := harray ▸ bindStmt_written true body _ v₂ l.body
      (harrayHidden _ List.mem_cons_self) hbody
    cursor_unwritten := hcursor ▸ bindStmt_written true body _ v₂ l.body hcursorHidden hbody }

end HostScript
