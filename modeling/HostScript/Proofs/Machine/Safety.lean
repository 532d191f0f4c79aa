import HostScript.Machine.Run
import HostScript.Proofs.Compile.Structure
import HostScript.Proofs.Machine.Actions

/-!
# Compiled code does not go wrong

The invariant of a machine that runs a compiled unit: each open call is at an offset of its
own region, has the slots of that region and as many operands as the height of the offset,
where a call that waits is owed one operand. Every instruction keeps it, so that no run ends
in a malformed fault.
-/

namespace HostScript

variable {σ : Type}

/-- A jump with operands in range goes to its own region. -/
theorem Instruction.Valid.target_mem {u : CodeUnit} {r : Region} {pc target : Nat} {i : Instruction}
    (h : i.Valid u r pc) (htarget : target ∈ i.target?) : target ∈ r := by
  cases i with
  | jump t =>
    obtain rfl : t = target := by simpa using htarget
    exact h
  | jumpIfFalse t =>
    obtain rfl : t = target := by simpa using htarget
    exact h.1
  | jumpIfTrue t =>
    obtain rfl : t = target := by simpa using htarget
    exact h.1
  | iterNext array cursor t =>
    obtain rfl : t = target := by simpa using htarget
    exact h.2.2.1
  | _ => cases htarget

/-- An operation that is there and runs at its height is an instruction that does. -/
theorem CodeUnit.Has.flows {u : CodeUnit} {height : Nat → Nat} {pc : Nat} {op : Op}
    {instruction : Instruction} (h : u.Has pc op) (hop : op.Flows height pc)
    (hcode : u.code[pc]? = some instruction) :
    instruction.Flows height pc (height pc) := by
  obtain ⟨n, rfl⟩ | ⟨n, name, i, id, rfl, -, rfl⟩ := h.eq_instruction hcode
  · exact hop.1 ▸ hop.2
  · exact hop.1 ▸ hop.2 id

/-- An operation that is there is an instruction. -/
theorem CodeUnit.Has.code {u : CodeUnit} {pc : Nat} {op : Op} (h : u.Has pc op) :
    ∃ instruction, u.code[pc]? = some instruction := by
  cases op with
  | plain n i => exact ⟨i, h⟩
  | named n name i =>
    obtain ⟨id, -, hat⟩ := h
    exact ⟨i id, hat⟩

section Code

variable {p : Program} {program : Bound.Program}

/-- Every offset of a region has an instruction with operands in range, which runs at the height of
the offset and does not run past the end of the region. -/
theorem instruction_at (hbind : p.bind = .ok program) {function : Option Nat} {r : Region}
    {pc : Nat} (hr : program.toUnit.region? function = some r) (hpc : pc ∈ r) :
    ∃ i, program.toUnit.code[pc]? = some i ∧ i.Valid program.toUnit r pc ∧
      i.Flows program.height pc (program.height pc) ∧ (i.fallsThrough → pc + 1 ∈ r) := by
  have hstructured := structured_toUnit hbind
  have hmem : r ∈ program.toUnit.regions := by
    cases function <;> exact List.mem_of_getElem? hr
  obtain ⟨b, hb, hregion, hcode⟩ := Bound.Program.region_toUnit hr
  have hflows := (Bound.Body.each_flows (hcode _ program.each_heightAt)).2
  have hhas := hcode _ program.each_has_toUnit
  have hstop : pc < r.start + (b.code r.start).length := by
    rw [Bound.Body.length_code]
    exact hregion ▸ hpc.2
  obtain ⟨op, hop, hflow⟩ := (hhas.and hflows).exists_at hpc.1 hstop
  obtain ⟨i, hi⟩ := hop.code
  refine ⟨i, hi, hstructured.valid r hmem pc hpc i hi, hop.flows hflow hi, fun hfalls => ?_⟩
  -- The last instruction of a region is a return, which does not fall through.
  refine ⟨Nat.le_succ_of_le hpc.1, Nat.lt_of_le_of_ne hpc.2 fun hlast => ?_⟩
  have hreturn := (Bound.Body.each_code.mp hhas).2
  have hoffset : pc = r.start + Bound.Stmt.sizes 0 b.statements := by
    have hsize : r.stop = r.start + b.size := congrArg Region.stop hregion
    rw [Bound.Body.size] at hsize
    omega
  rw [← hoffset, CodeUnit.has_plain, hi] at hreturn
  obtain rfl := Option.some.inj hreturn
  cases hfalls

end Code

/-- Whether a call is at an offset of its own region, with its slots and as many operands as
expected there. A call that waits is owed one operand. -/
structure Frame.Placed (program : Bound.Program) (f : Frame) (owed : Nat) : Prop where
  region : ∃ r, program.toUnit.region? f.function = some r ∧ f.pc ∈ r ∧ r.locals ≤ f.locals.size
  height : f.stack.size + owed = program.height f.pc

/-- Whether all open calls are placed, or the machine has stopped without a malformed fault. -/
def Status.Sound (program : Bound.Program) : Status → Prop
  | .running frame callers => frame.Placed program 0 ∧ ∀ caller ∈ callers, caller.Placed program 1
  | .done => True
  | .faulted error => error.fault.isMalformed = false

/-- Whether a machine that runs the unit of a program is in a sound state. -/
structure Machine.Sound (program : Bound.Program) (m : Machine) : Prop where
  unit_eq : m.unit = program.toUnit
  globals_size : m.unit.globals.size = m.globals.size
  status : m.status.Sound program

section Steps

variable {program : Bound.Program}

/-- A frame that goes on from a placed one is placed. -/
theorem Frame.Moves.placed {i : Instruction} {f g : Frame} {r : Region} {owed : Nat}
    (h : (f.goto (f.pc + 1)).Moves i g owed) (hr : program.toUnit.region? f.function = some r)
    (hlocals : r.locals ≤ f.locals.size) (hheight : f.stack.size = program.height f.pc)
    (hvalid : i.Valid program.toUnit r f.pc)
    (hflows : i.Flows program.height f.pc (program.height f.pc))
    (hnext : i.fallsThrough → f.pc + 1 ∈ r) : g.Placed program owed := by
  have hfunction : program.toUnit.region? g.function = some r := by rw [h.function_eq]; exact hr
  have hsize : r.locals ≤ g.locals.size := by rw [h.locals_size]; exact hlocals
  rcases h.goes with ⟨hfalls, hpc, hstack⟩ | ⟨rfl, hpc, hstack⟩
  · have hpc : g.pc = f.pc + 1 := hpc
    refine ⟨⟨r, hfunction, hpc ▸ hnext hfalls, hsize⟩, ?_⟩
    rw [hstack, hpc, hflows.next hfalls, ← hheight]
    rfl
  · refine ⟨⟨r, hfunction, hvalid.target_mem hpc, hsize⟩, ?_⟩
    rw [Nat.add_zero, hstack, hflows.jump g.pc hpc, ← hheight]
    rfl

/-- A call of a function in the table opens a placed frame, or ends in no malformed fault. -/
theorem openCall_benign (limits : Limits) (depth : Nat) (args : Array Value) {function : Nat}
    (hfunction : function < program.toUnit.functions.size) :
    Benign (fun f => f.Placed program 0) (program.toUnit.openCall limits depth function args) := by
  have hentry := Array.getElem?_eq_getElem hfunction
  generalize program.toUnit.functions[function] = entry at hentry
  unfold CodeUnit.openCall
  simp only [hentry]
  split
  · rfl
  next harity =>
  split
  · rfl
  obtain ⟨b, hb, hentry', hregion⟩ := Bound.Program.function_toUnit hentry
  have harity : args.size = entry.arity := Decidable.not_not.mp harity
  obtain ⟨b', -, hr, hcode⟩ := Bound.Program.region_toUnit hregion
  refine ⟨⟨b.region entry.start, hregion, ?_, ?_⟩, ?_⟩
  · simp only [Region.mem_iff, Bound.Body.region, Bound.Body.size]
    omega
  · have hlocals : (b.region entry.start).locals = entry.locals := by rw [hentry']; rfl
    simp only [hlocals, Array.size_append, Array.size_replicate]
    omega
  · exact (Bound.Body.each_flows (hcode _ program.each_heightAt)).1.symm

/-- What an instruction of a placed frame asks for leads to a sound status. -/
theorem follow_sound {limits : Limits} {i : Instruction} {f : Frame} {callers : List Frame}
    {action : Action} (haction : action.Follows program.toUnit i (f.goto (f.pc + 1)))
    (hplaced : ∀ g owed, (f.goto (f.pc + 1)).Moves i g owed → g.Placed program owed)
    (hcallers : ∀ caller ∈ callers, caller.Placed program 1) :
    (Machine.follow program.toUnit limits f.pc f.function callers action).Sound program := by
  cases action with
  | proceed g => exact ⟨hplaced g 0 haction, hcallers⟩
  | assign g id value => exact ⟨hplaced g 0 haction, hcallers⟩
  | call g function args =>
    obtain ⟨hmoves, hfunction⟩ := haction
    have hopen := openCall_benign limits (callers.length + 1) args hfunction
    simp only [Machine.follow]
    split
    next heq =>
      rw [heq] at hopen
      exact ⟨hopen, List.forall_mem_cons.mpr ⟨hplaced g 1 hmoves, hcallers⟩⟩
    next heq =>
      rw [heq] at hopen
      exact hopen
  | leave value =>
    cases callers with
    | nil => trivial
    | cons caller callers =>
      obtain ⟨hcaller, hrest⟩ := List.forall_mem_cons.mp hcallers
      simp only [Machine.follow, Frame.push]
      split
      next g heq =>
        split at heq
        · obtain rfl := Except.ok.inj heq
          refine ⟨⟨hcaller.region, ?_⟩, hrest⟩
          simpa using hcaller.height
        · cases heq
      next fault heq =>
        split at heq
        · cases heq
        · obtain rfl := Except.error.inj heq
          rfl

/-- Every instruction keeps the machine sound and the host tame. -/
theorem exec_sound {p : Program} (hbind : p.bind = .ok program) {m : Machine} {host : Host σ}
    (hm : m.Sound program) (htame : host.Tame program.toUnit.functions.size) :
    (m.exec host).1.Sound program ∧ (m.exec host).2.Tame program.toUnit.functions.size := by
  obtain ⟨u, limits, globals, status⟩ := m
  obtain ⟨hunit, hglobals, hstatus⟩ := hm
  obtain rfl : u = program.toUnit := hunit
  cases status with
  | done => exact ⟨⟨rfl, hglobals, hstatus⟩, htame⟩
  | faulted error => exact ⟨⟨rfl, hglobals, hstatus⟩, htame⟩
  | running f callers =>
    obtain ⟨⟨⟨r, hr, hpc, hlocals⟩, hheight⟩, hcallers⟩ := hstatus
    obtain ⟨i, hi, hvalid, hflows, hnext⟩ := instruction_at hbind hr hpc
    have hpops : i.pops ≤ f.stack.size := by
      have := hflows.pops_le
      omega
    have hacts : Acts program.toUnit i (f.goto (f.pc + 1)) host
        (i.act program.toUnit limits.operands globals (f.goto (f.pc + 1)) host) :=
      Instruction.act_acts hvalid hpops hlocals hglobals htame
    simp only [Machine.exec, hi]
    rcases hresult :
      i.act program.toUnit limits.operands globals (f.goto (f.pc + 1)) host with ⟨result, host'⟩
    rw [hresult] at hacts
    obtain ⟨hbenign, hsame⟩ := hacts
    cases result with
    | error error =>
      refine ⟨⟨rfl, hglobals, ?_⟩, htame.of_same hsame⟩
      simpa [Status.Sound] using hbenign
    | ok action =>
      refine ⟨⟨rfl, ?_, ?_⟩, htame.of_same hsame⟩
      · cases action <;> simpa [Machine.assigned] using hglobals
      · exact follow_sound (i := i) hbenign
          (fun g owed hg => hg.placed hr hlocals hheight hvalid hflows hnext) hcallers

/-- Every number of instructions keeps the machine sound and the host tame. -/
theorem execMany_sound {p : Program} (hbind : p.bind = .ok program) {m : Machine} {host : Host σ}
    (hm : m.Sound program) (htame : host.Tame program.toUnit.functions.size) (n : Nat) :
    (m.execMany host n).1.Sound program := by
  induction n generalizing m host with
  | zero => exact hm
  | succ n ih =>
    obtain ⟨hexec, htame'⟩ := exec_sound hbind hm htame
    exact ih hexec htame'

/-- A machine at the start of a compiled unit is sound. -/
theorem start_sound (program : Bound.Program) (limits : Limits) :
    (Machine.start program.toUnit limits).Sound program := by
  have hregion : program.toUnit.region? none = some (program.top.region 0) := by
    rw [CodeUnit.region?, Bound.Program.regions_toUnit]
    rfl
  have htop : program.toUnit.top = program.top.entry 0 := by rw [Bound.Program.toUnit_eq]
  obtain ⟨b, hb, -, hcode⟩ := Bound.Program.region_toUnit hregion
  refine ⟨rfl, by simp [Machine.start], ⟨⟨program.top.region 0, hregion, ?_, ?_⟩, ?_⟩, by simp⟩
  · simp only [htop, Region.mem_iff, Bound.Body.region, Bound.Body.size, Bound.Body.entry]
    omega
  · simp [htop, Bound.Body.region, Bound.Body.entry]
  · rw [htop]
    exact (Bound.Body.each_flows (hcode _ program.each_heightAt)).1.symm

end Steps

namespace Instruction

/-- The local slots that an instruction uses. -/
def slots : Instruction → List Nat
  | .loadLocal slot | .storeLocal slot => [slot]
  | .iterNext array cursor _ => [array, cursor]
  | _ => []

/-- The script global that an instruction uses. -/
def global? : Instruction → Option Nat
  | .loadGlobal id | .storeGlobal id => some id
  | _ => none

/-- The string that an instruction uses. -/
def string? : Instruction → Option Nat
  | .pushString id | .loadHost id | .storeHost id | .callNative id _ | .callMethod id _ => some id
  | _ => none

/-- The script function that an instruction calls. -/
def function? : Instruction → Option Nat
  | .callScript function _ => some function
  | _ => none

/-- Whether all that an instruction uses is there when it runs in a frame. -/
structure Usable (u : CodeUnit) (globals : Array Value) (frame : Frame)
    (i : Instruction) : Prop where
  operands : i.pops ≤ frame.stack.size
  slots : ∀ slot ∈ i.slots, slot < frame.locals.size
  globals : ∀ id ∈ i.global?, id < globals.size
  strings : ∀ id ∈ i.string?, id < u.strings.size
  functions : ∀ id ∈ i.function?, id < u.functions.size

/-- An instruction with operands in range that finds its operands is usable. -/
theorem Valid.usable {u : CodeUnit} {globals : Array Value} {frame : Frame} {i : Instruction}
    {r : Region} {pc : Nat} (h : i.Valid u r pc) (hpops : i.pops ≤ frame.stack.size)
    (hlocals : r.locals ≤ frame.locals.size) (hglobals : u.globals.size = globals.size) :
    i.Usable u globals frame := by
  refine ⟨hpops, fun slot hslot => ?_, fun id hid => ?_, fun id hid => ?_, fun id hid => ?_⟩
  · refine Nat.lt_of_lt_of_le ?_ hlocals
    cases i <;> simp_all [Instruction.slots, Valid]
    grind
  · cases i <;> simp_all [Instruction.global?, Valid]
  · cases i <;> simp_all [Instruction.string?, Valid]
  · cases i <;> simp_all [Instruction.function?, Valid]
    grind

end Instruction

/-- Whether a machine is safe: it has not stopped at a malformed fault, and while it runs every open
call is at an offset of its own region, and all that the next instruction uses is there. -/
def Machine.Safe (m : Machine) : Prop :=
  match m.status with
  | .running frame callers =>
    (∀ f ∈ frame :: callers, ∃ r, m.unit.region? f.function = some r ∧ f.pc ∈ r) ∧
      ∃ i, m.unit.code[frame.pc]? = some i ∧ i.Usable m.unit m.globals frame
  | .done => True
  | .faulted error => error.fault.isMalformed = false

/-- A machine in a sound state is safe. -/
theorem Machine.Sound.safe {p : Program} {program : Bound.Program} (hbind : p.bind = .ok program)
    {m : Machine} (h : m.Sound program) : m.Safe := by
  obtain ⟨u, limits, globals, status⟩ := m
  obtain ⟨hunit, hglobals, hstatus⟩ := h
  obtain rfl : u = program.toUnit := hunit
  cases status with
  | done => trivial
  | faulted error => exact hstatus
  | running frame callers =>
    obtain ⟨⟨⟨r, hr, hpc, hlocals⟩, hheight⟩, hcallers⟩ := hstatus
    obtain ⟨i, hi, hvalid, hflows, -⟩ := instruction_at hbind hr hpc
    refine ⟨List.forall_mem_cons.mpr ⟨⟨r, hr, hpc⟩, fun caller hcaller => ?_⟩, i, hi, ?_⟩
    · obtain ⟨r', hr', hpc', -⟩ := (hcallers caller hcaller).region
      exact ⟨r', hr', hpc'⟩
    · have hpops := hflows.pops_le
      exact hvalid.usable (by omega) hlocals hglobals

/-- However many instructions of a compiled unit are executed, under whatever limits and with any
tame host, the machine still runs that unit and is safe. -/
theorem compiled_run_safe {p : Program} {u : CodeUnit} (hcompile : compile p = .ok u)
    (limits : Limits) {host : Host σ} (htame : host.Tame u.functions.size) (n : Nat) :
    ((Machine.start u limits).execMany host n).1.unit = u ∧
      ((Machine.start u limits).execMany host n).1.Safe := by
  obtain ⟨program, hbind, rfl⟩ := compile_eq_ok_iff.mp hcompile
  have hsound := execMany_sound hbind (start_sound program limits) htame n
  exact ⟨hsound.unit_eq, hsound.safe hbind⟩

/-- A host with a native that calls back the first function of a script. -/
def callbackHost : Host Unit where
  state := ()
  natives := ({} : Std.TreeMap String (Callable Unit)).insert "again" (.script ⟨0, "find", 2⟩)

/-- Running the program with a loop that is left early is safe, with a host that calls back, on two
open calls and three operands. -/
theorem searchProgram_run_safe :
    ∃ u, compile searchProgram = .ok u ∧ callbackHost.Tame u.functions.size ∧
      ∀ n, ((Machine.start u ⟨2, 3⟩).execMany callbackHost n).1.Safe := by
  obtain ⟨u, hu, hsize⟩ := compile_searchProgram
  have htame : callbackHost.Tame u.functions.size := by
    refine ⟨fun name callable hcallable args state => ?_,
      fun id name state callable h => by cases h⟩
    simp only [callbackHost, Std.TreeMap.getElem?_insert] at hcallable
    split at hcallable
    · obtain rfl := Option.some.inj hcallable
      simp only [Callable.call, ScriptHandle.call]
      split
      · exact hsize ▸ Nat.one_pos
      · rfl
    · simp at hcallable
  exact ⟨u, hu, htame, fun n => (compiled_run_safe hu ⟨2, 3⟩ htame n).2⟩

end HostScript
