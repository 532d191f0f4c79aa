import HostScript.Proofs.Machine.Agree
import HostScript.Proofs.Machine.Calls

/-!
# What a slot holds before it is in use

A new frame holds its arguments, and void in all other slots. Compiled code does not notice what
these are filled with: runs that fill them with different values are in lock step, and differ in
slots that are not in use only. The same holds of what is left over in a slot when the block that
used it has ended.
-/

namespace HostScript

open Machine

variable {σ : Type}

/-- The number of parameters of a function. The top-level code has none. -/
def CodeUnit.arityOf (u : CodeUnit) (function : Option Nat) : Nat :=
  ((function.bind fun id => u.functions[id]?).map (·.arity)).getD 0

/-- The frame with other values in the slots that are not parameters. -/
def Frame.refill (fill : Nat → Value) (arity : Nat) (f : Frame) : Frame :=
  { f with locals := f.locals.mapIdx fun slot value => if slot < arity then value else fill slot }

namespace Machine

/-- The machine with other values in the slots of the current call that are not parameters. -/
def refill (fill : Nat → Value) (m : Machine) : Machine :=
  match m.status with
  | .running f callers =>
    { m with status := .running (f.refill fill (m.unit.arityOf f.function)) callers }
  | _ => m

/-- Executes one instruction. If it opens a call, the slots of the new frame that are not
parameters are filled. -/
def execFilling (fill : Nat → Value) (m : Machine) (host : Host σ) : Machine × Host σ :=
  let next := m.exec host
  if m.depth < next.1.depth then (next.1.refill fill, next.2) else next

/-- The machine and the host after a number of instructions, if the slots of new frames that are not
parameters are filled: with `fill 0` at the start, and with `fill n` by the `n`th instruction. -/
def filled (fill : Nat → Nat → Value) (u : CodeUnit) (limits : Limits) (host : Host σ) :
    (n : Nat) → Machine × Host σ
  | 0 => ((start u limits).refill (fill 0), host)
  | n + 1 =>
    match filled fill u limits host n with
    | (m, host) => m.execFilling (fill (n + 1)) host

end Machine

/-- Whether two machines and their hosts are the same but for the values of locals. -/
structure LockStep (c c' : Machine × Host σ) : Prop where
  machine : c.1.Agrees (fun _ => 0) c'.1
  host : c'.2 = c.2

section Agreement

variable {used : Nat → Nat} {fill fill' : Nat → Value} {m m' : Machine}

/-- Machines that agree on the slots in use, with the same host, are in lock step. -/
theorem Machine.Agrees.lockStep {c c' : Machine × Host σ} (h : c.1.Agrees used c'.1)
    (hhost : c'.2 = c.2) : LockStep c c' := by
  obtain ⟨⟨u, limits, globals, status⟩, host⟩ := c
  obtain ⟨⟨u', limits', globals', status'⟩, host'⟩ := c'
  obtain ⟨hunit, hlimits, hglobals, hstatus⟩ := h
  have hframe : ∀ f g : Frame, f.AgreesInUse used g → f.AgreesInUse (fun _ => 0) g :=
    fun f g hfg => hfg.mono fun slot hslot => absurd hslot (Nat.not_lt_zero slot)
  refine ⟨⟨hunit, hlimits, hglobals, ?_⟩, hhost⟩
  cases hstatus with
  | running hcurrent hcallers => exact .running (hframe _ _ hcurrent) (hcallers.imp hframe)
  | done => exact .done
  | faulted error => exact .faulted error

/-- Machines that agree have as many open calls. -/
theorem Machine.Agrees.depth_eq (h : m.Agrees used m') : m'.depth = m.depth := by
  obtain ⟨u, limits, globals, status⟩ := m
  obtain ⟨u', limits', globals', status'⟩ := m'
  obtain ⟨-, -, -, hstatus⟩ := h
  cases hstatus with
  | running hcurrent hcallers => exact congrArg (· + 1) hcallers.length_eq.symm
  | done => rfl
  | faulted error => rfl

/-- Frames agree on the parameters, whatever else they are filled with. -/
theorem Frame.Agrees.refill {f g : Frame} {k arity : Nat} (h : f.Agrees (· < k) g)
    (hk : k ≤ arity) : (f.refill fill arity).Agrees (· < k) (g.refill fill' arity) := by
  refine ⟨h.function_eq, h.pc_eq, h.stack_eq, by simpa [Frame.refill] using h.size_eq,
    fun slot hslot => ?_⟩
  have hparam : slot < arity := Nat.lt_of_lt_of_le hslot hk
  simp [Frame.refill, Array.getElem?_mapIdx, hparam, h.locals_eq slot hslot]

/-- Machines at the start of a call agree, whatever the slots that are not parameters are filled
with. -/
theorem Machine.Agrees.refill (h : m.Agrees used m')
    (hstart : ∀ f callers, m.status = .running f callers → used f.pc ≤ m.unit.arityOf f.function) :
    (m.refill fill).Agrees used (m'.refill fill') := by
  obtain ⟨u, limits, globals, status⟩ := m
  obtain ⟨u', limits', globals', status'⟩ := m'
  obtain ⟨rfl, rfl, rfl, hstatus⟩ := h
  cases hstatus with
  | @running f g callers callers' hcurrent hcallers =>
    refine ⟨rfl, rfl, rfl, .running ?_ hcallers⟩
    rw [hcurrent.function_eq]
    exact Frame.Agrees.refill hcurrent (hstart f callers rfl)
  | done => exact ⟨rfl, rfl, rfl, .done⟩
  | faulted error => exact ⟨rfl, rfl, rfl, .faulted error⟩

end Agreement

section Runs

variable {used : Nat → Nat} {u : CodeUnit} {limits : Limits} {fill : Nat → Value}

/-- An instruction that makes the machine deeper leaves it at the entry of a function, with the
arguments and void in all other slots. -/
theorem opened_frame {m : Machine} {host : Host σ} (hdepth : m.depth < (m.exec host).1.depth) :
    ∃ id entry args callers, m.unit.functions[id]? = some entry ∧ args.size = entry.arity ∧
      (m.exec host).1.status = .running
        { function := some id
          pc := entry.start
          locals := args ++ Array.replicate (max entry.locals entry.arity - args.size) .void
            } callers := by
  cases hstatus : m.status with
  | running f callers =>
    rw [depth, hstatus] at hdepth
    obtain ⟨i, id, args, callee, -, -, -, hopen, hnext⟩ :=
      (exec_successor hstatus host).opened rfl hdepth
    obtain ⟨entry, hentry, harity, -, rfl⟩ := CodeUnit.openCall_eq_ok hopen
    exact ⟨id, entry, args, _, hentry, harity, hnext⟩
  | done =>
    rw [exec_of_not_running host (by rw [isRunning, hstatus])] at hdepth
    exact absurd hdepth (Nat.lt_irrefl _)
  | faulted error =>
    rw [exec_of_not_running host (by rw [isRunning, hstatus])] at hdepth
    exact absurd hdepth (Nat.lt_irrefl _)

/-- A new frame does not have more in use than its parameters. -/
theorem opened_used_le {m : Machine} {host : Host σ} (hu : m.unit.Respects used)
    (hdepth : m.depth < (m.exec host).1.depth) {f : Frame} {callers : List Frame}
    (hf : (m.exec host).1.status = .running f callers) : used f.pc ≤ m.unit.arityOf f.function := by
  obtain ⟨id, entry, args, callers', hentry, -, hopened⟩ := opened_frame hdepth
  obtain ⟨rfl, rfl⟩ := Status.running.inj (hf.symm.trans hopened)
  simpa [CodeUnit.arityOf, hentry] using hu.functions id entry hentry

theorem unit_execFilling (m : Machine) (host : Host σ) :
    (m.execFilling fill host).1.unit = m.unit := by
  have hrefill : ∀ m : Machine, (m.refill fill).unit = m.unit := by
    intro m
    unfold Machine.refill
    split <;> rfl
  unfold execFilling
  dsimp only
  split
  · rw [hrefill, (exec_same m host).1]
  · exact (exec_same m host).1

/-- Machines that agree still do after an instruction, whatever new frames are filled with. -/
theorem execFilling_agrees {m m' : Machine} {fill' : Nat → Value} (hu : m.unit.Respects used)
    (h : m.Agrees used m') (host : Host σ) :
    (m.execFilling fill host).1.Agrees used (m'.execFilling fill' host).1 ∧
      (m'.execFilling fill' host).2 = (m.execFilling fill host).2 := by
  obtain ⟨hnext, hhost⟩ := exec_agrees hu h host
  unfold execFilling
  dsimp only
  rw [h.depth_eq, hnext.depth_eq]
  split
  next hdepth =>
    refine ⟨hnext.refill fun f callers hf => ?_, hhost⟩
    rw [(exec_same m host).1]
    exact opened_used_le hu hdepth hf
  · exact ⟨hnext, hhost⟩

theorem filled_succ (fill : Nat → Nat → Value) (host : Host σ) (n : Nat) :
    filled fill u limits host (n + 1) =
      (filled fill u limits host n).1.execFilling (fill (n + 1)) (filled fill u limits host n).2 :=
  rfl

/-- Runs that fill new frames differently agree all along. -/
theorem filled_agrees (hu : u.Respects used) (fill fill' : Nat → Nat → Value)
    (host : Host σ) (n : Nat) :
    (filled fill u limits host n).1.unit = u ∧
      (filled fill u limits host n).1.Agrees used (filled fill' u limits host n).1 ∧
      (filled fill' u limits host n).2 = (filled fill u limits host n).2 := by
  induction n with
  | zero =>
    have hsame : (start u limits).Agrees used (start u limits) :=
      ⟨rfl, rfl, rfl, .running (Frame.Agrees.refl _) .nil⟩
    refine ⟨rfl, hsame.refill fun f callers hf => ?_, rfl⟩
    obtain ⟨rfl, -⟩ := Status.running.inj hf
    exact Nat.le_of_eq hu.top
  | succ n ih =>
    obtain ⟨hunit, hagrees, hhost⟩ := ih
    rw [filled_succ, filled_succ, hhost]
    exact ⟨(unit_execFilling _ _).trans hunit, execFilling_agrees (hunit.symm ▸ hu) hagrees _⟩

/-- Machines that agree on the slots in use are in lock step from then on. -/
theorem after_agrees {c : Machine × Host σ} {m : Machine} (hu : c.1.unit.Respects used)
    (h : c.1.Agrees used m) (n : Nat) :
    (after c n).1.Agrees used (after (m, c.2) n).1 ∧ (after (m, c.2) n).2 = (after c n).2 := by
  induction n with
  | zero => exact ⟨h, rfl⟩
  | succ n ih =>
    obtain ⟨hagrees, hhost⟩ := ih
    rw [after_succ_last, after_succ_last, hhost]
    exact exec_agrees (unit_after c n ▸ hu) hagrees (after c n).2

/-- Filling with void what holds void already changes nothing. -/
theorem mapIdx_void (args : Array Value) (count : Nat) :
    ((args ++ Array.replicate count Value.void).mapIdx fun slot value =>
      if slot < args.size then value else .void) = args ++ Array.replicate count .void := by
  refine Array.ext (by simp) fun slot hslot _ => ?_
  simp only [Array.getElem_mapIdx]
  split
  · rfl
  next hrest => simp [Array.getElem_append, hrest]

theorem refill_void_of_running {m : Machine} {f : Frame} {callers : List Frame} {args : Array Value}
    {count : Nat} (hstatus : m.status = .running f callers)
    (hlocals : f.locals = args ++ Array.replicate count .void)
    (harity : m.unit.arityOf f.function = args.size) : m.refill (fun _ => .void) = m := by
  obtain ⟨u, limits, globals, status⟩ := m
  obtain rfl : status = .running f callers := hstatus
  simp only [Machine.refill, Frame.refill, harity, hlocals, mapIdx_void]
  rw [← hlocals]

/-- A machine whose new frames are filled with void executes an instruction as usual. -/
theorem execFilling_void (m : Machine) (host : Host σ) :
    m.execFilling (fun _ => .void) host = m.exec host := by
  unfold execFilling
  dsimp only
  split
  next hdepth =>
    obtain ⟨id, entry, args, callers, hentry, harity, hopened⟩ := opened_frame hdepth
    rw [refill_void_of_running hopened rfl]
    rw [(exec_same m host).1, harity]
    simp [CodeUnit.arityOf, hentry]
  · rfl

/-- A run whose frames are filled with void is the usual one. -/
theorem filled_void (host : Host σ) (n : Nat) :
    filled (fun _ _ => .void) u limits host n = (start u limits).execMany host n := by
  induction n with
  | zero =>
    have hstart : (start u limits).refill (fun _ => .void) = start u limits :=
      refill_void_of_running rfl (Array.empty_append).symm rfl
    rw [filled, hstart]
    rfl
  | succ n ih =>
    rw [filled_succ, execFilling_void, ih]
    exact (after_succ_last (start u limits, host) n).symm

end Runs

/-- Compiled code never notices what a slot holds before it is stored into. For every program that
compiles, all limits and every host, two runs that fill the slots of new frames differently,
parameters apart, are in lock step: after every number of instructions they are the same but for the
values of locals, and their hosts are the same. A run that fills with void is the usual one.
Moreover, whatever is put at any time of the run into slots of open calls that are not in use, the
rest of the run is in lock step with what it would have been. -/
theorem compiled_lockStep {p : Program} {u : CodeUnit} (hcompile : compile p = .ok u)
    (limits : Limits) (host : Host σ) :
    (∀ fill fill' n, LockStep (filled fill u limits host n) (filled fill' u limits host n)) ∧
    (∀ n, filled (fun _ _ => .void) u limits host n = (start u limits).execMany host n) ∧
    ∃ program, p.bind = .ok program ∧ program.toUnit = u ∧
      ∀ n m, ((start u limits).execMany host n).1.Agrees program.inUse m →
        ∀ k, LockStep ((start u limits).execMany host (n + k))
          (m.execMany ((start u limits).execMany host n).2 k) := by
  obtain ⟨program, hbind, rfl⟩ := compile_eq_ok_iff.mp hcompile
  have hrespects := bind_respects hbind
  refine ⟨fun fill fill' n => ?_, filled_void host, program, hbind, rfl, fun n m hagrees k => ?_⟩
  · obtain ⟨-, hagrees, hhost⟩ := filled_agrees hrespects fill fill' host n
    exact hagrees.lockStep hhost
  · have hunit := unit_after (start program.toUnit limits, host) n
    obtain ⟨hlater, hhost⟩ := after_agrees (c := after (start program.toUnit limits, host) n)
      (hunit.symm ▸ hrespects) hagrees k
    change LockStep (after (start program.toUnit limits, host) (n + k))
      (after (m, (after (start program.toUnit limits, host) n).2) k)
    rw [after_add]
    exact hlater.lockStep hhost

/-- A program that reuses a slot: for a variable of a block, and then for the array of a loop, whose
body declares a variable in every turn and looks whether it holds something already. -/
def reuseProgram : Program where
  functions :=
    [{ name := "first"
       params := ["items"]
       body := .block
        [.block [.declare "unused" (some (.number 1.0))],
         .forLoop "item" (.var "items") (.block
          [.declare "fresh" none,
           .ifThen (.var "fresh") (.returnValue (.var "fresh")),
           .assign (.var "fresh") (.var "item")])] }]
  statements := [.declare "found" (some (.call "first" [.array [.number 1.0, .number 2.0]]))]

/-- The program that reuses a slot ends, is in lock step with a run whose frames are filled with
true, and does not notice at any time what is put into slots that are not in use. -/
theorem reuseProgram_lockStep :
    ∃ u program, compile reuseProgram = .ok u ∧ reuseProgram.bind = .ok program ∧
      ((start u {}).execMany callbackHost 32).1.isRunning = false ∧
      (∀ n, LockStep (filled (fun _ _ => .boolean true) u {} callbackHost n)
        ((start u {}).execMany callbackHost n)) ∧
      ∀ n m, ((start u {}).execMany callbackHost n).1.Agrees program.inUse m →
        ∀ k, LockStep ((start u {}).execMany callbackHost (n + k))
          (m.execMany ((start u {}).execMany callbackHost n).2 k) := by
  have hends : (compile reuseProgram).toOption.map (fun u =>
      ((start u {}).execMany callbackHost 32).1.isRunning) = some false := by
    decide +kernel
  obtain ⟨u, hu, hrun⟩ := exists_compile_eq_ok hends
  obtain ⟨hlock, hvoid, program, hbind, -, hlater⟩ := compiled_lockStep hu {} callbackHost
  refine ⟨u, program, hu, hbind, hrun, fun n => ?_, hlater⟩
  rw [← hvoid]
  exact hlock (fun _ _ => .boolean true) (fun _ _ => .void) n

end HostScript
