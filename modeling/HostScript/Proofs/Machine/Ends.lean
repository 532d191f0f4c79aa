import HostScript.Proofs.Emission.Each
import HostScript.Proofs.Machine.Transitions
import HostScript.Proofs.Number.Counting

/-!
# Runs that come to an end

A status ends if all that may follow it, and follow that, comes to an end. Code is read from its end
to its start: the run of a call ends at an offset if it ends at all offsets that may come next. So
the code of an expression, in which no jump goes back, ends where the run ends behind it.
-/

namespace HostScript

open Machine

variable {σ : Type}

/-- Whether a value is no array with more items than can be counted. -/
def Value.isCountable : Value → Bool
  | .array items => items.size ≤ Number.countingLimit
  | _ => true

/-- Whether the items of the arrays in the locals of a frame can be counted. -/
def Frame.arraysShort (f : Frame) : Bool :=
  f.locals.all Value.isCountable

/-- Whether the items of the arrays in the locals of the current call can be counted. -/
def Machine.arraysShort (m : Machine) : Bool :=
  match m.status with
  | .running frame _ => frame.arraysShort
  | .done | .faulted _ => true

theorem Frame.size_le_of_arraysShort {f : Frame} (h : f.arraysShort) {slot : Nat}
    {items : Array Value} (hitems : f.locals[slot]? = some (.array items)) :
    items.size ≤ Number.countingLimit := by
  have hcountable := Array.all_eq_true'.mp h _ (Array.mem_of_getElem? hitems)
  simpa [Value.isCountable] using hcountable

/-- Whether every run from a status on comes to an end, as long as its arrays are short. -/
inductive Ends (u : CodeUnit) (limits : Limits) : Status → Prop
  | done : Ends u limits .done
  | faulted (error : RuntimeError) : Ends u limits (.faulted error)
  | running {f : Frame} {callers : List Frame}
      (h : f.arraysShort → ∀ next, Successor u limits f callers next → Ends u limits next) :
      Ends u limits (.running f callers)

/-- A machine with a status that ends halts. -/
theorem Ends.halts {u : CodeUnit} {limits : Limits} {status : Status} (h : Ends u limits status)
    {m : Machine} {host : Host σ} (hunit : m.unit = u) (hlimits : m.limits = limits)
    (hstatus : m.status = status) (hshort : ∀ n, (m.execMany host n).1.arraysShort) :
    ∃ n, (m.execMany host n).1.isRunning = false := by
  induction h generalizing m host with
  | done => exact ⟨0, by simp [execMany, isRunning, hstatus]⟩
  | faulted error => exact ⟨0, by simp [execMany, isRunning, hstatus]⟩
  | @running f callers h ih =>
    have hframe : f.arraysShort := by
      have h := hshort 0
      rwa [execMany, arraysShort, hstatus] at h
    have hnext := exec_successor hstatus host
    rw [hunit, hlimits] at hnext
    obtain ⟨hunit', hlimits'⟩ := m.exec_same host
    obtain ⟨n, hn⟩ := ih hframe _ hnext (hunit'.trans hunit) (hlimits'.trans hlimits) rfl
      (fun n => hshort (n + 1))
    exact ⟨n + 1, hn⟩

/-- Whether the run ends once the current call is closed and its result is handed to the caller. -/
def Resumes (u : CodeUnit) (limits : Limits) (callers : List Frame) : Prop :=
  ∀ caller rest value, callers = caller :: rest →
    Ends u limits (.running { caller with stack := caller.stack.push value } rest)

/-- An open call of a machine: its code, its function and the calls that wait for it. -/
structure OpenCall where
  unit : CodeUnit
  limits : Limits
  function : Option Nat
  callers : List Frame

namespace OpenCall

/-- Whether the run ends once the call is closed, and also when a call that is opened from it runs,
if it ends when that call is closed. -/
structure Closes (c : OpenCall) : Prop where
  resumes : Resumes c.unit c.limits c.callers
  calls : ∀ waiting function args callee,
    c.unit.openCall c.limits (c.callers.length + 1) function args = .ok callee →
    Resumes c.unit c.limits (waiting :: c.callers) →
    Ends c.unit c.limits (.running callee (waiting :: c.callers))

/-- Whether the run ends if the call is at an offset, whatever operands it has. -/
def EndsAt (c : OpenCall) (pc : Nat) (locals : Array Value) : Prop :=
  ∀ stack, Ends c.unit c.limits (.running ⟨c.function, pc, locals, stack⟩ c.callers)

/-- Whether the run ends if the call is at an offset, whatever is in the locals other
than those in `kept`. -/
def EndsKeeping (c : OpenCall) (kept : List Nat) (pc : Nat) (locals : Array Value) : Prop :=
  ∀ locals' : Array Value, (∀ slot ∈ kept, locals'[slot]? = locals[slot]?) → c.EndsAt pc locals'

variable {c : OpenCall} {pc : Nat} {locals : Array Value} {i : Instruction} {kept : List Nat}

/-- The run ends at an instruction if it does wherever the instruction leads to. -/
theorem ends_of_continues (hc : c.Closes) (hcode : c.unit.code[pc]? = some i) (stack : Array Value)
    (hcontinues : ∀ g, (⟨c.function, pc, locals, stack⟩ : Frame).arraysShort →
      (⟨c.function, pc + 1, locals, stack⟩ : Frame).Continues i g →
      Ends c.unit c.limits (.running g c.callers))
    (hcall : i.isCall → c.EndsAt (pc + 1) locals) :
    Ends c.unit c.limits (.running ⟨c.function, pc, locals, stack⟩ c.callers) := by
  refine .running fun hshort next hnext => ?_
  cases hnext with
  | fault error => exact .faulted error
  | done _ _ _ => exact .done
  | proceed hcode' _ hg =>
    obtain rfl := Option.some.inj (hcode.symm.trans hcode')
    exact hcontinues _ hshort hg
  | call hcode' _ hcalls hopen =>
    obtain rfl := Option.some.inj (hcode.symm.trans hcode')
    refine hc.calls _ _ _ _ hopen fun caller rest value hcallers => ?_
    obtain ⟨rfl, rfl⟩ := List.cons.inj hcallers
    exact hcall hcalls _
  | resume _ _ hcallers _ => exact hc.resumes _ _ _ hcallers

/-- The run ends at an instruction that overwrites no slot if it does where the
instruction leads to. -/
theorem endsAt_of_next (hc : c.Closes) (hcode : c.unit.code[pc]? = some i) (hwrites : i.writes = [])
    (hnext : i.fallsThrough → c.EndsAt (pc + 1) locals)
    (hjump : ∀ target, i.target? = some target → c.EndsAt target locals) : c.EndsAt pc locals := by
  intro stack
  refine ends_of_continues hc hcode stack (fun g _ hg => ?_) fun hcall =>
    hnext (Instruction.steady_of_isCall hcall).2.1
  obtain ⟨function, target, locals', operands⟩ := g
  obtain rfl : function = c.function := hg.function_eq
  obtain rfl : locals' = locals := hg.effect.locals_eq hwrites
  rcases hg.goes with ⟨hfalls, hpc, -⟩ | ⟨target', htarget, hgoto⟩
  · obtain rfl : target = pc + 1 := hpc
    exact hnext hfalls operands
  · obtain rfl : target = target' := congrArg Frame.pc hgoto
    exact hjump target htarget operands

/-- The run ends at an instruction that neither overwrites a slot nor jumps if it does after it. -/
theorem endsAt_of_succ (hc : c.Closes) (hcode : c.unit.code[pc]? = some i) (hwrites : i.writes = [])
    (htarget : i.target? = none) (hnext : c.EndsAt (pc + 1) locals) : c.EndsAt pc locals :=
  endsAt_of_next hc hcode hwrites (fun _ => hnext) fun target h => by
    rw [htarget] at h
    cases h

/-- The run ends at an operation with a string if it does after it. -/
theorem endsAt_of_named (hc : c.Closes) {n : Nat} {name : String} {instruction : Nat → Instruction}
    (h : c.unit.Has pc (.named n name instruction))
    (hplain : ∀ id, (instruction id).writes = [] ∧ (instruction id).target? = none)
    (hnext : c.EndsAt (pc + 1) locals) : c.EndsAt pc locals := by
  obtain ⟨id, -, hcode⟩ := h
  exact endsAt_of_succ hc hcode (hplain id).1 (hplain id).2 hnext

/-- What a store into a slot makes of the frame. -/
theorem continues_storeLocal {f g : Frame} {slot : Nat} (h : f.Continues (.storeLocal slot) g) :
    ∃ value, f.stack.back? = some value ∧
      g = ⟨f.function, f.pc, f.locals.setIfInBounds slot value, g.stack⟩ := by
  obtain ⟨value, hvalue, hlocals⟩ := h.effect
  rcases h.goes with ⟨-, hpc, -⟩ | ⟨target, htarget, -⟩
  · exact ⟨value, hvalue, by rw [← hlocals, ← hpc, ← h.function_eq]⟩
  · cases htarget

/-- The run ends at a store into a slot if it does after the store. -/
theorem endsAt_storeLocal (hc : c.Closes) {slot : Nat}
    (hcode : c.unit.code[pc]? = some (.storeLocal slot))
    (hnext : ∀ value, c.EndsAt (pc + 1) (locals.setIfInBounds slot value)) :
    c.EndsAt pc locals := by
  intro stack
  refine ends_of_continues hc hcode stack (fun g _ hg => ?_) fun hcall => by cases hcall
  obtain ⟨value, -, hg⟩ := continues_storeLocal hg
  rw [hg]
  exact hnext value g.stack

/-- The run ends where a number is put into a slot if it does after that. -/
theorem endsAt_storeNumber (hc : c.Closes) {n : Float} {slot : Nat}
    (hpush : c.unit.code[pc]? = some (.pushNumber n))
    (hstore : c.unit.code[pc + 1]? = some (.storeLocal slot))
    (hnext : c.EndsAt (pc + 2) (locals.setIfInBounds slot (.number n))) : c.EndsAt pc locals := by
  intro stack
  refine ends_of_continues hc hpush stack (fun g _ hg => ?_) fun hcall => by cases hcall
  obtain ⟨function, target, locals', operands⟩ := g
  obtain ⟨hback, hlocals⟩ := hg.effect
  obtain rfl : function = c.function := hg.function_eq
  obtain rfl : locals' = locals := hlocals
  rcases hg.goes with ⟨-, hpc, -⟩ | ⟨target', htarget, -⟩
  · obtain rfl : target = pc + 1 := hpc
    refine ends_of_continues hc hstore operands (fun g _ hg => ?_) fun hcall => by cases hcall
    obtain ⟨value, hvalue, hg⟩ := continues_storeLocal hg
    obtain rfl : value = .number n := Option.some.inj (hvalue.symm.trans hback)
    rw [hg]
    exact hnext g.stack
  · cases htarget

end OpenCall

section Exprs

variable {c : OpenCall} {locals : Array Value}

open OpenCall

/-- The run ends where a place is read if it does after that. -/
theorem Place.endsAt_loadOp (hc : c.Closes) {pc n : Nat} (p : Place)
    (h : c.unit.Has pc (p.loadOp n)) (hnext : c.EndsAt (pc + 1) locals) : c.EndsAt pc locals := by
  cases p with
  | slot k => exact endsAt_of_succ hc h rfl rfl hnext
  | script id => exact endsAt_of_succ hc h rfl rfl hnext
  | host name => exact endsAt_of_named hc h (fun _ => ⟨rfl, rfl⟩) hnext

mutual

/-- The run ends at the start of an expression if it does after the expression. -/
theorem Bound.Expr.endsAt (hc : c.Closes) (start n : Nat) :
    (x : Bound.Expr) → Op.Each c.unit.Has start (x.code start n) →
      c.EndsAt (start + x.size) locals →
      c.EndsAt start locals
  | .void, h, hnext => endsAt_of_succ hc (Bound.Expr.each_void.mp h) rfl rfl hnext
  | .number _, h, hnext => endsAt_of_succ hc (Bound.Expr.each_number.mp h) rfl rfl hnext
  | .string _, h, hnext =>
    endsAt_of_named hc (Bound.Expr.each_string.mp h) (fun _ => ⟨rfl, rfl⟩) hnext
  | .load p, h, hnext => p.endsAt_loadOp hc (Bound.Expr.each_load.mp h) hnext
  | .index base position, h, hnext => by
    obtain ⟨hbase, hposition, hlast⟩ := Bound.Expr.each_index.mp h
    rw [Bound.Expr.add_size_index] at hnext
    have hend := endsAt_of_succ hc hlast rfl rfl hnext
    exact Bound.Expr.endsAt hc _ _ base hbase (Bound.Expr.endsAt hc _ _ position hposition hend)
  | .array items, h, hnext => by
    obtain ⟨hitems, hlast⟩ := Bound.Expr.each_array.mp h
    rw [Bound.Expr.add_size_array] at hnext
    exact Bound.Expr.endsAt_codes hc _ _ items hitems (endsAt_of_succ hc hlast rfl rfl hnext)
  | .callScript function args, h, hnext => by
    obtain ⟨hargs, hlast⟩ := Bound.Expr.each_callScript.mp h
    rw [Bound.Expr.add_size_callScript] at hnext
    exact Bound.Expr.endsAt_codes hc _ _ args hargs (endsAt_of_succ hc hlast rfl rfl hnext)
  | .callNative name args, h, hnext => by
    obtain ⟨hargs, hlast⟩ := Bound.Expr.each_callNative.mp h
    rw [Bound.Expr.add_size_callNative] at hnext
    exact Bound.Expr.endsAt_codes hc _ _ args hargs
      (endsAt_of_named hc hlast (fun _ => ⟨rfl, rfl⟩) hnext)
  | .callMethod object name args, h, hnext => by
    obtain ⟨hobject, hargs, hlast⟩ := Bound.Expr.each_callMethod.mp h
    have hend : c.EndsAt (start + object.size + Bound.Expr.sizes 0 args + 1) locals := by
      rwa [Bound.Expr.add_size_callMethod] at hnext
    exact Bound.Expr.endsAt hc _ _ object hobject (Bound.Expr.endsAt_codes hc _ _ args hargs
      (endsAt_of_named hc hlast (fun _ => ⟨rfl, rfl⟩) hend))
  | .unary _ operand, h, hnext => by
    obtain ⟨hoperand, hlast⟩ := Bound.Expr.each_unary.mp h
    have hend := endsAt_of_succ hc hlast rfl rfl hnext
    exact Bound.Expr.endsAt hc _ _ operand hoperand hend
  | .strict op lhs rhs, h, hnext => by
    obtain ⟨hlhs, hrhs, hlast⟩ := Bound.Expr.each_strict.mp h
    rw [Bound.Expr.add_size_strict] at hnext
    have hend := endsAt_of_succ hc hlast rfl rfl hnext
    exact Bound.Expr.endsAt hc _ _ lhs hlhs (Bound.Expr.endsAt hc _ _ rhs hrhs hend)
  | .connect op lhs rhs, h, hnext => by
    obtain ⟨hlhs, hskip₁, hrhs, hskip₂, hpush₁, hjump, hpush₂⟩ := Bound.Expr.each_connect.mp h
    have hend : c.EndsAt (start + lhs.size + 1 + rhs.size + 4) locals := by
      rwa [Bound.Expr.add_size_connect] at hnext
    have hdecided := endsAt_of_succ hc hpush₂ rfl rfl hend
    -- A skip goes on or jumps to where the connective is decided.
    have hskip : ∀ pc, c.unit.Has pc
        (.plain (n + 1) (Emitter.skip op (start + lhs.size + 1 + rhs.size + 3))) →
        c.EndsAt (pc + 1) locals → c.EndsAt pc locals := by
      intro pc hpc hfalls
      cases op with
      | and =>
        exact endsAt_of_next hc hpc rfl (fun _ => hfalls) fun target h =>
          Option.some.inj h ▸ hdecided
      | or =>
        exact endsAt_of_next hc hpc rfl (fun _ => hfalls) fun target h =>
          Option.some.inj h ▸ hdecided
    have hleave := endsAt_of_next hc hjump rfl (fun h => by cases h)
      fun target h => Option.some.inj h ▸ hend
    have hundecided := endsAt_of_succ hc hpush₁ rfl rfl hleave
    exact Bound.Expr.endsAt hc _ _ lhs hlhs (hskip _ hskip₁
      (Bound.Expr.endsAt hc _ _ rhs hrhs (hskip _ hskip₂ hundecided)))

/-- The run ends at the start of expressions if it does after them. -/
theorem Bound.Expr.endsAt_codes (hc : c.Closes) (start n : Nat) :
    (xs : List Bound.Expr) → Op.Each c.unit.Has start (Bound.Expr.codes start n xs) →
      c.EndsAt (start + Bound.Expr.sizes 0 xs) locals → c.EndsAt start locals
  | [], _, hnext => hnext
  | x :: xs, h, hnext => by
    obtain ⟨hx, hxs⟩ := Bound.Expr.each_codes_cons.mp h
    rw [Bound.Expr.add_sizes_cons] at hnext
    exact Bound.Expr.endsAt hc _ _ x hx (Bound.Expr.endsAt_codes hc _ _ xs hxs hnext)

end

end Exprs

end HostScript
