import HostScript.Proofs.Compile.InUse
import HostScript.Proofs.Execution.Expressions
import HostScript.Proofs.Semantics.Quiet

/-!
# Walks through quiet code

What a machine does after a piece of code may be hindered by its limits, and that is no reason why
it should not get through the piece. A walk through code between two offsets comes to where an
evaluation says, unless on the way there is no room for a value that the code would push. The code
of a quiet expression is walked through by instructions of the current call alone, and so is the
code that stores into a target of quiet indices.
-/

namespace HostScript

open Machine

variable {σ α β : Type}

/-- Whether the next instruction of a machine fails, where under other limits the current call would
go on at an offset from `lo` on and before `hi`. -/
def Machine.Cramped (lo hi : Nat) (c : Machine × Host σ) : Prop :=
  ∃ f g callers limits, c.1.status = .running f callers ∧ (c.1.exec c.2).1.fault?.isSome ∧
    ({ c.1 with limits }.exec c.2).1.status = .running g callers ∧ lo ≤ g.pc ∧ g.pc < hi

/-- Whether a machine with a status comes to where an evaluation says, in every world, or to an
instruction between two offsets for which there is no room. -/
def Walks (u : CodeUnit) (limits : Limits) (lo hi : Nat) (status : Status)
    (x : Eval (Array Value) σ α) (goal : α → Status) : Prop :=
  ∀ w, ∃ n, Arrived u limits 0 n (after (state u limits status w) n) goal (x w) ∨
    Cramped lo hi (after (state u limits status w) n)

section Lemmas

variable {u : CodeUnit} {limits : Limits} {lo hi : Nat} {status : Status}
  {x : Eval (Array Value) σ α} {f : α → Eval (Array Value) σ β} {middle : α → Status}
  {goal : β → Status} {frame : Frame} {callers : List Frame}

/-- Nothing is left to walk for a value. -/
theorem Walks.pure {b : β} (h : status = goal b) :
    Walks u limits lo hi status (Pure.pure b : Eval (Array Value) σ β) goal :=
  fun w => ⟨0, .inl (congrArg (state u limits · w) h)⟩

/-- Evaluations that follow each other are walked through one after the other, the second for all
values that the first can have. -/
theorem Walks.bind_of {P : α → Prop} (hx : Walks u limits lo hi status x middle)
    (hvalues : ∀ w a w', x w = .ok a w' → P a)
    (hf : ∀ a, P a → Walks u limits lo hi (middle a) (f a) goal) :
    Walks u limits lo hi status (x >>= f) goal := by
  intro w
  obtain ⟨n, hn | hn⟩ := hx w
  · cases hresult : x w with
    | error halt w' =>
      rw [hresult] at hn
      refine ⟨n, .inl ?_⟩
      rw [Eval.bind_of_eq_error hresult]
      exact hn.of_error
    | ok a w' =>
      rw [hresult] at hn
      have hmiddle : after (state u limits status w) n = state u limits (middle a) w' := hn
      obtain ⟨k, hk⟩ := hf a (hvalues w a w' hresult) w'
      refine ⟨n + k, ?_⟩
      rw [after_add, hmiddle, Eval.bind_of_eq_ok hresult]
      exact hk.imp_left fun hk => hk.mono fun _ => Nat.zero_le _
  · exact ⟨n, .inr hn⟩

/-- Evaluations that follow each other are walked through one after the other. -/
theorem Walks.bind (hx : Walks u limits lo hi status x middle)
    (hf : ∀ a, Walks u limits lo hi (middle a) (f a) goal) :
    Walks u limits lo hi status (x >>= f) goal :=
  hx.bind_of (fun _ _ _ _ => trivial) fun a _ => hf a

/-- An instruction for which there is room arrives where its evaluation says. -/
theorem Steps.arrived {y : Eval (Array Value) σ β}
    (h : Steps u limits status y goal) {w : World (Array Value) σ}
    (hroom : ¬(state u limits status w).1.LacksRoom (state u limits status w).2) :
    Arrived u limits 0 1 (after (state u limits status w) 1) goal (y w) := by
  rcases h w hroom with ⟨b, w', hresult, hexec⟩ | ⟨error, w', pc, trace, hresult, hexec⟩
  · rw [hresult]
    exact hexec
  · rw [hresult]
    exact ⟨pc, trace, hexec⟩

/-- An instruction of the current call, if there is room for it under some limits, is a walk. -/
theorem Walks.of_steps {y : Eval (Array Value) σ β} {next : β → Frame}
    (h : ∀ limits, Steps u limits (.running frame callers) y fun b => .running (next b) callers)
    (hpc : ∀ b, lo ≤ (next b).pc ∧ (next b).pc < hi) :
    Walks u limits lo hi (.running frame callers) y fun b => .running (next b) callers := by
  intro w
  by_cases hroom : (state u limits (.running frame callers) w).1.LacksRoom
      (state u limits (.running frame callers) w).2
  · -- Under the limits that leave room the same instruction shows where the call would go on.
    obtain ⟨hfault, larger, hnone⟩ := hroom
    have hroom' : ¬(state u larger (.running frame callers) w).1.LacksRoom
        (state u larger (.running frame callers) w).2 := by
      rintro ⟨hsome, -⟩
      have hnone' : ((state u larger (.running frame callers) w).1.exec
          (state u larger (.running frame callers) w).2).1.fault? = none := hnone
      rw [hnone'] at hsome
      cases hsome
    rcases h larger w hroom' with ⟨b, w', -, hexec⟩ | ⟨error, w', pc, trace, -, hexec⟩
    · have hstatus := congrArg (fun c => c.1.status) hexec
      exact ⟨0, .inr ⟨frame, next b, callers, larger, rfl, hfault, hstatus, hpc b⟩⟩
    · have hsome := congrArg (fun c => c.1.fault?) hexec
      cases hnone.symm.trans hsome
  · exact ⟨1, .inl ((h limits).arrived hroom)⟩

variable {function : Option Nat} {pc : Nat} {slots : Slots} {stack : Array Value}

/-- An instruction that pushes a value is a walk. -/
theorem Walks.push {y : Eval (Array Value) σ Value}
    (h : ∀ limits, Steps u limits (.running frame callers) y
      fun value => .running ⟨function, pc, slots, stack.push value⟩ callers)
    (hlo : lo ≤ pc) (hhi : pc < hi) :
    Walks u limits lo hi (.running frame callers) y
      fun value => .running ⟨function, pc, slots, stack.push value⟩ callers :=
  Walks.of_steps h fun _ => ⟨hlo, hhi⟩

/-- An instruction that only moves on may stand before what is walked through. -/
theorem Walks.move {y : Eval (Array Value) σ β}
    (h : ∀ limits, Steps u limits (.running frame callers)
      (Pure.pure () : Eval (Array Value) σ Unit)
      fun _ => .running ⟨function, pc, slots, stack⟩ callers)
    (hlo : lo ≤ pc) (hhi : pc < hi)
    (hy : Walks u limits lo hi (.running ⟨function, pc, slots, stack⟩ callers) y goal) :
    Walks u limits lo hi (.running frame callers) y goal := by
  rw [← pure_bind () fun _ => y]
  exact (Walks.of_steps h fun _ => ⟨hlo, hhi⟩).bind fun _ => hy

end Lemmas

namespace Bound

variable {u : CodeUnit} {limits : Limits} {lo hi : Nat} {function : Option Nat} {pc : Nat}
  {slots : Slots} {stack : Array Value} {callers : List Frame} {call : Calls (Array Value) σ}

/-- The code behind the right operand of a connective is walked through to its truth value. -/
theorem walks_verdict {op : Connective} {right : Value} (hlo : lo ≤ pc) (hhi : pc + 4 < hi)
    (hskip : u.code[pc]? = some (Emitter.skip op (pc + 3)))
    (hundecided : u.code[pc + 1]? = some (.pushBool (Emitter.undecided op)))
    (hjump : u.code[pc + 2]? = some (.jump (pc + 4)))
    (hdecided : u.code[pc + 3]? = some (.pushBool !(Emitter.undecided op))) :
    Walks u limits lo hi (.running ⟨function, pc, slots, stack.push right⟩ callers)
      (pure (.boolean right.isTruthy) : Eval (Array Value) σ Value)
      fun value => .running ⟨function, pc + 4, slots, stack.push value⟩ callers := by
  refine Walks.move (fun _ => steps_skip hskip) (by split <;> omega) (by split <;> omega) ?_
  by_cases hvalue : right.isTruthy = !Emitter.undecided op
  · rw [if_pos (by simpa using hvalue), hvalue]
    exact Walks.push (fun _ => Steps.push hdecided fun _ _ _ => rfl) (by omega) hhi
  · have hright : right.isTruthy = Emitter.undecided op := by simpa using hvalue
    rw [if_neg (by simpa using hvalue), hright, ← bind_pure (pure _)]
    refine (Walks.push (fun _ => Steps.push hundecided fun _ _ _ => rfl) (by omega) (by omega)).bind
      fun value => ?_
    exact Walks.move (fun _ => steps_jump hjump) (by omega) hhi (Walks.pure rfl)

mutual

/-- The code of a quiet expression is walked through to its value. -/
theorem Expr.walks :
    (x : Expr) → (start n : Nat) → (stack : Array Value) → x.isQuiet →
      Op.Each u.Has start (x.code start n) →
      lo ≤ start → start + x.size < hi →
      Walks u limits lo hi (.running ⟨function, start, slots, stack⟩ callers) (x.eval call slots)
        fun value => .running ⟨function, start + x.size, slots, stack.push value⟩ callers
  | .void, start, n, stack, _, h, hlo, hhi => by
    rw [Expr.eval]
    exact Walks.push (fun _ => Steps.push (Expr.each_void.mp h) fun _ _ _ => rfl)
      (Nat.le_succ_of_le hlo) hhi
  | .number value, start, n, stack, _, h, hlo, hhi => by
    rw [Expr.eval]
    exact Walks.push (fun _ => Steps.push (Expr.each_number.mp h) fun _ _ _ => rfl)
      (Nat.le_succ_of_le hlo) hhi
  | .string value, start, n, stack, _, h, hlo, hhi => by
    obtain ⟨id, hstring, hcode⟩ := Expr.each_string.mp h
    rw [Expr.eval]
    refine Walks.push (fun _ => Steps.push hcode fun limit globals host => ?_)
      (Nat.le_succ_of_le hlo) hhi
    simp only [Instruction.act, CodeUnit.string, hstring]
    rfl
  | .load place, start, n, stack, _, h, hlo, hhi => by
    rw [Expr.eval]
    exact Walks.push (fun _ => Place.steps_load (Expr.each_load.mp h)) (Nat.le_succ_of_le hlo) hhi
  | .index base position, start, n, stack, hquiet, h, hlo, hhi => by
    rw [Expr.isQuiet, Bool.and_eq_true] at hquiet
    obtain ⟨hbase, hposition, hcode⟩ := Expr.each_index.mp h
    rw [Expr.add_size_index] at hhi
    rw [Expr.eval, Expr.add_size_index]
    refine (Expr.walks base start n stack hquiet.1 hbase hlo (by omega)).bind fun array => ?_
    refine (Expr.walks position _ _ (stack.push array) hquiet.2
        hposition (by omega) (by omega)).bind fun index => ?_
    exact Walks.push (fun _ => steps_loadIndex hcode) (by omega) hhi
  | .array items, start, n, stack, hquiet, h, hlo, hhi => by
    obtain ⟨hitems, hcode⟩ := Expr.each_array.mp h
    rw [Expr.add_size_array] at hhi
    rw [Expr.eval, Expr.add_size_array]
    refine (Expr.walks_all items start n stack hquiet hitems hlo (by omega)).bind_of
      (fun _ _ _ => Expr.length_evalAll) fun values hlength => ?_
    rw [← hlength] at hcode
    exact Walks.push (fun _ => steps_makeArray hcode) (by omega) hhi
  | .callScript .., _, _, _, hquiet, _, _, _ => nomatch hquiet
  | .callNative .., _, _, _, hquiet, _, _, _ => nomatch hquiet
  | .callMethod .., _, _, _, hquiet, _, _, _ => nomatch hquiet
  | .unary op operand, start, n, stack, hquiet, h, hlo, hhi => by
    obtain ⟨hoperand, hcode⟩ := Expr.each_unary.mp h
    rw [Expr.add_size_unary] at hhi
    rw [Expr.eval, Expr.add_size_unary]
    refine (Expr.walks operand start n stack hquiet hoperand hlo (by omega)).bind fun value => ?_
    exact Walks.push (fun _ => steps_unary hcode) (by omega) hhi
  | .strict op lhs rhs, start, n, stack, hquiet, h, hlo, hhi => by
    rw [Expr.isQuiet, Bool.and_eq_true] at hquiet
    obtain ⟨hlhs, hrhs, hcode⟩ := Expr.each_strict.mp h
    rw [Expr.add_size_strict] at hhi
    rw [Expr.eval, Expr.add_size_strict]
    refine (Expr.walks lhs start n stack hquiet.1 hlhs hlo (by omega)).bind fun left => ?_
    refine (Expr.walks rhs _ _ (stack.push left) hquiet.2 hrhs (by omega) (by omega)).bind
      fun right => ?_
    exact Walks.push (fun _ => steps_binary hcode) (by omega) hhi
  | .connect op lhs rhs, start, n, stack, hquiet, h, hlo, hhi => by
    rw [Expr.isQuiet, Bool.and_eq_true] at hquiet
    obtain ⟨hlhs, hfirst, hrhs, hskip, hundecided, hjump, hdecided⟩ := Expr.each_connect.mp h
    rw [Expr.add_size_connect] at hhi
    rw [Expr.eval_connect, Expr.add_size_connect]
    refine (Expr.walks lhs start n stack hquiet.1 hlhs hlo (by omega)).bind fun left => ?_
    refine Walks.move (fun _ => steps_skip hfirst) (by split <;> omega) (by split <;> omega) ?_
    split
    · exact Walks.push (fun _ => Steps.push hdecided fun _ _ _ => rfl) (by omega) hhi
    · refine (Expr.walks rhs _ _ stack hquiet.2 hrhs (by omega) (by omega)).bind fun right => ?_
      exact walks_verdict (by omega) hhi hskip hundecided hjump hdecided
termination_by structural x => x

/-- The code of quiet expressions is walked through to their values in order. -/
theorem Expr.walks_all :
    (xs : List Expr) → (start n : Nat) → (stack : Array Value) → Expr.areQuiet xs →
      Op.Each u.Has start (Expr.codes start n xs) → lo ≤ start → start + Expr.sizes 0 xs < hi →
      Walks u limits lo hi (.running ⟨function, start, slots, stack⟩ callers)
        (Expr.evalAll call slots xs)
        fun values => .running ⟨function, start + Expr.sizes 0 xs, slots,
            stack ++ values.toArray⟩ callers
  | [], start, n, stack, _, _, _, _ => by
    rw [Expr.evalAll]
    exact Walks.pure (by simp [Expr.sizes])
  | x :: xs, start, n, stack, hquiet, h, hlo, hhi => by
    rw [Expr.areQuiet, Bool.and_eq_true] at hquiet
    obtain ⟨hx, hxs⟩ := Expr.each_codes_cons.mp h
    rw [Expr.add_sizes_cons] at hhi
    rw [Expr.evalAll, Expr.add_sizes_cons]
    refine (Expr.walks x start n stack hquiet.1 hx hlo (by omega)).bind fun value => ?_
    refine (Expr.walks_all xs _ _ (stack.push value) hquiet.2 hxs (by omega) hhi).bind
      fun values => ?_
    exact Walks.pure (by simp)
termination_by structural xs => xs

end

end Bound

section Targets

variable {u : CodeUnit} {limits : Limits} {lo hi : Nat} {function : Option Nat} {pc n : Nat}
  {slots : Slots} {stack : Array Value} {callers : List Frame} {call : Calls (Array Value) σ}
  {value : Value}

/-- There is always room to take the topmost operand into a place of the frame or of the script. -/
theorem Place.not_lacksRoom_store {place : Place} (hplace : place.isHost = false)
    (h : u.Has pc (place.storeOp n)) (w : World (Array Value) σ) :
    ¬(state u limits (.running ⟨function, pc, slots, stack.push value⟩ callers) w).1.LacksRoom
      (state u limits (.running ⟨function, pc, slots, stack.push value⟩ callers) w).2 := by
  rintro ⟨hsome, larger, hnone⟩
  change ((state u larger (.running ⟨function, pc, slots, stack.push value⟩ callers) w).1.exec
    (state u larger (.running ⟨function, pc, slots, stack.push value⟩ callers) w).2).1.fault? =
    none at hnone
  cases place with
  | slot k =>
    have hcode : u.code[pc]? = some (.storeLocal k) := h
    have hact := fun limit =>
      act_storeLocal u limit w.globals ⟨function, pc + 1, slots, stack⟩ w.host k value
    by_cases hlt : k < slots.size
    · rw [if_pos hlt] at hact
      rw [exec_state_ok hcode (hact _)] at hsome
      cases hsome
    · rw [if_neg hlt] at hact
      rw [exec_state_error hcode (hact _)] at hnone
      cases hnone
  | script id =>
    have hcode : u.code[pc]? = some (.storeGlobal id) := h
    have hact := fun limit =>
      act_storeGlobal u limit w.globals ⟨function, pc + 1, slots, stack⟩ w.host id value
    by_cases hlt : id < w.globals.size
    · rw [if_pos hlt] at hact
      rw [exec_state_ok hcode (hact _)] at hsome
      cases hsome
    · rw [if_neg hlt] at hact
      rw [exec_state_error hcode (hact _)] at hnone
      cases hnone
  | host name => cases hplace

/-- The code that stores into a place of the frame or of the script is walked through. -/
theorem Place.walks_store {place : Place} (hplace : place.isHost = false)
    (h : u.Has pc (place.storeOp n)) :
    Walks u limits lo hi (.running ⟨function, pc, slots, stack.push value⟩ callers)
      (place.write slots value : Eval (Array Value) σ Slots)
      fun slots' => .running ⟨function, pc + 1, slots', stack⟩ callers :=
  fun w => ⟨1, .inl ((Place.steps_store h).arrived (Place.not_lacksRoom_store hplace h w))⟩

/-- The code that stores into a target of quiet indices is walked through. -/
theorem Bound.Target.walks :
    (t : Bound.Target) → (start n : Nat) → (value : Value) → t.root.isHost = false →
      (∀ x ∈ t.indices, x.isQuiet) → Op.Each u.Has start (t.code start n) → lo ≤ start →
      start + t.storeSize ≤ hi →
      Walks u limits lo hi (.running ⟨function, start, slots, stack.push value⟩ callers)
        (t.store call slots value)
        fun slots' => .running ⟨function, start + t.storeSize, slots', stack⟩ callers
  | .place p, start, n, value, hroot, _, h, _, _ => by
    rw [Bound.Target.store]
    exact Place.walks_store hroot (Bound.Target.each_place.mp h)
  | .element base position, start, n, value, hroot, hindices, h, hlo, hhi => by
    have hread := Bound.Target.isQuiet_read (t := base) hroot
    rw [Bound.Target.indices, List.forall_mem_append, List.forall_mem_singleton] at hindices
    obtain ⟨hreadCode, hposition, hcode, hbase⟩ := Bound.Target.each_element.mp h
    have hpos := base.storeSize_pos
    rw [Bound.Target.add_storeSize_element] at hhi
    rw [Bound.Target.store, Bound.Target.add_storeSize_element]
    refine (base.read.walks start _ (stack.push value)
        (hread hindices.1) hreadCode hlo (by omega)).bind fun array => ?_
    refine (position.walks _ _ ((stack.push value).push array) hindices.2
        hposition (by omega) (by omega)).bind
      fun index => ?_
    refine (Walks.push (fun _ => steps_storeIndex hcode) (by omega) (by omega)).bind
      fun changed => ?_
    exact Bound.Target.walks base _ _ changed hroot hindices.1 hbase (by omega) hhi

end Targets

end HostScript
