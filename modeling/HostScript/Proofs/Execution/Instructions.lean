import HostScript.Proofs.Emission.Unit
import HostScript.Proofs.Execution.Performs
import HostScript.Proofs.Semantics.Bound

/-!
# What single instructions perform

Each instruction performs one evaluation on the operands that it takes from the stack and the slots
of the frame. An instruction that pushes a value fails when there is no room for it, which under
larger limits it would not.
-/

namespace HostScript

open Machine

variable {σ : Type} {u : CodeUnit} {limits : Limits} {i : Instruction} {frame next : Frame}
  {callers : List Frame}

section Exec

variable {w : World (Array Value) σ} {host : Host σ}

/-- An instruction that asks for something is followed. -/
theorem exec_state_ok {action : Action} (hcode : u.code[frame.pc]? = some i)
    (hact : i.act u limits.operands w.globals (frame.goto (frame.pc + 1)) w.host =
        (.ok action, host)) :
    (state u limits (.running frame callers) w).1.exec
      (state u limits (.running frame callers) w).2 =
      state u limits (follow u limits frame.pc frame.function callers action)
        ⟨assigned w.globals action, host⟩ := by
  unfold state Machine.exec
  dsimp only
  rw [hcode]
  dsimp only
  rw [hact]

/-- An instruction that fails stops the machine. -/
theorem exec_state_error {error : RuntimeError} (hcode : u.code[frame.pc]? = some i)
    (hact : i.act u limits.operands w.globals (frame.goto (frame.pc + 1)) w.host =
        (.error error, host)) :
    (state u limits (.running frame callers) w).1.exec
      (state u limits (.running frame callers) w).2 =
      state u limits (.faulted (error.locate frame.pc (u.trace frame.pc frame.function callers)))
        ⟨w.globals, host⟩ := by
  unfold state Machine.exec
  dsimp only
  rw [hcode]
  dsimp only
  rw [hact]

/-- An instruction that succeeds under some limits and fails under all others succeeds
unless there is no room. -/
theorem exec_of_room {status status' : Status} {w' : World (Array Value) σ} (enough : Limits → Prop)
    (hok : ∀ limits, enough limits →
      (state u limits status w).1.exec (state u limits status w).2 = state u limits status' w')
    (hfails : ∀ limits, ¬enough limits →
      ((state u limits status w).1.exec (state u limits status w).2).1.fault?.isSome)
    (henough : ∃ limits, enough limits) (hstatus : ∀ error, status' ≠ .faulted error)
    (hroom : ¬(state u limits status w).1.LacksRoom (state u limits status w).2) :
    (state u limits status w).1.exec (state u limits status w).2 = state u limits status' w' := by
  by_cases hlimits : enough limits
  · exact hok limits hlimits
  · obtain ⟨larger, hlarger⟩ := henough
    have hfault :
        ((state u larger status w).1.exec (state u larger status w).2).1.fault? = none := by
      rw [hok larger hlarger]
      cases status' with
      | running frame callers => rfl
      | done => rfl
      | faulted error => exact absurd rfl (hstatus error)
    exact absurd ⟨hfails limits hlimits, larger, hfault⟩ hroom

/-- An instruction that pushes a value, whatever the limits, does so unless there is no room. -/
theorem exec_deliver {value : Value} (hcode : u.code[frame.pc]? = some i)
    (hact : ∀ limit, i.act u limit w.globals (frame.goto (frame.pc + 1)) w.host =
      Instruction.quietly host (next.deliver limit value))
    (hroom : ¬(state u limits (.running frame callers) w).1.LacksRoom
      (state u limits (.running frame callers) w).2) :
    (state u limits (.running frame callers) w).1.exec
      (state u limits (.running frame callers) w).2 =
      state u limits (.running { next with stack := next.stack.push value } callers)
        ⟨w.globals, host⟩ := by
  refine exec_of_room (fun limits => next.stack.size < limits.operands) (fun limits hlt => ?_)
    (fun limits hlt => ?_) ⟨{ operands := next.stack.size + 1 }, Nat.lt_succ_self _⟩ (by simp) hroom
  · have hok : i.act u limits.operands w.globals (frame.goto (frame.pc + 1)) w.host =
        (.ok (.proceed { next with stack := next.stack.push value }), host) := by
      rw [hact, Frame.deliver_of_lt hlt]
      rfl
    exact exec_state_ok hcode hok
  · have hfault : i.act u limits.operands w.globals (frame.goto (frame.pc + 1)) w.host =
        (.error { fault := .operandOverflow limits.operands }, host) := by
      rw [hact, Frame.deliver_of_le (Nat.not_lt.mp hlt)]
      rfl
    rw [exec_state_error hcode hfault]
    rfl

end Exec

section Steps

variable {function : Option Nat} {pc pc' : Nat} {slots slots' : Slots} {stack stack' : Array Value}
  {x : Eval (Array Value) σ Value}

/-- An instruction that pushes the value of an evaluation performs it. -/
theorem Steps.deliver (hcode : u.code[pc]? = some i)
    (hact : ∀ w : World (Array Value) σ,
      (∃ value host, x w = .ok value { w with host } ∧ ∀ limit,
        i.act u limit w.globals ⟨function, pc + 1, slots, stack⟩ w.host =
          Instruction.quietly host (Frame.deliver ⟨function, pc', slots', stack'⟩ limit value)) ∨
      (∃ error host, x w = .error (.fault error) { w with host } ∧ ∀ limit,
        i.act u limit w.globals ⟨function, pc + 1, slots, stack⟩ w.host = (.error error, host))) :
    Steps u limits (.running ⟨function, pc, slots, stack⟩ callers) x
      fun value => .running ⟨function, pc', slots', stack'.push value⟩ callers := by
  intro w hroom
  rcases hact w with ⟨value, host, hx, hact⟩ | ⟨error, host, hx, hact⟩
  · exact .inl ⟨value, _, hx, exec_deliver hcode hact hroom⟩
  · exact .inr ⟨error, _, _, _, hx, exec_state_error hcode (hact _)⟩

/-- An instruction that pushes a result performs it. -/
theorem Steps.deliverResult {result : Except Fault Value} (hcode : u.code[pc]? = some i)
    (hact : ∀ (limit : Nat) (globals : Array Value) (host : Host σ),
      i.act u limit globals ⟨function, pc + 1, slots, stack⟩ host =
        Instruction.quietly host
          (Frame.deliverResult ⟨function, pc', slots', stack'⟩ limit result)) :
    Steps u limits (.running ⟨function, pc, slots, stack⟩ callers)
      (Eval.lift result : Eval (Array Value) σ Value)
      fun value => .running ⟨function, pc', slots', stack'.push value⟩ callers := by
  refine Steps.deliver hcode fun w => ?_
  cases result with
  | ok value => exact .inl ⟨value, w.host, rfl, fun limit => hact limit _ _⟩
  | error fault => exact .inr ⟨{ fault }, w.host, rfl, fun limit => hact limit _ _⟩

/-- An instruction that pushes a constant performs nothing else. -/
theorem Steps.push {value : Value} (hcode : u.code[pc]? = some i)
    (hact : ∀ (limit : Nat) (globals : Array Value) (host : Host σ),
      i.act u limit globals ⟨function, pc + 1, slots, stack⟩ host =
        Instruction.quietly host (Frame.deliver ⟨function, pc', slots', stack'⟩ limit value)) :
    Steps u limits (.running ⟨function, pc, slots, stack⟩ callers)
      (pure value : Eval (Array Value) σ Value)
      fun value => .running ⟨function, pc', slots', stack'.push value⟩ callers :=
  Steps.deliver hcode fun w => .inl ⟨value, w.host, rfl, fun limit => hact limit _ _⟩

/-- An instruction that only moves on performs nothing. -/
theorem Steps.proceed (hcode : u.code[pc]? = some i)
    (hact : ∀ (limit : Nat) (globals : Array Value) (host : Host σ),
      i.act u limit globals ⟨function, pc + 1, slots, stack⟩ host =
        Instruction.quietly host (.ok (.proceed ⟨function, pc', slots', stack'⟩))) :
    Steps u limits (.running ⟨function, pc, slots, stack⟩ callers)
      (pure () : Eval (Array Value) σ Unit)
      fun _ => .running ⟨function, pc', slots', stack'⟩ callers := by
  intro w _
  refine .inl ⟨(), w, rfl, ?_⟩
  rw [exec_state_ok hcode (hact limits.operands w.globals w.host)]
  rfl

end Steps

section Operands

variable {function : Option Nat} {pc n : Nat} {slots : Slots} {stack : Array Value}

@[simp] theorem Frame.pop_push (value : Value) :
    Frame.pop ⟨function, pc, slots, stack.push value⟩ =
      .ok (value, ⟨function, pc, slots, stack⟩) := by
  simp [Frame.pop]

/-- What follows a pop has the operand that was pushed last. -/
theorem Frame.pop_push_bind {α : Type} (value : Value) (f : Value × Frame → Except Fault α) :
    (Frame.pop ⟨function, pc, slots, stack.push value⟩ >>= f) =
      f (value, ⟨function, pc, slots, stack⟩) := by
  rw [Frame.pop_push]
  rfl

/-- Operands are popped together as they were pushed. -/
theorem Frame.popMany_append (values : Array Value) :
    Frame.popMany ⟨function, pc, slots, stack ++ values⟩ values.size =
      .ok (values, ⟨function, pc, slots, stack⟩) := by
  have hrest : (stack ++ values).size - values.size = stack.size := by
    rw [Array.size_append]
    omega
  unfold Frame.popMany
  dsimp only
  rw [hrest, if_pos (by simp)]
  simp

/-- A place is read. -/
theorem Place.steps_load {place : Place} (h : u.Has pc (place.loadOp n)) :
    Steps u limits (.running ⟨function, pc, slots, stack⟩ callers)
      (place.read slots : Eval (Array Value) σ Value)
      fun value => .running ⟨function, pc + 1, slots, stack.push value⟩ callers := by
  cases place with
  | slot k =>
    have hread : (Place.read slots (.slot k) : Eval (Array Value) σ Value) =
        Eval.lift (Frame.getLocal ⟨function, pc + 1, slots, stack⟩ k) := by
      rw [Place.read, Slots.read, Frame.getLocal]
      cases slots[k]? <;> rfl
    rw [hread]
    exact Steps.deliverResult h fun _ _ _ => rfl
  | script id =>
    refine Steps.deliver h fun w => ?_
    rw [Place.read]
    dsimp only [Instruction.act]
    cases w.globals[id]? with
    | some value => exact .inl ⟨value, w.host, rfl, fun _ => rfl⟩
    | none => exact .inr ⟨{ fault := .noGlobal id }, w.host, rfl, fun _ => rfl⟩
  | host name =>
    obtain ⟨id, hname, hcode⟩ := h
    refine Steps.deliver hcode fun w => ?_
    have hact : ∀ limit,
        Instruction.act u limit w.globals ⟨function, pc + 1, slots, stack⟩ w.host (.loadHost id) =
        Instruction.quietly (w.host.read name).2
          (Frame.deliverResult ⟨function, pc + 1, slots, stack⟩ limit (w.host.read name).1) := by
      intro limit
      simp only [Instruction.act, Instruction.actLoadHost, CodeUnit.string, hname]
    have hread : Place.read slots (.host name) w =
        Eval.lift (w.host.read name).1 { w with host := (w.host.read name).2 } :=
      rfl
    rw [hread]
    cases hresult : (w.host.read name).1 with
    | ok value =>
      exact .inl ⟨value, (w.host.read name).2, rfl, fun limit => by rw [hact, hresult]; rfl⟩
    | error fault =>
      exact .inr ⟨{ fault }, (w.host.read name).2, rfl, fun limit => by rw [hact, hresult]; rfl⟩

/-- A slot is written with the topmost operand. -/
theorem act_storeLocal (u : CodeUnit) (limit : Nat) (globals : Array Value) (frame : Frame)
    (host : Host σ) (k : Nat) (value : Value) :
    Instruction.act u limit globals { frame with stack := frame.stack.push value } host
      (.storeLocal k) =
      Instruction.quietly host
        (if k < frame.locals.size then
          .ok (.proceed { frame with locals := frame.locals.setIfInBounds k value })
        else .error (.noLocal k)) := by
  simp only [Instruction.act, Frame.pop_push_bind, Frame.setLocal]
  split <;> rfl

/-- A script global is written with the topmost operand. -/
theorem act_storeGlobal (u : CodeUnit) (limit : Nat) (globals : Array Value) (frame : Frame)
    (host : Host σ) (id : Nat) (value : Value) :
    Instruction.act u limit globals { frame with stack := frame.stack.push value } host
      (.storeGlobal id) =
      Instruction.quietly host
        (if id < globals.size then .ok (.assign frame id value) else .error (.noGlobal id)) := by
  simp only [Instruction.act, Frame.pop_push_bind]
  rfl

/-- A global of the host is written with the topmost operand. -/
theorem act_storeHost (limit : Nat) (globals : Array Value) (frame : Frame) (host : Host σ)
    {id : Nat} {name : String} (hname : u.strings[id]? = some name) (value : Value) :
    Instruction.act u limit globals { frame with stack := frame.stack.push value } host
      (.storeHost id) =
      match host.write name value with
      | .error fault => Instruction.quietly host (.error fault)
      | .ok host => Instruction.quietly host (.ok (.proceed frame)) := by
  cases hwrite : host.write name value <;>
    simp only [Instruction.act, Instruction.actStoreHost, Frame.pop_push, CodeUnit.string,
      hname, hwrite]

/-- The topmost operand is stored into a slot. -/
theorem steps_storeLocal {k : Nat} {value : Value} (hcode : u.code[pc]? = some (.storeLocal k)) :
    Steps u limits (.running ⟨function, pc, slots, stack.push value⟩ callers)
      (slots.write k value : Eval (Array Value) σ Slots)
      fun slots' => .running ⟨function, pc + 1, slots', stack⟩ callers := by
  intro w _
  have hact := act_storeLocal u limits.operands w.globals
    ⟨function, pc + 1, slots, stack⟩ w.host k value
  rw [Slots.write]
  by_cases hlt : k < slots.size
  · rw [if_pos hlt] at hact ⊢
    exact .inl ⟨_, w, rfl, by rw [exec_state_ok hcode hact]; rfl⟩
  · rw [if_neg hlt] at hact ⊢
    exact .inr ⟨_, w, _, _, rfl, exec_state_error hcode hact⟩

/-- The topmost operand is stored into a place. -/
theorem Place.steps_store {place : Place} {value : Value} (h : u.Has pc (place.storeOp n)) :
    Steps u limits (.running ⟨function, pc, slots, stack.push value⟩ callers)
      (place.write slots value : Eval (Array Value) σ Slots)
      fun slots' => .running ⟨function, pc + 1, slots', stack⟩ callers := by
  intro w hroom
  cases place with
  | slot k => exact steps_storeLocal h w hroom
  | script id =>
    have hcode : u.code[pc]? = some (.storeGlobal id) := h
    have hact := act_storeGlobal u limits.operands w.globals
      ⟨function, pc + 1, slots, stack⟩ w.host id value
    rw [Place.write]
    dsimp only
    by_cases hlt : id < w.globals.size
    · rw [if_pos hlt] at hact ⊢
      exact .inl ⟨_, _, rfl, by rw [exec_state_ok hcode hact]; rfl⟩
    · rw [if_neg hlt] at hact ⊢
      exact .inr ⟨_, w, _, _, rfl, exec_state_error hcode hact⟩
  | host name =>
    obtain ⟨id, hname, hcode⟩ := h
    have hact := act_storeHost limits.operands w.globals
      ⟨function, pc + 1, slots, stack⟩ w.host hname value
    have hbind : (Place.write slots value (.host name) : Eval (Array Value) σ Slots) w =
        (EStateM.bind (Eval.writeHost name value) fun _ => pure slots) w := by
      rw [Place.write]
      rfl
    cases hresult : w.host.write name value with
    | ok written =>
      rw [hresult] at hact
      have hwrite : (Place.write slots value (.host name) : Eval (Array Value) σ Slots) w =
          .ok slots { w with host := written } := by
        rw [hbind, EStateM.bind, Eval.writeHost, hresult]
        rfl
      rw [hwrite]
      exact .inl ⟨_, _, rfl, by rw [exec_state_ok hcode hact]; rfl⟩
    | error fault =>
      rw [hresult] at hact
      have hwrite : (Place.write slots value (.host name) : Eval (Array Value) σ Slots) w =
          .error (.fault { fault }) w := by
        rw [hbind, EStateM.bind, Eval.writeHost, hresult]
        rfl
      rw [hwrite]
      exact .inr ⟨_, w, _, _, rfl, exec_state_error hcode hact⟩

/-- The operands of an array are popped together. -/
theorem steps_makeArray {values : Array Value}
    (hcode : u.code[pc]? = some (.makeArray values.size)) :
    Steps u limits (.running ⟨function, pc, slots, stack ++ values⟩ callers)
      (pure (.array values) : Eval (Array Value) σ Value)
      fun value => .running ⟨function, pc + 1, slots, stack.push value⟩ callers := by
  refine Steps.push hcode fun limit globals host => ?_
  simp only [Instruction.act, Frame.popMany_append]
  rfl

theorem steps_loadIndex {array index : Value} (hcode : u.code[pc]? = some .loadIndex) :
    Steps u limits (.running ⟨function, pc, slots, (stack.push array).push index⟩ callers)
      (Eval.lift (array.element index) : Eval (Array Value) σ Value)
      fun value => .running ⟨function, pc + 1, slots, stack.push value⟩ callers := by
  refine Steps.deliverResult hcode fun limit globals host => ?_
  simp only [Instruction.act, Frame.pop_push_bind]

theorem steps_storeIndex {value array index : Value} (hcode : u.code[pc]? = some .storeIndex) :
    Steps u limits (.running ⟨function, pc, slots, ((stack.push value).push array).push index⟩
        callers) (Eval.lift (array.withElement index value) : Eval (Array Value) σ Value)
      fun value => .running ⟨function, pc + 1, slots, stack.push value⟩ callers := by
  refine Steps.deliverResult hcode fun limit globals host => ?_
  simp only [Instruction.act, Frame.pop_push_bind]

theorem steps_unary {op : UnaryOp} {operand : Value} (hcode : u.code[pc]? = some (.unary op)) :
    Steps u limits (.running ⟨function, pc, slots, stack.push operand⟩ callers)
      (Eval.lift (op.apply operand) : Eval (Array Value) σ Value)
      fun value => .running ⟨function, pc + 1, slots, stack.push value⟩ callers := by
  refine Steps.deliverResult hcode fun limit globals host => ?_
  simp only [Instruction.act, Frame.pop_push_bind]

theorem steps_binary {op : BinaryOp} {left right : Value}
    (hcode : u.code[pc]? = some (.binary op)) :
    Steps u limits (.running ⟨function, pc, slots, (stack.push left).push right⟩ callers)
      (Eval.lift (op.apply left right) : Eval (Array Value) σ Value)
      fun value => .running ⟨function, pc + 1, slots, stack.push value⟩ callers := by
  refine Steps.deliverResult hcode fun limit globals host => ?_
  simp only [Instruction.act, Frame.pop_push_bind]

theorem steps_pop {value : Value} (hcode : u.code[pc]? = some .pop) :
    Steps u limits (.running ⟨function, pc, slots, stack.push value⟩ callers)
      (pure () : Eval (Array Value) σ Unit)
      fun _ => .running ⟨function, pc + 1, slots, stack⟩ callers := by
  refine Steps.proceed hcode fun limit globals host => ?_
  simp only [Instruction.act, Frame.pop_push]
  rfl

theorem steps_jump {target : Nat} (hcode : u.code[pc]? = some (.jump target)) :
    Steps u limits (.running ⟨function, pc, slots, stack⟩ callers)
      (pure () : Eval (Array Value) σ Unit)
      fun _ => .running ⟨function, target, slots, stack⟩ callers :=
  Steps.proceed hcode fun _ _ _ => rfl

/-- A branch pops its condition and goes to the target or on. -/
theorem Frame.branch_push {when : Bool} {target : Nat} {value : Value} :
    Frame.branch ⟨function, pc, slots, stack.push value⟩ when target =
      .ok (.proceed ⟨function, if value.isTruthy == when then target else pc, slots, stack⟩) := by
  rw [Frame.branch, Frame.pop_push]
  cases hvalue : value.isTruthy == when <;>
    simp [hvalue, Frame.goto, bind, Except.bind, pure, Except.pure]

/-- A branch pops its condition. -/
theorem steps_branch {when : Bool} {target : Nat} {value : Value} (hcode : u.code[pc]? = some i)
    (hact : ∀ (limit : Nat) (globals : Array Value) (host : Host σ),
      i.act u limit globals ⟨function, pc + 1, slots, stack.push value⟩ host =
        Instruction.quietly host
          (Frame.branch ⟨function, pc + 1, slots, stack.push value⟩ when target)) :
    Steps u limits (.running ⟨function, pc, slots, stack.push value⟩ callers)
      (pure () : Eval (Array Value) σ Unit) fun _ =>
        .running ⟨function, if value.isTruthy == when then target else pc + 1, slots,
            stack⟩ callers := by
  refine Steps.proceed hcode fun limit globals host => ?_
  rw [hact, Frame.branch_push]

/-- A loop over an array moves its cursor past the item that it pushes, and is left
behind the last one. -/
theorem act_iterNext (u : CodeUnit) (limit : Nat) (globals : Array Value) (frame : Frame)
    (host : Host σ) {array cursor : Nat} (exit : Nat) {n : Float} {items : Array Value}
    (hcursor : frame.locals[cursor]? = some (.number n))
    (harray : frame.locals[array]? = some (.array items)) :
    Instruction.act u limit globals frame host (.iterNext array cursor exit) =
      Instruction.quietly host
        (match items[Number.count n]? with
        | some item =>
          Frame.deliver
            { frame with locals := frame.locals.setIfInBounds cursor (.number (n + 1.0)) }
            limit item
        | none => .ok (.proceed (frame.goto exit))) := by
  have hlt : cursor < frame.locals.size := (Array.getElem?_eq_some_iff.mp hcursor).1
  have hset : frame.setLocal cursor (.number (n + 1.0)) =
      .ok { frame with locals := frame.locals.setIfInBounds cursor (.number (n + 1.0)) } :=
    if_pos hlt
  simp only [Instruction.act, Frame.advance, Frame.getLocal, hcursor, harray]
  change Instruction.quietly host
    (match items[Number.count n]? with | some item => _ | none => _) = _
  cases items[Number.count n]? with
  | none => rfl
  | some item =>
    dsimp only
    rw [hset]
    rfl

/-- The next item of a loop over an array is pushed, or else the loop is left. -/
theorem steps_iterNext {array cursor exit : Nat}
    (hcode : u.code[pc]? = some (.iterNext array cursor exit)) :
    Steps u limits (.running ⟨function, pc, slots, stack⟩ callers)
      (Bound.nextItem slots array cursor : Eval (Array Value) σ (Option (Value × Slots)))
      fun found => found.elim (.running ⟨function, exit, slots, stack⟩ callers)
        fun r => .running ⟨function, pc + 1, r.2, stack.push r.1⟩ callers := by
  intro w hroom
  have hact : ∀ limit, Instruction.act u limit w.globals ⟨function, pc + 1, slots, stack⟩ w.host
      (.iterNext array cursor exit) =
      Instruction.quietly w.host
        (Frame.advance ⟨function, pc + 1, slots, stack⟩ limit array cursor exit) :=
    fun _ => rfl
  unfold Frame.advance Frame.getLocal at hact
  unfold Bound.nextItem Slots.read
  dsimp only at hact
  cases hcursor : slots[cursor]? with
  | none =>
    rw [hcursor] at hact
    exact .inr ⟨_, w, _, _, rfl, exec_state_error hcode (hact _)⟩
  | some position =>
    rw [hcursor] at hact
    cases position with
    | number n =>
      cases harray : slots[array]? with
      | none =>
        rw [harray] at hact
        exact .inr ⟨_, w, _, _, rfl, exec_state_error hcode (hact _)⟩
      | some source =>
        rw [harray] at hact
        cases source with
        | array items =>
          have hturn := fun limit =>
            act_iterNext u limit w.globals ⟨function, pc + 1, slots, stack⟩ w.host exit
              hcursor harray
          have hlt : cursor < slots.size := (Array.getElem?_eq_some_iff.mp hcursor).1
          simp only [pure_bind]
          cases hitem : items[Number.count n]? with
          | none =>
            rw [hitem] at hturn
            exact .inl ⟨none, w, rfl, by rw [exec_state_ok hcode (hturn _)]; rfl⟩
          | some item =>
            rw [hitem] at hturn
            have hexec := exec_deliver hcode hturn hroom
            refine .inl ⟨some (item, slots.setIfInBounds cursor (.number (n + 1.0))), w, ?_, hexec⟩
            simp only [Slots.write, hlt, if_true, pure_bind]
            rfl
        | _ => exact .inr ⟨_, w, _, _, rfl, exec_state_error hcode (hact _)⟩
    | _ => exact .inr ⟨_, w, _, _, rfl, exec_state_error hcode (hact _)⟩

/-- The status after the current call is closed with a value. -/
def left : List Frame → Value → Status
  | [], _ => .done
  | caller :: callers, value => .running { caller with stack := caller.stack.push value } callers

/-- A return closes the current call, unless the caller has no room for the result. -/
theorem Steps.leave {value : Value} (hcode : u.code[pc]? = some i)
    (hact : ∀ (limit : Nat) (globals : Array Value) (host : Host σ),
      i.act u limit globals ⟨function, pc + 1, slots, stack⟩ host =
        Instruction.quietly host (.ok (.leave value))) :
    Steps u limits (.running ⟨function, pc, slots, stack⟩ callers)
      (pure () : Eval (Array Value) σ Unit)
      fun _ => left callers value := by
  intro w hroom
  refine .inl ⟨(), w, rfl, ?_⟩
  cases callers with
  | nil =>
    rw [exec_state_ok hcode (hact limits.operands w.globals w.host)]
    rfl
  | cons caller callers =>
    refine exec_of_room (fun limits => caller.stack.size < limits.operands) (fun limits hlt => ?_)
      (fun limits hlt => ?_) ⟨{ operands := caller.stack.size + 1 },
        Nat.lt_succ_self _⟩ (by simp [left]) hroom
    · rw [exec_state_ok hcode (hact limits.operands w.globals w.host)]
      simp only [follow, Frame.push, if_pos hlt]
      rfl
    · rw [exec_state_ok hcode (hact limits.operands w.globals w.host)]
      simp only [follow, Frame.push, if_neg hlt]
      rfl

end Operands

end HostScript
