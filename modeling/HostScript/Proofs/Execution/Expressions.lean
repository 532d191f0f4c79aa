import HostScript.Proofs.Emission.Each
import HostScript.Proofs.Execution.Instructions

/-!
# The code of expressions

The code of an expression pushes its value on whatever operands the frame holds already and leaves
the slots alone. A call is performed as long as the functions that it may open are.
-/

namespace HostScript

open Machine

variable {σ : Type} {u : CodeUnit} {limits : Limits} {bound : Nat} {function : Option Nat}
  {pc : Nat} {slots : Slots} {stack : Array Value} {callers : List Frame}
  {call : Calls (Array Value) σ}

section Calls

/-- Whether a machine performs the calls of functions: when its next instruction opens a call, under
whatever limits, it comes back to the caller with the result. -/
def CallsPerform (u : CodeUnit) (limits : Limits) (bound : Nat)
    (call : Calls (Array Value) σ) : Prop :=
  ∀ (status : Status) (w w' : World (Array Value) σ) (pc : Nat) (function : Option Nat)
    (caller : Frame) (callers : List Frame) (id : Nat) (args : Array Value),
    (∀ limits, (state u limits status w).1.exec (state u limits status w).2 =
      state u limits (follow u limits pc function callers (.call caller id args)) w') →
    Reaches u limits bound (state u limits status w) (call id args w')
      fun value => .running { caller with stack := caller.stack.push value } callers

/-- A machine that faults has come to where the fault is. -/
theorem Reaches.fault {α : Type} {c : Machine × Host σ} {error : RuntimeError}
    {w : World (Array Value) σ} {goal : α → Status} {trace : List TraceEntry}
    (hexec : c.1.exec c.2 = state u limits (.faulted (error.locate pc trace)) w) :
    Reaches u limits bound c (.error (.fault error) w) goal :=
  fun _ => ⟨1, pc, trace, hexec⟩

/-- A call of a script function is performed. -/
theorem performs_callScript (hcalls : CallsPerform u limits bound call) {id : Nat}
    {args : Array Value} (hcode : u.code[pc]? = some (.callScript id args.size)) :
    Performs u limits bound (.running ⟨function, pc, slots, stack ++ args⟩ callers) (call id args)
      fun value => .running ⟨function, pc + 1, slots, stack.push value⟩ callers := by
  intro w
  refine hcalls _ w w pc function ⟨function, pc + 1, slots, stack⟩ callers id args fun limits => ?_
  have hact :
      Instruction.act u limits.operands w.globals ⟨function, pc + 1, slots, stack ++ args⟩ w.host
      (.callScript id args.size) =
        (.ok (.call ⟨function, pc + 1, slots, stack⟩ id args), w.host) := by
    simp only [Instruction.act, Frame.popMany_append]
    rfl
  rw [exec_state_ok hcode hact]
  rfl

/-- A callable of the host is called and its answer is followed. -/
theorem reaches_callHost (hcalls : CallsPerform u limits bound call) {i : Instruction}
    {operands : Array Value} {w : World (Array Value) σ} {callable : Callable σ} {name : String}
    {args : Array Value} (hcode : u.code[pc]? = some i)
    (hact : ∀ limit, i.act u limit w.globals ⟨function, pc + 1, slots, operands⟩ w.host =
      Instruction.actCall limit ⟨function, pc + 1, slots, stack⟩ w.host callable name args) :
    Reaches u limits bound (state u limits (.running ⟨function, pc, slots, operands⟩ callers) w)
      (Eval.callHost call callable name args w)
      fun value => .running ⟨function, pc + 1, slots, stack.push value⟩ callers := by
  unfold Instruction.actCall at hact
  unfold Eval.callHost
  generalize w.host.call callable name args = answer at hact ⊢
  obtain ⟨result, host⟩ := answer
  cases result with
  | error error => exact Reaches.fault (exec_state_error hcode (hact _))
  | ok outcome =>
    cases outcome with
    | immediate value =>
      intro hroom
      have hexec := exec_deliver hcode hact (hroom 0)
      exact ⟨1, hexec⟩
    | invoke id args =>
      refine hcalls _ w _ pc function ⟨function, pc + 1, slots, stack⟩ callers id args
        fun limits => ?_
      rw [exec_state_ok hcode (hact limits.operands)]
      rfl

/-- A native is called. -/
theorem performs_callNative (hcalls : CallsPerform u limits bound call) {n : Nat} {name : String}
    {args : Array Value} (h : u.Has pc (.named n name (.callNative · args.size))) :
    Performs u limits bound (.running ⟨function, pc, slots, stack ++ args⟩ callers)
      (Eval.callNative call name args)
      fun value => .running ⟨function, pc + 1, slots, stack.push value⟩ callers := by
  obtain ⟨id, hname, hcode⟩ := h
  intro w
  unfold Eval.callNative
  cases hnative : w.host.natives[name]? with
  | none =>
    have hact :
        Instruction.act u limits.operands w.globals ⟨function, pc + 1, slots, stack ++ args⟩ w.host
        (.callNative id args.size) =
          Instruction.quietly w.host (.error (.undefinedSymbol name)) := by
      simp only [Instruction.act, Instruction.actCallNative, Frame.popMany_append, CodeUnit.string,
        hname, hnative]
    exact Reaches.fault (exec_state_error hcode hact)
  | some callable =>
    have hact : ∀ limit, Instruction.act u limit w.globals
        ⟨function, pc + 1, slots, stack ++ args⟩ w.host (.callNative id args.size) =
          Instruction.actCall limit ⟨function, pc + 1, slots, stack⟩ w.host callable name args := by
      intro limit
      simp only [Instruction.act, Instruction.actCallNative, Frame.popMany_append, CodeUnit.string,
        hname, hnative]
    exact reaches_callHost hcalls hcode hact

/-- A method of an object is called. -/
theorem performs_callMethod (hcalls : CallsPerform u limits bound call) {n : Nat} {name : String}
    {object : Value} {args : Array Value} (h : u.Has pc (.named n name (.callMethod · args.size))) :
    Performs u limits bound (.running ⟨function, pc, slots, stack.push object ++ args⟩ callers)
      (Eval.callMethod call object name args)
      fun value => .running ⟨function, pc + 1, slots, stack.push value⟩ callers := by
  obtain ⟨id, hname, hcode⟩ := h
  intro w
  unfold Eval.callMethod
  cases object with
  | object object =>
    cases hmethod : w.host.method? object name w.host.state with
    | none =>
      have hact : Instruction.act u limits.operands w.globals
          ⟨function, pc + 1, slots,
            stack.push (.object object) ++ args⟩ w.host (.callMethod id args.size) =
            Instruction.quietly w.host (.error (.noSuchMethod name)) := by
        simp only [Instruction.act, Instruction.actCallMethod, Frame.popMany_append, Frame.pop_push,
          CodeUnit.string, hname, hmethod]
      simp only [hmethod]
      exact Reaches.fault (exec_state_error hcode hact)
    | some callable =>
      have hact : ∀ limit, Instruction.act u limit w.globals
          ⟨function, pc + 1, slots,
            stack.push (.object object) ++ args⟩ w.host (.callMethod id args.size) =
            Instruction.actCall limit ⟨function, pc + 1, slots, stack⟩ w.host callable
              name args := by
        intro limit
        simp only [Instruction.act, Instruction.actCallMethod, Frame.popMany_append, Frame.pop_push,
          CodeUnit.string, hname, hmethod]
      simp only [hmethod]
      exact reaches_callHost hcalls hcode hact
  | _ =>
    refine Reaches.fault (exec_state_error hcode ?_)
    simp only [Frame.goto, Instruction.act, Instruction.actCallMethod, Frame.popMany_append,
      Frame.pop_push]
    rfl

end Calls

section Trees

namespace Bound

/-- Expressions have as many values as there are of them. -/
theorem Expr.length_evalAll {xs : List Expr} {w w' : World (Array Value) σ} {values : List Value}
    (h : Expr.evalAll call slots xs w = .ok values w') : values.length = xs.length := by
  induction xs generalizing w values with
  | nil =>
    rw [Expr.evalAll] at h
    cases h
    rfl
  | cons x xs ih =>
    rw [Expr.evalAll] at h
    obtain ⟨value, w₁, -, h⟩ := Eval.bind_eq_ok h
    obtain ⟨rest, w₂, hrest, h⟩ := Eval.bind_eq_ok h
    cases h
    rw [List.length_cons, List.length_cons, ih hrest]

/-- A connective is decided by the left operand or else has the truth value of the right one. -/
theorem Expr.eval_connect (op : Connective) (lhs rhs : Expr) :
    (Expr.connect op lhs rhs).eval call slots = do
      let left ← lhs.eval call slots
      if left.isTruthy == !Emitter.undecided op then return .boolean !(Emitter.undecided op)
      else
        let right ← rhs.eval call slots
        return .boolean right.isTruthy := by
  cases op with
  | and =>
    rw [Expr.eval]
    refine bind_congr fun left => ?_
    cases left.isTruthy <;> rfl
  | or =>
    rw [Expr.eval]
    refine bind_congr fun left => ?_
    cases left.isTruthy <;> rfl

/-- A connective skips its right operand, or the rest of its code, when the operand
before it decides. -/
theorem steps_skip {op : Connective} {value : Value} {target : Nat}
    (hcode : u.code[pc]? = some (Emitter.skip op target)) :
    Steps u limits (.running ⟨function, pc, slots, stack.push value⟩ callers)
      (pure () : Eval (Array Value) σ Unit) fun _ =>
        .running ⟨function, if value.isTruthy == !Emitter.undecided op then target else pc + 1,
            slots, stack⟩ callers := by
  cases op with
  | and => exact steps_branch hcode fun _ _ _ => rfl
  | or => exact steps_branch hcode fun _ _ _ => rfl

/-- The code behind the right operand of a connective pushes its truth value. -/
theorem performs_verdict {op : Connective} {right : Value}
    (hskip : u.code[pc]? = some (Emitter.skip op (pc + 3)))
    (hundecided : u.code[pc + 1]? = some (.pushBool (Emitter.undecided op)))
    (hjump : u.code[pc + 2]? = some (.jump (pc + 4)))
    (hdecided : u.code[pc + 3]? = some (.pushBool !(Emitter.undecided op))) :
    Performs u limits bound (.running ⟨function, pc, slots, stack.push right⟩ callers)
      (pure (.boolean right.isTruthy) : Eval (Array Value) σ Value)
      fun value => .running ⟨function, pc + 4, slots, stack.push value⟩ callers := by
  refine (steps_skip hskip).before ?_
  by_cases hvalue : right.isTruthy = !Emitter.undecided op
  · rw [if_pos (by simpa using hvalue), hvalue]
    exact (Steps.push hdecided fun _ _ _ => rfl).performs
  · have hright : right.isTruthy = Emitter.undecided op := by simpa using hvalue
    rw [if_neg (by simpa using hvalue), hright]
    rw [← bind_pure (pure _)]
    refine (Steps.push hundecided fun _ _ _ => rfl).performs.bind fun value => ?_
    exact (steps_jump hjump).before (Performs.pure rfl)

mutual

/-- The code of an expression pushes its value. -/
theorem Expr.performs (hcalls : CallsPerform u limits bound call) :
    (x : Expr) → (start n : Nat) → (stack : Array Value) → Op.Each u.Has start (x.code start n) →
      Performs u limits bound (.running ⟨function, start, slots, stack⟩ callers) (x.eval call slots)
        fun value => .running ⟨function, start + x.size, slots, stack.push value⟩ callers
  | .void, start, n, stack, h => by
    rw [Expr.eval]
    exact (Steps.push (Expr.each_void.mp h) fun _ _ _ => rfl).performs
  | .number value, start, n, stack, h => by
    rw [Expr.eval]
    exact (Steps.push (Expr.each_number.mp h) fun _ _ _ => rfl).performs
  | .string value, start, n, stack, h => by
    obtain ⟨id, hstring, hcode⟩ := Expr.each_string.mp h
    rw [Expr.eval]
    refine (Steps.push hcode fun limit globals host => ?_).performs
    simp only [Instruction.act, CodeUnit.string, hstring]
    rfl
  | .load place, start, n, stack, h => by
    rw [Expr.eval]
    exact (Place.steps_load (Expr.each_load.mp h)).performs
  | .index base position, start, n, stack, h => by
    obtain ⟨hbase, hposition, hcode⟩ := Expr.each_index.mp h
    rw [Expr.eval, Expr.add_size_index]
    refine (Expr.performs hcalls base start n stack hbase).bind fun array => ?_
    refine (Expr.performs hcalls position _ _ (stack.push array) hposition).bind fun index => ?_
    exact (steps_loadIndex hcode).performs
  | .array items, start, n, stack, h => by
    obtain ⟨hitems, hcode⟩ := Expr.each_array.mp h
    rw [Expr.eval, Expr.add_size_array]
    refine (Expr.performs_all hcalls items start n stack hitems).bind_of
      (fun _ _ _ => Expr.length_evalAll)
      fun values hlength => ?_
    rw [← hlength] at hcode
    exact (steps_makeArray hcode).performs
  | .callScript id args, start, n, stack, h => by
    obtain ⟨hargs, hcode⟩ := Expr.each_callScript.mp h
    rw [Expr.eval, Expr.add_size_callScript]
    refine (Expr.performs_all hcalls args start n stack hargs).bind_of
      (fun _ _ _ => Expr.length_evalAll)
      fun values hlength => ?_
    rw [← hlength] at hcode
    exact performs_callScript hcalls hcode
  | .callNative name args, start, n, stack, h => by
    obtain ⟨hargs, hcode⟩ := Expr.each_callNative.mp h
    rw [Expr.eval, Expr.add_size_callNative]
    refine (Expr.performs_all hcalls args start n stack hargs).bind_of
      (fun _ _ _ => Expr.length_evalAll)
      fun values hlength => ?_
    rw [← hlength] at hcode
    exact performs_callNative hcalls hcode
  | .callMethod object name args, start, n, stack, h => by
    obtain ⟨hobject, hargs, hcode⟩ := Expr.each_callMethod.mp h
    rw [Expr.eval, Expr.add_size_callMethod]
    refine (Expr.performs hcalls object start n stack hobject).bind fun receiver => ?_
    refine (Expr.performs_all hcalls args _ _ (stack.push receiver) hargs).bind_of
      (fun _ _ _ => Expr.length_evalAll) fun values hlength => ?_
    rw [← hlength] at hcode
    exact performs_callMethod hcalls hcode
  | .unary op operand, start, n, stack, h => by
    obtain ⟨hoperand, hcode⟩ := Expr.each_unary.mp h
    rw [Expr.eval]
    refine (Expr.performs hcalls operand start n stack hoperand).bind fun value => ?_
    exact (steps_unary hcode).performs
  | .strict op lhs rhs, start, n, stack, h => by
    obtain ⟨hlhs, hrhs, hcode⟩ := Expr.each_strict.mp h
    rw [Expr.eval, Expr.add_size_strict]
    refine (Expr.performs hcalls lhs start n stack hlhs).bind fun left => ?_
    refine (Expr.performs hcalls rhs _ _ (stack.push left) hrhs).bind fun right => ?_
    exact (steps_binary hcode).performs
  | .connect op lhs rhs, start, n, stack, h => by
    obtain ⟨hlhs, hfirst, hrhs, hskip, hundecided, hjump, hdecided⟩ := Expr.each_connect.mp h
    rw [Expr.eval_connect, Expr.add_size_connect]
    refine (Expr.performs hcalls lhs start n stack hlhs).bind fun left => ?_
    refine (steps_skip hfirst).before ?_
    split
    · exact (Steps.push hdecided fun _ _ _ => rfl).performs
    · refine (Expr.performs hcalls rhs _ _ stack hrhs).bind fun right => ?_
      exact performs_verdict hskip hundecided hjump hdecided
termination_by structural x => x

/-- The code of expressions pushes their values in order. -/
theorem Expr.performs_all (hcalls : CallsPerform u limits bound call) :
    (xs : List Expr) → (start n : Nat) → (stack : Array Value) →
      Op.Each u.Has start (Expr.codes start n xs) →
      Performs u limits bound (.running ⟨function, start, slots, stack⟩ callers)
        (Expr.evalAll call slots xs)
        fun values => .running ⟨function, start + Expr.sizes 0 xs, slots,
            stack ++ values.toArray⟩ callers
  | [], start, n, stack, _ => by
    rw [Expr.evalAll]
    exact Performs.pure (by simp [Expr.sizes])
  | x :: xs, start, n, stack, h => by
    obtain ⟨hx, hxs⟩ := Expr.each_codes_cons.mp h
    rw [Expr.evalAll, Expr.add_sizes_cons]
    refine (Expr.performs hcalls x start n stack hx).bind fun value => ?_
    refine (Expr.performs_all hcalls xs _ _ (stack.push value) hxs).bind fun values => ?_
    exact Performs.pure (by simp)
termination_by structural xs => xs

end

end Bound

end Trees

end HostScript
