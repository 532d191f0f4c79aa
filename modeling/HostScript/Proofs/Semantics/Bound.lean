import HostScript.Compile.Bound
import HostScript.Proofs.Semantics.Evaluation

/-!
# The meaning of bound programs

Bound programs are evaluated over the slots of a frame and the script globals by number. A loop over
an array keeps the array and the cursor in slots of their own, as the code does that runs it.
-/

namespace HostScript

variable {σ : Type}

/-- The slots of a frame. -/
abbrev Slots :=
  Array Value

namespace Slots

variable {γ : Type}

/-- Reads a slot. -/
def read (slots : Slots) (n : Nat) : Eval γ σ Value :=
  match slots[n]? with
  | some value => pure value
  | none => Eval.fail (.noLocal n)

/-- Writes a slot. -/
def write (slots : Slots) (n : Nat) (value : Value) : Eval γ σ Slots :=
  if n < slots.size then pure (slots.setIfInBounds n value) else Eval.fail (.noLocal n)

end Slots

namespace Place

/-- Reads a place. -/
def read (slots : Slots) : Place → Eval (Array Value) σ Value
  | .slot n => slots.read n
  | .script id => fun w =>
    match w.globals[id]? with
    | some value => .ok value w
    | none => Eval.fail (.noGlobal id) w
  | .host name => Eval.readHost name

/-- Writes a place. -/
def write (slots : Slots) (value : Value) : Place → Eval (Array Value) σ Slots
  | .slot n => slots.write n value
  | .script id => fun w =>
    if id < w.globals.size then .ok slots { w with globals := w.globals.setIfInBounds id value }
    else Eval.fail (.noGlobal id) w
  | .host name => Eval.writeHost name value >>= fun _ => pure slots

end Place

namespace Bound

variable (call : Calls (Array Value) σ)

mutual

/-- Evaluates an expression. -/
def Expr.eval (slots : Slots) : Expr → Eval (Array Value) σ Value
  | .void => return .void
  | .number value => return .number value
  | .string value => return .string value
  | .load place => place.read slots
  | .index base position => do
    let array ← base.eval slots
    let index ← position.eval slots
    Eval.lift (array.element index)
  | .array items => do
    let items ← Expr.evalAll slots items
    return .array items.toArray
  | .callScript function args => do
    let args ← Expr.evalAll slots args
    call function args.toArray
  | .callNative name args => do
    let args ← Expr.evalAll slots args
    Eval.callNative call name args.toArray
  | .callMethod object name args => do
    let object ← object.eval slots
    let args ← Expr.evalAll slots args
    Eval.callMethod call object name args.toArray
  | .unary op operand => do
    let value ← operand.eval slots
    Eval.lift (op.apply value)
  | .strict op lhs rhs => do
    let left ← lhs.eval slots
    let right ← rhs.eval slots
    Eval.lift (op.apply left right)
  | .connect .and lhs rhs => do
    let left ← lhs.eval slots
    if left.isTruthy then
      let right ← rhs.eval slots
      return .boolean right.isTruthy
    else
      return .boolean false
  | .connect .or lhs rhs => do
    let left ← lhs.eval slots
    if left.isTruthy then
      return .boolean true
    else
      let right ← rhs.eval slots
      return .boolean right.isTruthy
termination_by structural expr => expr

/-- Evaluates expressions from left to right. -/
def Expr.evalAll (slots : Slots) : List Expr → Eval (Array Value) σ (List Value)
  | [] => return []
  | expr :: rest => do
    let value ← expr.eval slots
    let values ← Expr.evalAll slots rest
    return value :: values
termination_by structural exprs => exprs

end

/-- Stores a value into a target. -/
def Target.store (slots : Slots) (value : Value) : Target → Eval (Array Value) σ Slots
  | .place p => p.write slots value
  | .element base position => do
    let array ← base.read.eval call slots
    let index ← position.eval call slots
    let array ← Eval.lift (array.withElement index value)
    base.store slots array

/-- The item that a cursor in one slot points to in the array in another. The cursor
moves on behind it. -/
def nextItem (slots : Slots) (array cursor : Nat) :
    Eval (Array Value) σ (Option (Value × Slots)) := do
  match ← slots.read cursor with
  | .number n =>
    match ← slots.read array with
    | .array items =>
      match items[Number.count n]? with
      | some item => do
        let slots ← slots.write cursor (.number (n + 1.0))
        return some (item, slots)
      | none => return none
    | other => Eval.fail (other.mismatch "array")
  | other => Eval.fail (other.mismatch "number")

mutual

/-- Evaluates a statement, with at most `fuel` turns for each loop. -/
def Stmt.exec (fuel : Nat) (slots : Slots) : Stmt → Eval (Array Value) σ (Signal × Slots)
  | .store target value => do
    let value ← value.eval call slots
    let slots ← target.store call slots value
    return (.next, slots)
  | .returnVoid => return (.returned .void, slots)
  | .returnValue value => do
    let value ← value.eval call slots
    return (.returned value, slots)
  | .whileLoop condition body =>
    Eval.loop
      (fun _ slots => do
        let value ← condition.eval call slots
        if value.isTruthy then
          let (signal, slots) ← body.exec fuel slots
          return signal.turn slots
        else
          return .finish .next slots)
      fuel 0 slots
  | .forLoop array cursor item source body => do
    let value ← source.eval call slots
    let slots ← slots.write array value
    let slots ← slots.write cursor (.number 0.0)
    Eval.loop
      (fun _ slots => do
        match ← nextItem slots array cursor with
        | some (value, slots) =>
          let slots ← slots.write item value
          let (signal, slots) ← body.exec fuel slots
          return signal.turn slots
        | none => return .finish .next slots)
      fuel 0 slots
  | .ifThen condition body => do
    let value ← condition.eval call slots
    if value.isTruthy then body.exec fuel slots else return (.next, slots)
  | .ifElse condition body otherwise => do
    let value ← condition.eval call slots
    if value.isTruthy then body.exec fuel slots else otherwise.exec fuel slots
  | .discard value => do
    let _ ← value.eval call slots
    return (.next, slots)
  | .block statements => Stmt.execAll fuel slots statements
  | .breakLoop => return (.breakLoop, slots)
  | .continueLoop => return (.continueLoop, slots)
termination_by structural stmt => stmt

/-- Evaluates statements in order, until one of them does not go on to the next. -/
def Stmt.execAll (fuel : Nat) (slots : Slots) : List Stmt → Eval (Array Value) σ (Signal × Slots)
  | [] => return (.next, slots)
  | stmt :: rest => do
    let (signal, slots) ← stmt.exec fuel slots
    match signal with
    | .next => Stmt.execAll fuel slots rest
    | signal => return (signal, slots)
termination_by structural statements => statements

end

/-- The slots of a new frame. Those that are not for parameters start as void. -/
def Body.slots (b : Body) (args : Array Value) : Slots :=
  args ++ Array.replicate (max b.locals b.arity - args.size) .void

namespace Program

/-- Calls a function of a bound program, with calls nested less than `fuel` deep and at most as many
turns for each loop. -/
def callFunction (program : Program) (fuel : Nat) : Calls (Array Value) σ := fun id args =>
  match program.functions[id]? with
  | none => Eval.fail (.noFunction id)
  | some b =>
    if args.size ≠ b.arity then Eval.fail (.arityMismatch b.name b.arity args.size)
    else
      match fuel with
      | 0 => throw .exhausted
      | fuel + 1 => do
        let (signal, _) ← Stmt.execAll (program.callFunction fuel) fuel (b.slots args) b.statements
        return signal.result

/-- Evaluates a bound program against a host. -/
def interpret (program : Program) (host : Host σ) (fuel : Nat) :
    EStateM.Result Halt (World (Array Value) σ) (Signal × Slots) :=
  Stmt.execAll (program.callFunction fuel) fuel
    (Array.replicate program.top.locals .void) program.top.statements
    { globals := Array.replicate program.globals.size .void, host }

end Program

end Bound

end HostScript
