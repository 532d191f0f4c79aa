import HostScript.Machine.Action

/-!
# The machine

A machine runs one unit of code against a host, one instruction at a time. It is running with at
least one open call, done, or stopped by a fault for good. Its script globals are its own; the unit
and the host may be shared with other machines.
-/

namespace HostScript

/-- Whether a machine runs, and if not why. -/
inductive Status where
  /-- The current call and the calls that wait for it, innermost first. -/
  | running (frame : Frame) (callers : List Frame)
  | done
  | faulted (error : RuntimeError)

/-- A machine. -/
structure Machine where
  unit : CodeUnit
  limits : Limits
  globals : Array Value
  status : Status

/-- The name of a function in a trace. -/
def CodeUnit.functionName (u : CodeUnit) (function : Option Nat) : String :=
  match function.bind fun id => u.functions[id]? with
  | some entry => entry.name
  | none => topLevelName

/-- The open calls at an offset: the current function, then the calls that wait, each at its
call. -/
def CodeUnit.trace (u : CodeUnit) (pc : Nat) (function : Option Nat) (callers : List Frame) :
    List TraceEntry :=
  ⟨u.functionName function, pc⟩ :: callers.map fun f => ⟨u.functionName f.function, f.pc - 1⟩

/-- The frame of a new call. Locals that are not parameters start as void. -/
def CodeUnit.openCall (u : CodeUnit) (limits : Limits) (depth function : Nat) (args : Array Value) :
    Except Fault Frame :=
  match u.functions[function]? with
  | none => .error (.noFunction function)
  | some entry =>
    if args.size ≠ entry.arity then .error (.arityMismatch entry.name entry.arity args.size)
    else if limits.callDepth ≤ depth then .error (.callOverflow limits.callDepth)
    else
      .ok
        { function := some function
          pc := entry.start
          locals := args ++ Array.replicate (max entry.locals entry.arity - args.size) .void }

namespace Machine

variable {σ : Type}

/-- A machine at the start of the top-level code. -/
def start (u : CodeUnit) (limits : Limits) : Machine where
  unit := u
  limits
  globals := Array.replicate u.globals.size .void
  status := .running
    { function := none, pc := u.top.start, locals := Array.replicate u.top.locals .void } []

/-- The number of open calls, the top-level code included. -/
def depth (m : Machine) : Nat :=
  match m.status with
  | .running _ callers => callers.length + 1
  | _ => 0

/-- Whether the machine has more to do. -/
def isRunning (m : Machine) : Bool :=
  match m.status with
  | .running .. => true
  | _ => false

/-- The error that stopped the machine. -/
def fault? (m : Machine) : Option RuntimeError :=
  match m.status with
  | .faulted error => some error
  | _ => none

/-- The status after the action of the instruction at `pc` in a call of `function`. -/
def follow (u : CodeUnit) (limits : Limits) (pc : Nat) (function : Option Nat)
    (callers : List Frame) :
    Action → Status
  | .proceed frame => .running frame callers
  | .assign frame _ _ => .running frame callers
  | .call caller callee args =>
    match u.openCall limits (callers.length + 1) callee args with
    | .ok frame => .running frame (caller :: callers)
    | .error fault => .faulted { fault, pc := some pc, trace := u.trace pc function callers }
  | .leave value =>
    match callers with
    | [] => .done
    | caller :: callers =>
      match caller.push limits.operands value with
      | .ok caller => .running caller callers
      | .error fault =>
        .faulted { fault, pc := some pc, trace := u.trace pc caller.function callers }

/-- The script globals after an action. -/
def assigned (globals : Array Value) : Action → Array Value
  | .assign _ id value => globals.setIfInBounds id value
  | _ => globals

/-- Executes one instruction. A machine that is done or faulted stays as it is. -/
def exec (m : Machine) (host : Host σ) : Machine × Host σ :=
  match m with
  | { unit, limits, globals, status := .running frame callers } =>
    let pc := frame.pc
    let function := frame.function
    match unit.code[pc]? with
    | none =>
      let error : RuntimeError :=
        { fault := .noInstruction pc, pc := some pc, trace := unit.trace pc function callers }
      ({ unit, limits, globals, status := .faulted error }, host)
    | some instruction =>
      match instruction.act unit limits.operands globals (frame.goto (pc + 1)) host with
      | (.error error, host) =>
        let error := error.locate pc (unit.trace pc function callers)
        ({ unit, limits, globals, status := .faulted error }, host)
      | (.ok action, host) =>
        let status := follow unit limits pc function callers action
        ({ unit, limits, globals := assigned globals action, status }, host)
  | m => (m, host)

/-- The value of a script global, or else of a global of the host. -/
def global? (m : Machine) (host : Host σ) (name : String) : Option Value × Host σ :=
  match (m.unit.globalByName? name).bind fun id => m.globals[id]? with
  | some value => (some value, host)
  | none => host.global? name

end Machine

end HostScript
