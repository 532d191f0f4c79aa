import HostScript.Host.Basic
import HostScript.Machine.Frame
import HostScript.Value.Operation

/-!
# Instructions at work

What one instruction does to the running frame and to the host, and what it asks of the machine: to
go on, to change a script global, to open a call or to close the current one.
-/

namespace HostScript

/-- What an instruction asks of the machine. -/
inductive Action where
  /-- Go on with the frame as it is now. -/
  | proceed (frame : Frame)
  /-- Store a value into a script global and go on. -/
  | assign (frame : Frame) (id : Nat) (value : Value)
  /-- Open a call of a script function, whose result goes to the frame. -/
  | call (frame : Frame) (function : Nat) (args : Array Value)
  /-- Close the current call with a result. -/
  | leave (value : Value)

/-- The string of a given number. -/
def CodeUnit.string (u : CodeUnit) (id : Nat) : Except Fault String :=
  match u.strings[id]? with
  | some s => .ok s
  | none => .error (.noString id)

namespace Frame

/-- Pushes a value and goes on. -/
def deliver (f : Frame) (limit : Nat) (value : Value) : Except Fault Action :=
  (f.push limit value).map .proceed

/-- Pushes a value if there is one and goes on. -/
def deliverResult (f : Frame) (limit : Nat) (result : Except Fault Value) : Except Fault Action :=
  match result with
  | .ok value => f.deliver limit value
  | .error fault => .error fault

/-- Goes on with the answer of a callable. -/
def complete (f : Frame) (limit : Nat) : Outcome → Except Fault Action
  | .immediate value => f.deliver limit value
  | .invoke function args => .ok (.call f function args)

/-- Pops a condition and goes to `target` if its truth value is `when`. -/
def branch (f : Frame) (when : Bool) (target : Nat) : Except Fault Action := do
  let (condition, f) ← f.pop
  return .proceed (if condition.isTruthy == when then f.goto target else f)

/-- Takes the next item of the array that is looped over, or goes to the exit if there is none. -/
def advance (f : Frame) (limit array cursor exit : Nat) : Except Fault Action := do
  let position ← f.getLocal cursor
  let .number n := position | .error (position.mismatch "number")
  let source ← f.getLocal array
  let .array items := source | .error (source.mismatch "array")
  match items[Number.count n]? with
  | some item => do
    let f ← f.setLocal cursor (.number (n + 1.0))
    f.deliver limit item
  | none => return .proceed (f.goto exit)

end Frame

namespace Instruction

variable {σ : Type}

/-- An action that leaves the host alone. -/
def quietly (host : Host σ) (result : Except Fault Action) : Except RuntimeError Action × Host σ :=
  (result.mapError fun fault => { fault }, host)

/-- Reads a global of the host. -/
def actLoadHost (u : CodeUnit) (limit : Nat) (frame : Frame) (host : Host σ) (name : Nat) :
    Except RuntimeError Action × Host σ :=
  match u.string name with
  | .error fault => quietly host (.error fault)
  | .ok name =>
    match host.read name with
    | (result, host) => quietly host (frame.deliverResult limit result)

/-- Writes a global of the host. -/
def actStoreHost (u : CodeUnit) (frame : Frame) (host : Host σ) (name : Nat) :
    Except RuntimeError Action × Host σ :=
  match frame.pop with
  | .error fault => quietly host (.error fault)
  | .ok (value, frame) =>
    match u.string name with
    | .error fault => quietly host (.error fault)
    | .ok name =>
      match host.write name value with
      | .error fault => quietly host (.error fault)
      | .ok host => quietly host (.ok (.proceed frame))

/-- Calls a callable that has been found and goes on with its answer. -/
def actCall (limit : Nat) (frame : Frame) (host : Host σ) (callable : Callable σ) (name : String)
    (args : Array Value) : Except RuntimeError Action × Host σ :=
  match host.call callable name args with
  | (.error error, host) => (.error error, host)
  | (.ok outcome, host) => quietly host (frame.complete limit outcome)

/-- Calls a native. -/
def actCallNative (u : CodeUnit) (limit : Nat) (frame : Frame) (host : Host σ) (name argc : Nat) :
    Except RuntimeError Action × Host σ :=
  match frame.popMany argc with
  | .error fault => quietly host (.error fault)
  | .ok (args, frame) =>
    match u.string name with
    | .error fault => quietly host (.error fault)
    | .ok name =>
      match host.natives[name]? with
      | none => quietly host (.error (.undefinedSymbol name))
      | some callable => actCall limit frame host callable name args

/-- Calls a method of an object, which lies below the arguments. -/
def actCallMethod (u : CodeUnit) (limit : Nat) (frame : Frame) (host : Host σ) (name argc : Nat) :
    Except RuntimeError Action × Host σ :=
  match frame.popMany argc with
  | .error fault => quietly host (.error fault)
  | .ok (args, frame) =>
    match frame.pop with
    | .error fault => quietly host (.error fault)
    | .ok (.object id, frame) =>
      match u.string name with
      | .error fault => quietly host (.error fault)
      | .ok name =>
        match host.method? id name host.state with
        | none => quietly host (.error (.noSuchMethod name))
        | some callable => actCall limit frame host callable name args
    | .ok (other, _) => quietly host (.error (other.mismatch "object"))

/-- The action of an instruction in a frame that has moved on to the next offset already. -/
def act (u : CodeUnit) (limit : Nat) (globals : Array Value) (frame : Frame) (host : Host σ) :
    Instruction → Except RuntimeError Action × Host σ
  | .pushNumber n => quietly host (frame.deliver limit (.number n))
  | .pushString id => quietly host (frame.deliverResult limit ((u.string id).map .string))
  | .pushBool b => quietly host (frame.deliver limit (.boolean b))
  | .pushVoid => quietly host (frame.deliver limit .void)
  | .pop => quietly host (frame.pop.map fun (_, frame) => .proceed frame)
  | .loadLocal slot => quietly host (frame.deliverResult limit (frame.getLocal slot))
  | .storeLocal slot => quietly host do
    let (value, frame) ← frame.pop
    let frame ← frame.setLocal slot value
    return .proceed frame
  | .loadGlobal id => quietly host do
    match globals[id]? with
    | some value => frame.deliver limit value
    | none => .error (.noGlobal id)
  | .storeGlobal id => quietly host do
    let (value, frame) ← frame.pop
    if id < globals.size then return .assign frame id value else .error (.noGlobal id)
  | .loadHost name => actLoadHost u limit frame host name
  | .storeHost name => actStoreHost u frame host name
  | .makeArray count => quietly host do
    let (items, frame) ← frame.popMany count
    frame.deliver limit (.array items)
  | .loadIndex => quietly host do
    let (index, frame) ← frame.pop
    let (array, frame) ← frame.pop
    frame.deliverResult limit (array.element index)
  | .storeIndex => quietly host do
    let (index, frame) ← frame.pop
    let (array, frame) ← frame.pop
    let (value, frame) ← frame.pop
    frame.deliverResult limit (array.withElement index value)
  | .unary op => quietly host do
    let (operand, frame) ← frame.pop
    frame.deliverResult limit (op.apply operand)
  | .binary op => quietly host do
    let (rhs, frame) ← frame.pop
    let (lhs, frame) ← frame.pop
    frame.deliverResult limit (op.apply lhs rhs)
  | .jump target => quietly host (.ok (.proceed (frame.goto target)))
  | .jumpIfFalse target => quietly host (frame.branch false target)
  | .jumpIfTrue target => quietly host (frame.branch true target)
  | .iterNext array cursor exit => quietly host (frame.advance limit array cursor exit)
  | .callScript function argc => quietly host do
    let (args, frame) ← frame.popMany argc
    return .call frame function args
  | .callNative name argc => actCallNative u limit frame host name argc
  | .callMethod name argc => actCallMethod u limit frame host name argc
  | .returnValue => quietly host (frame.pop.map fun (value, _) => .leave value)
  | .returnVoid => quietly host (.ok (.leave .void))

end Instruction

end HostScript
