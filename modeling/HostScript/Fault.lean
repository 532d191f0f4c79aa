import HostScript.Number.Decimal
import HostScript.Text.Quoted

/-!
# Faults

Why a running script stops with an error, where it stopped, and which calls were open at
that moment.
-/

namespace HostScript

/-- The cause of a runtime error. -/
inductive Fault where
  | typeMismatch (expected got : String)
  | divisionByZero
  | indexOutOfRange (index : Float) (length : Nat)
  | undefinedSymbol (name : String)
  | readOnlyGlobal (name : String)
  | noSuchMethod (method : String)
  | arityMismatch (name : String) (expected got : Nat)
  | stackUnderflow
  | stackOverflow (what : String) (limit : Nat)
  | invalidBytecode (detail : String)
  | host (message : String)
  deriving DecidableEq

namespace Fault

/-- The program counter left the code. -/
def noInstruction (pc : Nat) : Fault :=
  .invalidBytecode ("no instruction at " ++ Text.fourDigits pc)

/-- A string operand does not name an entry of the string pool. -/
def noString (id : Nat) : Fault :=
  .invalidBytecode s!"string {id} out of range"

/-- A global operand does not name a script global. -/
def noGlobal (id : Nat) : Fault :=
  .invalidBytecode s!"global {id} out of range"

/-- A local operand lies outside the frame. -/
def noLocal (slot : Nat) : Fault :=
  .invalidBytecode s!"local slot {slot} out of range"

/-- A call operand does not name a script function. -/
def noFunction (id : Nat) : Fault :=
  .invalidBytecode s!"no function with id {id}"

/-- A frame would hold more operands than allowed. -/
def operandOverflow (limit : Nat) : Fault :=
  .stackOverflow "operand stack" limit

/-- More calls would be open than allowed. -/
def callOverflow (limit : Nat) : Fault :=
  .stackOverflow "call stack" limit

/-- The wording of a fault. -/
def message : Fault → String
  | .typeMismatch expected got => s!"type mismatch: expected {expected}, got {got}"
  | .divisionByZero => "division by zero"
  | .indexOutOfRange index length =>
    "index " ++ Number.text index ++ s!" out of range for array of length {length}"
  | .undefinedSymbol name => s!"undefined symbol `{name}`"
  | .readOnlyGlobal name => s!"global `{name}` is read-only"
  | .noSuchMethod method => s!"object has no method `{method}`"
  | .arityMismatch name expected got => s!"`{name}` expects {expected} argument(s), got {got}"
  | .stackUnderflow => "operand stack underflow"
  | .stackOverflow what limit => s!"{what} overflow (limit {limit})"
  | .invalidBytecode detail => s!"invalid bytecode: {detail}"
  | .host message => message

end Fault

/-- An open call at the moment of a fault: the function and the offset it had reached. -/
structure TraceEntry where
  function : String
  pc : Nat
  deriving DecidableEq

/-- The lines that list the open calls, innermost first. No calls give no text at all. -/
def traceText (trace : List TraceEntry) : String :=
  if trace.isEmpty then ""
  else
    trace.zipIdx.foldl
      (fun out (entry, depth) =>
        out ++ s!"  {depth}: {entry.function} at " ++ Text.fourDigits entry.pc ++ "\n")
      "stack backtrace:\n"

/-- A fault with the offset of the instruction that raised it and the calls that were open, once
known. -/
structure RuntimeError where
  fault : Fault
  pc : Option Nat := none
  trace : List TraceEntry := []
  deriving DecidableEq

/-- The error with a location. A location that is already there stays. -/
def RuntimeError.locate (error : RuntimeError) (pc : Nat) (trace : List TraceEntry) :
    RuntimeError :=
  match error.pc with
  | some _ => error
  | none => { error with pc := some pc, trace := trace }

/-- The wording of an error. -/
def RuntimeError.message (error : RuntimeError) : String :=
  let text := "runtime error: " ++ error.fault.message
  match error.pc with
  | some pc => text ++ " at " ++ Text.fourDigits pc
  | none => text

/-- Locating an error does not change its cause. -/
@[simp]
theorem RuntimeError.fault_locate (error : RuntimeError) (pc : Nat) (trace : List TraceEntry) :
    (error.locate pc trace).fault = error.fault := by
  unfold RuntimeError.locate
  split <;> rfl

end HostScript
