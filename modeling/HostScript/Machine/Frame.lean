import HostScript.Fault
import HostScript.Value.Basic

/-!
# Frames

The state of one open call: where it is in the code, its operands and its locals. The last
operand is the topmost.
-/

namespace HostScript

/-- How deep calls may nest and how many operands one call may hold. -/
structure Limits where
  callDepth : Nat := 256
  operands : Nat := 1024
  deriving DecidableEq, Repr

/-- An open call. -/
structure Frame where
  /-- The number of the script function, or none for the top-level code. -/
  function : Option Nat
  /-- The offset of the next instruction. -/
  pc : Nat
  locals : Array Value
  stack : Array Value := #[]

namespace Frame

/-- Pushes an operand, unless the frame holds `limit` of them already. -/
def push (f : Frame) (limit : Nat) (value : Value) : Except Fault Frame :=
  if f.stack.size < limit then .ok { f with stack := f.stack.push value }
  else .error (.operandOverflow limit)

/-- Pops the topmost operand. -/
def pop (f : Frame) : Except Fault (Value × Frame) :=
  match f.stack.back? with
  | some value => .ok (value, { f with stack := f.stack.pop })
  | none => .error .stackUnderflow

/-- Pops the topmost `n` operands, which keep their order. -/
def popMany (f : Frame) (n : Nat) : Except Fault (Array Value × Frame) :=
  if n ≤ f.stack.size then
    let rest := f.stack.size - n
    .ok (f.stack.extract rest, { f with stack := f.stack.shrink rest })
  else .error .stackUnderflow

/-- The value of a local. -/
def getLocal (f : Frame) (slot : Nat) : Except Fault Value :=
  match f.locals[slot]? with
  | some value => .ok value
  | none => .error (.noLocal slot)

/-- Overwrites a local. -/
def setLocal (f : Frame) (slot : Nat) (value : Value) : Except Fault Frame :=
  if slot < f.locals.size then .ok { f with locals := f.locals.setIfInBounds slot value }
  else .error (.noLocal slot)

/-- Continues at another offset. -/
def goto (f : Frame) (target : Nat) : Frame :=
  { f with pc := target }

end Frame

end HostScript
