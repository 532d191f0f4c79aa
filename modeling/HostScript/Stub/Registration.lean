import HostScript.Stub.State

/-!
# Registrations of a stub host

What can be registered in a stub host, as data.
-/

namespace HostScript.Stub

/-- What writing to a computed global does. -/
inductive Setter where
  /-- The global is read-only. -/
  | refuse
  /-- The value replaces the content of the cell. -/
  | cell
  /-- The value is only logged. -/
  | log

/-- Something to register. -/
inductive Registration where
  | print
  | native (name : String) (arity : Option Nat) (behaviour : Behaviour)
  | script (name : String) (handle : ScriptHandle)
  | global (name : String) (value : Value)
  /-- A global over a cell. If `tick` is set, each read first adds one to a number in the cell. -/
  | computed (name : String) (value : Value) (tick : Bool) (setter : Setter)

/-- Reads the cell of a computed global. -/
def readCell (name : String) (tick : Bool) (state : State) : Value × State :=
  let value := state.cells[name]?.getD .void
  match tick, value with
  | true, .number n =>
    let value := .number (n + 1.0)
    (value, { state with cells := state.cells.insert name value })
  | _, _ => (value, state)

/-- What writing to a computed global does to the state. -/
def Setter.function? (name : String) : Setter → Option (Value → State → State)
  | .refuse => none
  | .cell => some fun value state => { state with cells := state.cells.insert name value }
  | .log => some fun value state => state.note (.set name value)

/-- Registers something in a stub host. -/
def register (host : Host State) : Registration → Except RegistrationError (Host State)
  | .print => host.addPrint State.println
  | .native name arity behaviour => host.addNative name (behaviour.callable (.native name) arity)
  | .script name handle => host.addNative name (.script handle)
  | .global name value => host.addGlobal name (.plain value)
  | .computed name value tick setter => do
    let host ← host.addGlobal name (.computed (readCell name tick) (setter.function? name))
    return { host with state := { host.state with cells := host.state.cells.insert name value } }

/-- A stub host without natives and globals. -/
def emptyHost (state : State) : Host State where
  state
  method? := method?

end HostScript.Stub
