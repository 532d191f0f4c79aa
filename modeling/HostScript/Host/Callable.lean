import HostScript.Bytecode.Basic
import HostScript.Fault
import HostScript.Value.Basic

/-!
# Callables

What a script can call besides its own functions. A callable of the host either answers with a value
at once or asks for a script function to be run, whose result is then the answer. It never runs the
script itself. Its effects are changes to the state of the host, of type `σ`.
-/

namespace HostScript

/-- The answer of a callable. -/
inductive Outcome where
  | immediate (value : Value)
  | invoke (function : Nat) (args : Array Value)

/-- A reference to a script function that the host can hold and call back. -/
structure ScriptHandle where
  id : Nat
  name : String
  arity : Nat
  deriving DecidableEq, Repr

/-- The handle of the script function of a given name. -/
def CodeUnit.handle? (u : CodeUnit) (name : String) : Option ScriptHandle :=
  (u.functionByName? name).map fun (id, entry) => ⟨id, entry.name, entry.arity⟩

/-- Calls back a script function, which must get as many arguments as it has parameters. -/
def ScriptHandle.call (handle : ScriptHandle) (args : Array Value) : Except Fault Outcome :=
  if args.size = handle.arity then .ok (.invoke handle.id args)
  else .error (.arityMismatch handle.name handle.arity args.size)

/-- A native of the host, with or without a fixed number of arguments, or a script function. -/
inductive Callable (σ : Type) where
  | native (arity : Option Nat) (body : Array Value → σ → Except RuntimeError Outcome × σ)
  | script (handle : ScriptHandle)

namespace Callable

variable {σ : Type}

/-- The number of arguments, if it is fixed. -/
def arity : Callable σ → Option Nat
  | .native arity _ => arity
  | .script handle => some handle.arity

/-- Calls without comparing the number of arguments with a native's declared one. -/
def call (callable : Callable σ) (args : Array Value) (state : σ) :
    Except RuntimeError Outcome × σ :=
  match callable with
  | .native _ body => body args state
  | .script handle => ((handle.call args).mapError fun fault => { fault }, state)

/-- Calls under a name, refusing a wrong number of arguments. -/
def callAs (callable : Callable σ) (name : String) (args : Array Value) (state : σ) :
    Except RuntimeError Outcome × σ :=
  match callable.arity with
  | some expected =>
    if args.size = expected then callable.call args state
    else (.error { fault := .arityMismatch name expected args.size }, state)
  | none => callable.call args state

end Callable

end HostScript
