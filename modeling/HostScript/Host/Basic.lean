import Std.Data.TreeMap
import HostScript.Host.Callable

/-!
# Hosts

A host is all that a script can reach outside itself: natives and globals by name, the methods of
objects, and the state that they work on. Natives and globals have separate names, and what is
registered under a name stays there.
-/

namespace HostScript

/-- A global of the host: a stored value, or one that is computed when it is read. -/
inductive Global (σ : Type) where
  | plain (value : Value)
  | computed (get : σ → Value × σ) (set : Option (Value → σ → σ))

/-- The host of a script, with a state of type `σ`. -/
structure Host (σ : Type) where
  state : σ
  natives : Std.TreeMap String (Callable σ) := {}
  globals : Std.TreeMap String (Global σ) := {}
  /-- The methods of objects, which may depend on the state. -/
  method? : ObjectId → String → σ → Option (Callable σ) := fun _ _ _ => none

/-- Why a name could not be registered. -/
inductive RegistrationError where
  | duplicateNative (name : String)
  | duplicateGlobal (name : String)
  deriving DecidableEq, Repr

/-- The wording of a refused registration. -/
def RegistrationError.message : RegistrationError → String
  | .duplicateNative name => s!"native function `{name}` is already registered"
  | .duplicateGlobal name => s!"global `{name}` is already registered"

namespace Host

variable {σ : Type}

/-- Registers a native. -/
def addNative (host : Host σ) (name : String) (callable : Callable σ) :
    Except RegistrationError (Host σ) :=
  if host.natives.contains name then .error (.duplicateNative name)
  else .ok { host with natives := host.natives.insert name callable }

/-- Registers a global. -/
def addGlobal (host : Host σ) (name : String) (global : Global σ) :
    Except RegistrationError (Host σ) :=
  if host.globals.contains name then .error (.duplicateGlobal name)
  else .ok { host with globals := host.globals.insert name global }

/-- The value of a global, if it is registered. Reading a computed one may change the state. -/
def global? (host : Host σ) (name : String) : Option Value × Host σ :=
  match host.globals[name]? with
  | none => (none, host)
  | some (.plain value) => (some value, host)
  | some (.computed get _) =>
    match get host.state with
    | (value, state) => (some value, { host with state })

/-- The fault of a name under which no global is registered. -/
def missing (host : Host σ) (name : String) : Fault :=
  if host.natives.contains name then .typeMismatch "value" s!"native function `{name}`"
  else .undefinedSymbol name

/-- Reads a global. -/
def read (host : Host σ) (name : String) : Except Fault Value × Host σ :=
  match host.global? name with
  | (some value, host) => (.ok value, host)
  | (none, host) => (.error (host.missing name), host)

/-- Writes a global. -/
def write (host : Host σ) (name : String) (value : Value) : Except Fault (Host σ) :=
  match host.globals[name]? with
  | none => .error (host.missing name)
  | some (.plain _) => .ok { host with globals := host.globals.insert name (.plain value) }
  | some (.computed _ (some set)) => .ok { host with state := set value host.state }
  | some (.computed _ none) => .error (.readOnlyGlobal name)

/-- Calls a callable of this host under a name. -/
def call (host : Host σ) (callable : Callable σ) (name : String) (args : Array Value) :
    Except RuntimeError Outcome × Host σ :=
  match callable.callAs name args host.state with
  | (result, state) => (result, { host with state })

/-- A list of names, quoted. -/
def quotedNames (names : List String) : String :=
  "[" ++ Text.joined ", " (names.map Text.quoted) ++ "]"

/-- The registered names on one line, in increasing order. -/
def summary (host : Host σ) : String :=
  "Environment \x7b natives: " ++ quotedNames host.natives.keys ++ ", globals: " ++
    quotedNames host.globals.keys ++ " \x7d"

end Host

end HostScript
