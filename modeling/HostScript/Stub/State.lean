import HostScript.Host.Print

/-!
# The state of a stub host

A stub host is described by data instead of code, so that a script can be tried out and what it
did can be read back. Its state holds the objects, the cells of computed globals, what was
printed, and a log.
-/

namespace HostScript.Stub

/-- What a native or a method of a stub host does. -/
inductive Behaviour where
  /-- Returns void. -/
  | void
  /-- Logs the call and returns void. -/
  | record
  /-- Logs the call and returns the first argument. -/
  | tap
  /-- Returns the first argument. -/
  | echo
  /-- Returns the arguments as an array. -/
  | args
  /-- Returns the number of arguments. -/
  | argc
  /-- Returns a new counter. -/
  | newCounter
  /-- Returns a new stack. -/
  | newStack
  /-- Returns a fixed value. -/
  | constant (value : Value)
  /-- Returns the next of some values at each call, and void when they are used up. -/
  | sequence (values : Array Value)
  /-- Fails. -/
  | raise (error : RuntimeError)
  /-- Calls back a script function with the arguments. -/
  | callBack (handle : ScriptHandle)
  /-- Asks for a script function by number, with fixed arguments or else with those received. -/
  | invoke (function : Nat) (args : Option (Array Value))

/-- What an object of a stub host is. -/
inductive ObjectKind where
  | bare
  | counter (count : Float)
  | stack (items : Array Value)
  | table (methods : List (String × Option Nat × Behaviour))

/-- An object with the label it is shown by. -/
structure Object where
  label : String
  kind : ObjectKind

/-- An entry of the log. -/
inductive Event where
  | call (name : String) (args : Array Value)
  | set (name : String) (value : Value)

/-- Who a behaviour acts for. -/
inductive Owner where
  | native (name : String)
  | method (object : ObjectId) (name : String)
  deriving DecidableEq

/-- The state of a stub host. -/
structure State where
  sink : PrintSink := .buffer ""
  log : Array Event := #[]
  /-- The objects, by the index of their identity. -/
  objects : Array Object := #[]
  /-- How many objects have been created by behaviours. -/
  created : Nat := 0
  /-- The cells of computed globals. -/
  cells : Std.TreeMap String Value := {}
  /-- How many values of its sequence each owner has used. -/
  used : List (Owner × Nat) := []

namespace State

/-- Adds an object. -/
def add (state : State) (object : Object) : ObjectId × State :=
  (⟨state.objects.size⟩, { state with objects := state.objects.push object })

/-- Creates an object, labelled by the order of creation. -/
def create (state : State) (kind : ObjectKind) : ObjectId × State :=
  { state with created := state.created + 1 }.add { label := s!"#{state.created}", kind }

/-- The label of an object. -/
def label (state : State) (id : ObjectId) : String :=
  (state.objects[id.index]?.map Object.label).getD ""

/-- Replaces what an object is. -/
def update (state : State) (id : ObjectId) (kind : ObjectKind) : State :=
  { state with objects := state.objects.modify id.index fun object => { object with kind } }

/-- Appends to the log. -/
def note (state : State) (event : Event) : State :=
  { state with log := state.log.push event }

/-- Prints a line. -/
def println (line : String) (state : State) : State :=
  { state with sink := state.sink.println line }

/-- The name under which calls of an owner are logged. -/
def ownerName (state : State) : Owner → String
  | .native name => name
  | .method object name => state.label object ++ "." ++ name

/-- How many values of its sequence an owner has used. -/
def usedBy (state : State) (owner : Owner) : Nat :=
  (state.used.lookup owner).getD 0

end State

/-- What a call of a behaviour answers. -/
def Behaviour.run (behaviour : Behaviour) (owner : Owner) (args : Array Value) (state : State) :
    Except RuntimeError Outcome × State :=
  let first := args[0]?.getD .void
  let logged := state.note (.call (state.ownerName owner) args)
  match behaviour with
  | .void => (.ok (.immediate .void), state)
  | .record => (.ok (.immediate .void), logged)
  | .tap => (.ok (.immediate first), logged)
  | .echo => (.ok (.immediate first), state)
  | .args => (.ok (.immediate (.array args)), state)
  | .argc => (.ok (.immediate (.number (Float.ofNat args.size))), state)
  | .newCounter =>
    match state.create (.counter 0.0) with
    | (id, state) => (.ok (.immediate (.object id)), state)
  | .newStack =>
    match state.create (.stack #[]) with
    | (id, state) => (.ok (.immediate (.object id)), state)
  | .constant value => (.ok (.immediate value), state)
  | .sequence values =>
    let position := state.usedBy owner
    (.ok (.immediate (values[position]?.getD .void)),
      { state with used := (owner, position + 1) :: state.used })
  | .raise error => (.error error, state)
  | .callBack handle => ((handle.call args).mapError fun fault => { fault }, state)
  | .invoke function fixed => (.ok (.invoke function (fixed.getD args)), state)

/-- The callable that runs a behaviour. -/
def Behaviour.callable (behaviour : Behaviour) (owner : Owner) (arity : Option Nat) :
    Callable State :=
  .native arity (behaviour.run owner)

/-- A method without arguments that changes a counter and returns the new count. -/
def counting (id : ObjectId) (change : Float → Float) : Callable State :=
  .native (some 0) fun _ state =>
    match state.objects[id.index]?.map Object.kind with
    | some (.counter count) =>
      (.ok (.immediate (.number (change count))), state.update id (.counter (change count)))
    | _ => (.ok (.immediate .void), state)

/-- A method of a stack. -/
def stacking (id : ObjectId) (arity : Nat)
    (body : Array Value → Array Value → Except RuntimeError Value × Array Value) : Callable State :=
  .native (some arity) fun args state =>
    match state.objects[id.index]?.map Object.kind with
    | some (.stack items) =>
      match body args items with
      | (result, items) => (result.map .immediate, state.update id (.stack items))
    | _ => (.ok (.immediate .void), state)

/-- The methods of the objects of a stub host. -/
def method? (id : ObjectId) (name : String) (state : State) : Option (Callable State) :=
  match state.objects[id.index]?.map Object.kind with
  | some (.counter _) =>
    match name with
    | "GetValue" => some (counting id fun n => n)
    | "Increment" => some (counting id (· + 1.0))
    | "Decrement" => some (counting id (· - 1.0))
    | _ => none
  | some (.stack _) =>
    match name with
    | "GetSize" =>
      some (stacking id 0 fun _ items => (.ok (.number (Float.ofNat items.size)), items))
    | "Push" => some (stacking id 1 fun args items => (.ok .void, items ++ args))
    | "Pop" =>
      some (stacking id 0 fun _ items =>
        match items.back? with
        | some value => (.ok value, items.pop)
        | none => (.error { fault := .host "pop from an empty stack" }, items))
    | _ => none
  | some (.table methods) =>
    (methods.lookup name).map fun (arity, behaviour) => behaviour.callable (.method id name) arity
  | _ => none

end HostScript.Stub
