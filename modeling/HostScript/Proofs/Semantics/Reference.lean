import HostScript.Program
import HostScript.Proofs.Number.Counting
import HostScript.Proofs.Semantics.Evaluation

/-!
# The meaning of programs

Programs are evaluated as they are written, with variables by name. Each open scope has its own
variables. A name stands for the variable of the innermost scope that has declared it so far, else
for a script global, else for a global of the host. Operands, items and arguments are evaluated from
left to right, an assigned value before its target.
-/

namespace HostScript

/-- The variables of the open scopes, innermost first. -/
abbrev Env :=
  List (Std.TreeMap String Value)

/-- The script globals by name. -/
abbrev GlobalVars :=
  Std.TreeMap String Value

namespace Env

/-- The value of a variable in the innermost scope that has it. -/
def lookup (env : Env) (name : String) : Option Value :=
  env.findSome? fun scope => scope[name]?

/-- Gives a variable that some scope has a new value in the innermost one of them. -/
def assign (name : String) (value : Value) : Env → Env
  | [] => []
  | scope :: rest =>
    if scope.contains name then scope.insert name value :: rest else scope :: assign name value rest

/-- Opens a scope. -/
def enter (env : Env) : Env :=
  {} :: env

/-- Closes the innermost scope. -/
def leave (env : Env) : Env :=
  env.tail

/-- Declares a variable in the innermost scope. -/
def declare (name : String) (value : Value) : Env → Env
  | [] => []
  | scope :: rest => scope.insert name value :: rest

end Env

variable {σ : Type}

/-- Reads a variable. -/
def readVar (env : Env) (name : String) : Eval GlobalVars σ Value :=
  match env.lookup name with
  | some value => pure value
  | none => fun w =>
    match w.globals[name]? with
    | some value => .ok value w
    | none => Eval.readHost name w

/-- Gives a variable a new value. -/
def writeVar (env : Env) (name : String) (value : Value) : Eval GlobalVars σ Env :=
  match env.lookup name with
  | some _ => pure (env.assign name value)
  | none => fun w =>
    match w.globals[name]? with
    | some _ => .ok env { w with globals := w.globals.insert name value }
    | none => (Eval.writeHost name value >>= fun _ => pure env) w

section Trees

variable (functions : List FunctionDecl) (call : Calls GlobalVars σ)

mutual

/-- Evaluates an expression. -/
def Expr.eval (env : Env) : Expr → Eval GlobalVars σ Value
  | .var name => readVar env name
  | .number value => return .number value
  | .string value => return .string value
  | .array items => do
    let items ← Expr.evalAll env items
    return .array items.toArray
  | .index base position => do
    let array ← base.eval env
    let index ← position.eval env
    Eval.lift (array.element index)
  | .call function args => do
    let args ← Expr.evalAll env args
    match functions.findIdx? (·.name == function) with
    | some id => call id args.toArray
    | none => Eval.callNative call function args.toArray
  | .method object name args => do
    let object ← object.eval env
    let args ← Expr.evalAll env args
    Eval.callMethod call object name args.toArray
  | .unary op operand => do
    let value ← operand.eval env
    Eval.lift (op.apply value)
  | .binary op lhs rhs => do
    let left ← lhs.eval env
    match op with
    | .and =>
      if left.isTruthy then
        let right ← rhs.eval env
        return .boolean right.isTruthy
      else
        return .boolean false
    | .or =>
      if left.isTruthy then
        return .boolean true
      else
        let right ← rhs.eval env
        return .boolean right.isTruthy
    | op =>
      let right ← rhs.eval env
      Eval.lift (op.apply left right)
termination_by structural expr => expr

/-- Evaluates expressions from left to right. -/
def Expr.evalAll (env : Env) : List Expr → Eval GlobalVars σ (List Value)
  | [] => return []
  | expr :: rest => do
    let value ← expr.eval env
    let values ← Expr.evalAll env rest
    return value :: values
termination_by structural exprs => exprs

end

/-- Stores a value into a target. An element is stored by storing the changed array. Nothing but
variables and elements can be stored into. -/
def Expr.store (env : Env) (value : Value) : Expr → Eval GlobalVars σ Env
  | .var name => writeVar env name value
  | .index base position => do
    let array ← base.eval functions call env
    let index ← position.eval functions call env
    let array ← Eval.lift (array.withElement index value)
    base.store env array
  | _ => return env
termination_by structural target => target

/-- The initial value of a declaration, which is void if none is given. -/
def evalInitial (env : Env) : Option Expr → Eval GlobalVars σ Value
  | none => return .void
  | some value => value.eval functions call env

/-- The item of a numbered turn of a loop over a value, which has to be an array. Turns are counted
with numbers, and so no further than these can count. -/
def itemOf (turn : Nat) : Value → Except Fault (Option Value)
  | .array items => .ok items[min turn Number.countingLimit]?
  | other => .error (other.mismatch "array")

mutual

/-- Evaluates a statement, with at most `fuel` turns for each loop. -/
def Stmt.exec (fuel : Nat) (env : Env) : Stmt → Eval GlobalVars σ (Signal × Env)
  | .assign target value => do
    let value ← value.eval functions call env
    let env ← target.store functions call env value
    return (.next, env)
  | .returnVoid => return (.returned .void, env)
  | .returnValue value => do
    let value ← value.eval functions call env
    return (.returned value, env)
  | .whileLoop condition body =>
    Eval.loop
      (fun _ env => do
        let value ← condition.eval functions call env
        if value.isTruthy then
          let (signal, env) ← body.exec fuel env.enter
          return signal.turn env.leave
        else
          return .finish .next env)
      fuel 0 env
  | .forLoop name source body => do
    let value ← source.eval functions call env
    Eval.loop
      (fun turn env => do
        match ← Eval.lift (itemOf turn value) with
        | some item =>
          let (signal, env) ← body.exec fuel (env.enter.declare name item).enter
          return signal.turn env.leave.leave
        | none => return .finish .next env)
      fuel 0 env
  | .ifThen condition body => do
    let value ← condition.eval functions call env
    if value.isTruthy then
      let (signal, env) ← body.exec fuel env.enter
      return (signal, env.leave)
    else
      return (.next, env)
  | .ifElse condition body otherwise => do
    let value ← condition.eval functions call env
    if value.isTruthy then
      let (signal, env) ← body.exec fuel env.enter
      return (signal, env.leave)
    else
      let (signal, env) ← otherwise.exec fuel env.enter
      return (signal, env.leave)
  | .discard value => do
    let _ ← value.eval functions call env
    return (.next, env)
  | .declare name initial => do
    let value ← evalInitial functions call env initial
    return (.next, env.declare name value)
  | .block statements => do
    let (signal, env) ← Stmt.execAll fuel env.enter statements
    return (signal, env.leave)
  | .breakLoop => return (.breakLoop, env)
  | .continueLoop => return (.continueLoop, env)
termination_by structural stmt => stmt

/-- Evaluates statements in order, until one of them does not go on to the next. -/
def Stmt.execAll (fuel : Nat) (env : Env) : List Stmt → Eval GlobalVars σ (Signal × Env)
  | [] => return (.next, env)
  | stmt :: rest => do
    let (signal, env) ← stmt.exec fuel env
    match signal with
    | .next => Stmt.execAll fuel env rest
    | signal => return (signal, env)
termination_by structural statements => statements

end

/-- Evaluates a top-level statement. A declaration is one of a script global. -/
def Stmt.execTop (fuel : Nat) : Stmt → Eval GlobalVars σ Signal
  | .declare name initial => do
    let value ← evalInitial functions call [{}] initial
    modify fun w => { w with globals := w.globals.insert name value }
    return .next
  | stmt => do
    let (signal, _) ← stmt.exec functions call fuel [{}]
    return signal

/-- Evaluates top-level statements in order, until one of them does not go on to the next. -/
def Stmt.execTopAll (fuel : Nat) : List Stmt → Eval GlobalVars σ Signal
  | [] => return .next
  | stmt :: rest => do
    match ← stmt.execTop functions call fuel with
    | .next => Stmt.execTopAll fuel rest
    | signal => return signal

end Trees

/-- The variables of a function when it is called: its parameters. -/
def paramVars (scope : Std.TreeMap String Value) :
    List String → List Value → Std.TreeMap String Value
  | name :: params, value :: args => paramVars (scope.insert name value) params args
  | _, _ => scope

namespace Program

/-- Calls a function of a program, with calls nested less than `fuel` deep and at most as many
turns for each loop. -/
def callFunction (p : Program) (fuel : Nat) : Calls GlobalVars σ := fun id args =>
  match p.functions[id]? with
  | none => Eval.fail (.noFunction id)
  | some f =>
    if args.size ≠ f.params.length then Eval.fail (.arityMismatch f.name f.params.length args.size)
    else
      match fuel with
      | 0 => throw .exhausted
      | fuel + 1 => do
        let (signal, _) ←
          f.body.exec p.functions (p.callFunction fuel) fuel [paramVars {} f.params args.toList]
        return signal.result

/-- The script globals before anything is evaluated: void each. -/
def initialGlobals (p : Program) : GlobalVars :=
  (p.statements.filterMap Stmt.declared?).foldl (fun globals name => globals.insert name .void) {}

/-- Evaluates a program against a host. -/
def interpret (p : Program) (host : Host σ) (fuel : Nat) :
    EStateM.Result Halt (World GlobalVars σ) Signal :=
  Stmt.execTopAll p.functions (p.callFunction fuel) fuel p.statements
    { globals := p.initialGlobals, host }

end Program

end HostScript
