import HostScript.Compile.Bound
import HostScript.Compile.Scope
import HostScript.Compile.Signature

/-!
# Binding names

Binding turns a program into a bound program or finds its first error. A variable is, in this order,
a visible local, a script global, or a global of the host. A name that an open scope declares
further on is refused instead of being left to the host, and so is, in top-level code, a script
global whose declaration is not complete.

Statements are visited in the order of the program: the top-level code first, then the functions. In
a statement its parts are visited in the order in which they run.
-/

namespace HostScript

/-- What a body can see at some point: its scopes, and the script globals with a
number below `reached`. -/
structure Visible where
  scopes : Scopes := {}
  reached : Nat := 0

namespace Visible

/-- Opens a scope. -/
def enter (v : Visible) : Visible :=
  { v with scopes := v.scopes.enter }

/-- Closes the innermost scope. -/
def leave (v : Visible) : Visible :=
  { v with scopes := v.scopes.leave }

/-- Notes that the innermost scope declares a name further on. -/
def announce (v : Visible) (name : String) : Visible :=
  { v with scopes := v.scopes.announce name }

/-- Notes every name that a list of statements declares directly. -/
def announceAll (v : Visible) (statements : List Stmt) : Visible :=
  statements.foldl
    (fun v stmt =>
      match stmt.declared? with
      | some name => v.announce name
      | none => v)
    v

/-- A fresh slot without a name. -/
def allocate (v : Visible) : Except CompileFault (Nat × Visible) :=
  v.scopes.allocate.map fun (slot, scopes) => (slot, { v with scopes })

/-- A fresh slot for a name of the innermost scope. -/
def declare (v : Visible) (name : String) (duplicate : CompileFault) :
    Except CompileFault (Nat × Visible) :=
  (v.scopes.declare name duplicate).map fun (slot, scopes) => (slot, { v with scopes })

/-- Where a variable lives. -/
def place (v : Visible) (s : Signatures) (name : String) : Except CompileFault Place :=
  match v.scopes.find? name with
  | some slot => .ok (.slot slot)
  | none =>
    match s.globals[name]? with
    | some id => if id < v.reached then .ok (.script id) else .error (.undefinedVariable name)
    | none =>
      if v.scopes.isPending name then .error (.undefinedVariable name) else .ok (.host name)

end Visible

/-- Refuses a list of items or arguments that is too long to be counted. -/
def checkCount (items : List Expr) : Except CompileFault Unit :=
  if countLimit < items.length then .error (.tooMany "arguments") else .ok ()

mutual

/-- Binds an expression. -/
def bindExpr (s : Signatures) (v : Visible) : Expr → Except CompileFault Bound.Expr
  | .var name => do
    let place ← v.place s name
    return .load place
  | .number value => .ok (.number value)
  | .string value => .ok (.string value)
  | .array items => do
    checkCount items
    let items ← bindExprs s v [] items
    return .array items
  | .index base position => do
    let base ← bindExpr s v base
    let position ← bindExpr s v position
    return .index base position
  | .call function args =>
    match s.functions[function]? with
    | some signature =>
      if signature.arity = args.length then do
        checkCount args
        let args ← bindExprs s v [] args
        return .callScript signature.id args
      else
        .error (.arityMismatch function signature.arity args.length)
    | none => do
      checkCount args
      let args ← bindExprs s v [] args
      return .callNative function args
  | .method object name args => do
    let object ← bindExpr s v object
    checkCount args
    let args ← bindExprs s v [] args
    return .callMethod object name args
  | .unary op operand => do
    let operand ← bindExpr s v operand
    return .unary op operand
  | .binary op lhs rhs => do
    let lhs ← bindExpr s v lhs
    let rhs ← bindExpr s v rhs
    match op.connective? with
    | some connective => return .connect connective lhs rhs
    | none => return .strict op lhs rhs
termination_by structural expr => expr

/-- Binds expressions from left to right, after those bound already, which stand in reverse
order. -/
def bindExprs (s : Signatures) (v : Visible) (bound : List Bound.Expr) :
    List Expr → Except CompileFault (List Bound.Expr)
  | [] => .ok bound.reverse
  | expr :: rest =>
    match bindExpr s v expr with
    | .error fault => .error fault
    | .ok expr => bindExprs s v (expr :: bound) rest
termination_by structural exprs => exprs

end

/-- Binds the left side of an assignment. -/
def bindTarget (s : Signatures) (v : Visible) : Expr → Except CompileFault Bound.Target
  | .var name => do
    let place ← v.place s name
    return .place place
  | .index base position => do
    let base ← bindTarget s v base
    let position ← bindExpr s v position
    return .element base position
  | other => .error (.invalidAssignmentTarget other.kind)

/-- Binds the initial value of a declaration, which is void if none is given. -/
def bindInitial (s : Signatures) (v : Visible) : Option Expr → Except CompileFault Bound.Expr
  | none => .ok .void
  | some value => bindExpr s v value

/-- The body that is being bound, as far as its statements depend on it. -/
structure Surroundings where
  signatures : Signatures
  /-- Whether the statements are top-level code, whose outermost declarations are script globals. -/
  topLevel : Bool

/-- The script global that a declaration at this point is for, if it is for one. -/
def Surroundings.global? (around : Surroundings) (v : Visible) (name : String) : Option Nat :=
  if around.topLevel && v.scopes.isOutermost then around.signatures.globals[name]? else none

/-- Binds a declaration. The initial value cannot see the name it is for. -/
def bindDeclaration (around : Surroundings) (v : Visible) (name : String) (initial : Option Expr) :
    Except CompileFault (Bound.Stmt × Visible) :=
  match around.global? v name with
  | some id => do
    let value ← bindInitial around.signatures v initial
    return (.store (.place (.script id)) value, { v with reached := id + 1 })
  | none => do
    let v := v.announce name
    let value ← bindInitial around.signatures v initial
    let (slot, v) ← v.declare name (.duplicateDeclaration name)
    return (.store (.place (.slot slot)) value, v)

mutual

/-- Binds a statement and gives what can be seen after it. -/
def bindStmt (around : Surroundings) (inLoop : Bool) (v : Visible) :
    Stmt → Except CompileFault (Bound.Stmt × Visible)
  | .assign target value =>
    if target.isAssignable then do
      let value ← bindExpr around.signatures v value
      let target ← bindTarget around.signatures v target
      return (.store target value, v)
    else
      .error (.invalidAssignmentTarget target.kind)
  | .returnVoid => .ok (.returnVoid, v)
  | .returnValue value => do
    let value ← bindExpr around.signatures v value
    return (.returnValue value, v)
  | .whileLoop condition body => do
    let condition ← bindExpr around.signatures v condition
    let (body, v) ← bindStmt around true v.enter body
    return (.whileLoop condition body, v.leave)
  | .forLoop name source body => do
    let source ← bindExpr around.signatures v source
    let (array, v) ← v.enter.allocate
    let (cursor, v) ← v.allocate
    let (item, v) ← v.declare name (.duplicateDeclaration name)
    let (body, v) ← bindStmt around true v.enter body
    return (.forLoop array cursor item source body, v.leave.leave)
  | .ifThen condition body => do
    let condition ← bindExpr around.signatures v condition
    let (body, v) ← bindStmt around inLoop v.enter body
    return (.ifThen condition body, v.leave)
  | .ifElse condition body otherwise => do
    let condition ← bindExpr around.signatures v condition
    let (body, v) ← bindStmt around inLoop v.enter body
    let (otherwise, v) ← bindStmt around inLoop v.leave.enter otherwise
    return (.ifElse condition body otherwise, v.leave)
  | .discard value => do
    let value ← bindExpr around.signatures v value
    return (.discard value, v)
  | .declare name initial => bindDeclaration around v name initial
  | .block statements => do
    let (statements, v) ← bindStmts around inLoop [] (v.enter.announceAll statements) statements
    return (.block statements, v.leave)
  | .breakLoop => if inLoop then .ok (.breakLoop, v) else .error .breakOutsideLoop
  | .continueLoop => if inLoop then .ok (.continueLoop, v) else .error .continueOutsideLoop
termination_by structural stmt => stmt

/-- Binds statements in order, after those bound already, which stand in reverse order. -/
def bindStmts (around : Surroundings) (inLoop : Bool) (bound : List Bound.Stmt) (v : Visible) :
    List Stmt → Except CompileFault (List Bound.Stmt × Visible)
  | [] => .ok (bound.reverse, v)
  | stmt :: rest =>
    match bindStmt around inLoop v stmt with
    | .error fault => .error fault
    | .ok (stmt, v) => bindStmts around inLoop (stmt :: bound) v rest
termination_by structural statements => statements

end

/-- Gives the parameters of a function the first slots. -/
def bindParams (v : Visible) : List String → Except CompileFault Visible
  | [] => .ok v
  | name :: rest =>
    match v.declare name (.duplicateParameter name) with
    | .error fault => .error fault
    | .ok (_, v) => bindParams v rest

/-- Binds a body with the given parameters. -/
def bindBody (around : Surroundings) (v : Visible) (name : String) (params : List String)
    (statements : List Stmt) : Except CompileFault Bound.Body := do
  let v ← bindParams v params
  let (statements, v) ← bindStmts around false [] v statements
  return { name, arity := params.length, locals := v.scopes.peak, statements }

/-- Binds the top-level code. No script global can be seen at its start. -/
def bindTopLevel (s : Signatures) (statements : List Stmt) : Except CompileError Bound.Body :=
  (bindBody { signatures := s, topLevel := true } {} topLevelName [] statements).mapError
    fun fault => { fault }

/-- Binds a function. It can see every script global. -/
def bindFunction (s : Signatures) (f : FunctionDecl) : Except CompileError Bound.Body :=
  (bindBody { signatures := s, topLevel := false } { reached := s.globalNames.size } f.name f.params
      [f.body]).mapError
    fun fault => { fault, function := f.name }

/-- Binds functions in order, after those bound already, which stand in reverse order. -/
def bindFunctions (s : Signatures) (bound : List Bound.Body) :
    List FunctionDecl → Except CompileError (List Bound.Body)
  | [] => .ok bound.reverse
  | f :: rest =>
    match bindFunction s f with
    | .error error => .error error
    | .ok body => bindFunctions s (body :: bound) rest

/-- Binds a program. -/
def Program.bind (program : Program) : Except CompileError Bound.Program := do
  let s ← Signatures.ofProgram program
  let top ← bindTopLevel s program.statements
  let functions ← bindFunctions s [] program.functions
  return { top, functions, globals := s.globalNames }

end HostScript
