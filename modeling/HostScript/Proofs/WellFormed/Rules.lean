import HostScript.Compile.Error
import HostScript.Proofs.Binding.Signatures

/-!
# Well-formed programs

The rules that a program has to follow, each said on its own: names of functions, parameters, script
globals and locals are declared once in their scope, `break` and `continue` stand in loops,
assignments go to what can be assigned to, calls of functions and lists fit, frames are not too
large, and a variable is used only where its name means something.

A name means something where an open scope has declared it, or where it is a script global, which in
top-level code must be complete. Any other name is left to the host, unless it is a script global or
an open scope declares it further on.
-/

namespace HostScript

section Parts

mutual

/-- An expression and all its parts. -/
def Expr.parts : Expr → List Expr
  | .var name => [.var name]
  | .number value => [.number value]
  | .string value => [.string value]
  | .array items => .array items :: Expr.partsOf items
  | .index base position => .index base position :: (base.parts ++ position.parts)
  | .call function args => .call function args :: Expr.partsOf args
  | .method object name args => .method object name args :: (object.parts ++ Expr.partsOf args)
  | .unary op operand => .unary op operand :: operand.parts
  | .binary op lhs rhs => .binary op lhs rhs :: (lhs.parts ++ rhs.parts)
termination_by structural expr => expr

/-- Expressions and all their parts. -/
def Expr.partsOf : List Expr → List Expr
  | [] => []
  | expr :: rest => expr.parts ++ Expr.partsOf rest
termination_by structural exprs => exprs

end

/-- The initial value of a declaration and all its parts. -/
def initialParts : Option Expr → List Expr
  | none => []
  | some value => value.parts

mutual

/-- The expressions in a statement, with all their parts. -/
def Stmt.exprs : Stmt → List Expr
  | .assign target value => value.parts ++ target.parts
  | .returnVoid | .breakLoop | .continueLoop => []
  | .returnValue value | .discard value => value.parts
  | .whileLoop condition body | .ifThen condition body => condition.parts ++ body.exprs
  | .forLoop _ source body => source.parts ++ body.exprs
  | .ifElse condition body otherwise => condition.parts ++ body.exprs ++ otherwise.exprs
  | .declare _ initial => initialParts initial
  | .block statements => Stmt.exprsOf statements
termination_by structural stmt => stmt

/-- The expressions in some statements, with all their parts. -/
def Stmt.exprsOf : List Stmt → List Expr
  | [] => []
  | stmt :: rest => stmt.exprs ++ Stmt.exprsOf rest
termination_by structural statements => statements

end

mutual

/-- A statement and all statements in it. -/
def Stmt.parts : Stmt → List Stmt
  | .whileLoop condition body => .whileLoop condition body :: body.parts
  | .forLoop name source body => .forLoop name source body :: body.parts
  | .ifThen condition body => .ifThen condition body :: body.parts
  | .ifElse condition body otherwise =>
    .ifElse condition body otherwise :: (body.parts ++ otherwise.parts)
  | .block statements => .block statements :: Stmt.partsOf statements
  | .assign target value => [.assign target value]
  | .returnVoid => [.returnVoid]
  | .returnValue value => [.returnValue value]
  | .discard value => [.discard value]
  | .declare name initial => [.declare name initial]
  | .breakLoop => [.breakLoop]
  | .continueLoop => [.continueLoop]
termination_by structural stmt => stmt

/-- Statements and all statements in them. -/
def Stmt.partsOf : List Stmt → List Stmt
  | [] => []
  | stmt :: rest => stmt.parts ++ Stmt.partsOf rest
termination_by structural statements => statements

end

end Parts

section Rules

/-- Whether a call of a function of the script has as many arguments as the function has
parameters. -/
def Expr.FitsArity (functions : List FunctionDecl) : Expr → Prop
  | .call name args => ∀ f ∈ functions, f.name = name → f.params.length = args.length
  | _ => True

/-- Whether the items of an array or the arguments of a call can be counted. -/
def Expr.FitsCount : Expr → Prop
  | .array items => items.length ≤ countLimit
  | .call _ args | .method _ _ args => args.length ≤ countLimit
  | _ => True

/-- Whether an assignment goes to something that can be assigned to. -/
def Stmt.Assigns : Stmt → Prop
  | .assign target _ => target.isAssignable
  | _ => True

/-- The names that statements declare directly. -/
def declaredNames (statements : List Stmt) : List String :=
  statements.filterMap Stmt.declared?

@[simp] theorem declaredNames_cons (stmt : Stmt) (rest : List Stmt) :
    declaredNames (stmt :: rest) = stmt.declared?.toList ++ declaredNames rest := by
  unfold declaredNames
  cases h : stmt.declared? <;> simp [h]

/-- Whether a block declares no name twice. -/
def Stmt.DeclaresOnce : Stmt → Prop
  | .block statements => (declaredNames statements).Nodup
  | _ => True

mutual

/-- Whether `break` and `continue` stand in loops only. -/
def Stmt.StaysInLoop (inLoop : Bool) : Stmt → Prop
  | .breakLoop | .continueLoop => inLoop
  | .whileLoop _ body | .forLoop _ _ body => body.StaysInLoop true
  | .ifThen _ body => body.StaysInLoop inLoop
  | .ifElse _ body otherwise => body.StaysInLoop inLoop ∧ otherwise.StaysInLoop inLoop
  | .block statements => Stmt.StayInLoop inLoop statements
  | .assign .. | .returnVoid | .returnValue _ | .discard _ | .declare .. => True
termination_by structural stmt => stmt

/-- Whether `break` and `continue` stand in loops only. -/
def Stmt.StayInLoop (inLoop : Bool) : List Stmt → Prop
  | [] => True
  | stmt :: rest => stmt.StaysInLoop inLoop ∧ Stmt.StayInLoop inLoop rest
termination_by structural statements => statements

end

/-- The slots that a statement holds on to for the rest of its scope. -/
def Stmt.kept (stmt : Stmt) : Nat :=
  if stmt.declared?.isSome then 1 else 0

mutual

/-- The most slots that a statement has in use at once. A loop over an array takes three for
itself. -/
def Stmt.slots : Stmt → Nat
  | .whileLoop _ body | .ifThen _ body => body.slots
  | .forLoop _ _ body => 3 + body.slots
  | .ifElse _ body otherwise => max body.slots otherwise.slots
  | .declare .. => 1
  | .block statements => Stmt.slotsOf statements
  | .assign .. | .returnVoid | .returnValue _ | .discard _ | .breakLoop | .continueLoop => 0
termination_by structural stmt => stmt

/-- The most slots that the statements of one scope have in use at once. -/
def Stmt.slotsOf : List Stmt → Nat
  | [] => 0
  | stmt :: rest => max stmt.slots (stmt.kept + Stmt.slotsOf rest)
termination_by structural statements => statements

end

/-- The most slots that top-level statements have in use at once. Script globals take none. -/
def Stmt.topSlots : List Stmt → Nat
  | [] => 0
  | stmt :: rest => max (if stmt.declared?.isSome then 0 else stmt.slots) (Stmt.topSlots rest)

end Rules

/-- What is known at a point of a body. -/
structure Context where
  /-- The names that the innermost scope has declared so far. -/
  inner : List String := []
  /-- The names that the scopes around it have declared so far. -/
  outer : List String := []
  /-- The names that open scopes declare, here or further on. -/
  announced : List String := []
  /-- The script globals that can be used. -/
  completed : List String := []
  /-- The number of slots in use. -/
  slots : Nat := 0

namespace Context

/-- Opens a scope. -/
def enter (c : Context) : Context :=
  { c with inner := [], outer := c.inner ++ c.outer }

/-- Notes names that the innermost scope declares. -/
def announce (c : Context) (names : List String) : Context :=
  { c with announced := names ++ c.announced }

/-- Declares a name in the innermost scope. -/
def declare (c : Context) (name : String) : Context :=
  { c with inner := name :: c.inner, slots := c.slots + 1 }

/-- Declares names in the innermost scope, in order. -/
def declareAll (c : Context) (names : List String) : Context :=
  names.foldl declare c

/-- The scope of a loop over an array, with two slots that have no name. -/
def forHeader (c : Context) (name : String) : Context :=
  declare { c.enter with slots := c.slots + 2 } name

/-- What is known after a statement of a scope. -/
def after (c : Context) (stmt : Stmt) : Context :=
  match stmt.declared? with
  | some name => c.declare name
  | none => c

/-- What is known after a top-level statement. -/
def afterTop (c : Context) (stmt : Stmt) : Context :=
  match stmt.declared? with
  | some name => { c with completed := name :: c.completed }
  | none => c

/-- Whether a name means something: a visible local, a script global that can be used, or a
name for the host. -/
def Means (globals : List String) (c : Context) (name : String) : Prop :=
  name ∈ c.inner ∨ name ∈ c.outer ∨ name ∈ c.completed ∨ (name ∉ globals ∧ name ∉ c.announced)

instance (globals : List String) (c : Context) (name : String) : Decidable (c.Means globals name) :=
  inferInstanceAs (Decidable (_ ∨ _ ∨ _ ∨ (_ ∧ _)))

/-- Whether an expression is no variable, or one whose name means something. -/
def Names (globals : List String) (c : Context) : Expr → Prop
  | .var name => c.Means globals name
  | _ => True

end Context

section Reads

/-- Whether every variable in an expression means something. -/
def Expr.Reads (globals : List String) (c : Context) (expr : Expr) : Prop :=
  ∀ part ∈ expr.parts, c.Names globals part

/-- Whether the variables in the initial value of a declaration mean something. -/
def InitialReads (globals : List String) (c : Context) : Option Expr → Prop
  | none => True
  | some value => value.Reads globals c

mutual

/-- Whether every variable in a statement means something where it stands. -/
def Stmt.Reads (globals : List String) (c : Context) : Stmt → Prop
  | .assign target value => value.Reads globals c ∧ target.Reads globals c
  | .returnVoid | .breakLoop | .continueLoop => True
  | .returnValue value | .discard value => value.Reads globals c
  | .whileLoop condition body | .ifThen condition body =>
    condition.Reads globals c ∧ body.Reads globals c.enter
  | .forLoop name source body =>
    source.Reads globals c ∧ body.Reads globals (c.forHeader name).enter
  | .ifElse condition body otherwise =>
    condition.Reads globals c ∧ body.Reads globals c.enter ∧ otherwise.Reads globals c.enter
  | .declare name initial => InitialReads globals (c.announce [name]) initial
  | .block statements =>
    Stmt.ReadAll globals (c.enter.announce (declaredNames statements)) statements
termination_by structural stmt => stmt

/-- Whether every variable in the statements of one scope means something where it stands. -/
def Stmt.ReadAll (globals : List String) (c : Context) : List Stmt → Prop
  | [] => True
  | stmt :: rest => stmt.Reads globals c ∧ Stmt.ReadAll globals (c.after stmt) rest
termination_by structural statements => statements

end

/-- Whether every variable in a top-level statement means something. The name of a script global
means nothing in its own initial value. -/
def Stmt.TopReads (globals : List String) (c : Context) : Stmt → Prop
  | .declare _ initial => InitialReads globals c initial
  | stmt => stmt.Reads globals c

/-- Whether every variable in top-level statements means something where it stands. -/
def Stmt.TopReadAll (globals : List String) (c : Context) : List Stmt → Prop
  | [] => True
  | stmt :: rest => stmt.TopReads globals c ∧ Stmt.TopReadAll globals (c.afterTop stmt) rest

end Reads

/-- The names that the scope of a function declares: its parameters, and the name that
its body declares. -/
def FunctionDecl.scopeNames (f : FunctionDecl) : List String :=
  f.params ++ f.body.declared?.toList

/-- What is known at the start of a function, before its parameters: every script
global can be used. -/
def Program.functionContext (p : Program) : Context :=
  { completed := p.globalNames }

namespace Program

/-- Every statement of a program. -/
def stmts (p : Program) : List Stmt :=
  Stmt.partsOf p.statements ++ p.functions.flatMap fun f => f.body.parts

/-- Every expression of a program. -/
def exprs (p : Program) : List Expr :=
  Stmt.exprsOf p.statements ++ p.functions.flatMap fun f => f.body.exprs

/-- Whether a program follows the rules. -/
structure WellFormed (p : Program) : Prop where
  functions_count : p.functions.length ≤ countLimit + 1
  functions_nodup : (p.functions.map (·.name)).Nodup
  params_count : ∀ f ∈ p.functions, f.params.length ≤ countLimit
  globals_count : p.globalNames.length ≤ countLimit + 1
  globals_nodup : p.globalNames.Nodup
  /-- The scope of a function declares no name twice, its parameters included. -/
  scopes_nodup : ∀ f ∈ p.functions, f.scopeNames.Nodup
  blocks_nodup : ∀ stmt ∈ p.stmts, stmt.DeclaresOnce
  loops : Stmt.StayInLoop false p.statements ∧ ∀ f ∈ p.functions, f.body.StaysInLoop false
  assignments : ∀ stmt ∈ p.stmts, stmt.Assigns
  arities : ∀ expr ∈ p.exprs, expr.FitsArity p.functions
  counts : ∀ expr ∈ p.exprs, expr.FitsCount
  slots : Stmt.topSlots p.statements ≤ countLimit ∧
    ∀ f ∈ p.functions, f.params.length + f.body.slots ≤ countLimit
  reads : Stmt.TopReadAll p.globalNames {} p.statements ∧
    ∀ f ∈ p.functions, f.body.Reads p.globalNames (p.functionContext.declareAll f.params)

end Program

end HostScript
