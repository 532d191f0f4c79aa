import HostScript.Bytecode.Basic
import HostScript.Compile.Bound
import HostScript.Compile.StringPool

/-!
# Emitting code

A bound program becomes one sequence of instructions: the top-level code, then each function, every
body ending in a return of void. The number of instructions of a piece of code can be read off its
tree, so the target of a forward jump is known when the jump is emitted.

An expression leaves one value on the operand stack; a statement leaves the stack as it found it.
The shapes of the loops are

* while: the condition, a jump to the exit if it is false, the body, a jump back to the condition;
* for: the source into its slot, zero into the cursor's slot, the step that takes the next item or
  goes to the exit, the item into its slot, the body, a jump back to the step.

`continue` goes to the condition or the step, and `break` to the exit.

Offsets are natural numbers without a limit. The error for a jump or a body whose offset would be
`2 ^ 32` or more is left out.
-/

namespace HostScript

namespace Bound

mutual

/-- The number of instructions of an expression. -/
def Expr.size : Expr → Nat
  | .void => 1
  | .number _ => 1
  | .string _ => 1
  | .load _ => 1
  | .index base position => base.size + position.size + 1
  | .array items => Expr.sizes 1 items
  | .callScript _ args => Expr.sizes 1 args
  | .callNative _ args => Expr.sizes 1 args
  | .callMethod object _ args => Expr.sizes (object.size + 1) args
  | .unary _ operand => operand.size + 1
  | .strict _ lhs rhs => lhs.size + rhs.size + 1
  | .connect _ lhs rhs => lhs.size + rhs.size + 5
termination_by structural expr => expr

/-- The number of instructions of some expressions, on top of those counted already. -/
def Expr.sizes (counted : Nat) : List Expr → Nat
  | [] => counted
  | expr :: rest => Expr.sizes (counted + expr.size) rest
termination_by structural exprs => exprs

end

/-- The number of instructions that store the topmost operand into a target. -/
def Target.storeSize : Target → Nat
  | .place _ => 1
  | .element base position => base.read.size + position.size + 1 + base.storeSize

mutual

/-- The number of instructions of a statement. -/
def Stmt.size : Stmt → Nat
  | .store target value => value.size + target.storeSize
  | .returnVoid => 1
  | .returnValue value => value.size + 1
  | .whileLoop condition body => condition.size + body.size + 2
  | .forLoop _ _ _ source body => source.size + body.size + 6
  | .ifThen condition body => condition.size + body.size + 1
  | .ifElse condition body otherwise => condition.size + body.size + otherwise.size + 2
  | .discard value => value.size + 1
  | .block statements => Stmt.sizes 0 statements
  | .breakLoop => 1
  | .continueLoop => 1
termination_by structural stmt => stmt

/-- The number of instructions of some statements, on top of those counted already. -/
def Stmt.sizes (counted : Nat) : List Stmt → Nat
  | [] => counted
  | stmt :: rest => Stmt.sizes (counted + stmt.size) rest
termination_by structural statements => statements

end

end Bound

/-- The code emitted so far and its strings. -/
structure Emitter where
  code : Array Instruction := #[]
  pool : StringPool := {}

/-- Where `break` and `continue` go. -/
structure Exits where
  breakTo : Nat
  continueTo : Nat

namespace Emitter

/-- The offset of the next instruction. -/
def here (e : Emitter) : Nat :=
  e.code.size

/-- Appends an instruction. -/
def push (e : Emitter) (instruction : Instruction) : Emitter :=
  { e with code := e.code.push instruction }

/-- Appends an instruction with a string operand. -/
def pushWith (e : Emitter) (s : String) (instruction : Nat → Instruction) : Emitter :=
  match e.pool.intern s with
  | (id, pool) => { code := e.code.push (instruction id), pool }

/-- Pushes the value at a place. -/
def load (e : Emitter) : Place → Emitter
  | .slot n => e.push (.loadLocal n)
  | .script id => e.push (.loadGlobal id)
  | .host name => e.pushWith name .loadHost

/-- Pops a value into a place. -/
def store (e : Emitter) : Place → Emitter
  | .slot n => e.push (.storeLocal n)
  | .script id => e.push (.storeGlobal id)
  | .host name => e.pushWith name .storeHost

/-- The jump with which a connective skips its right operand. -/
def skip : Connective → Nat → Instruction
  | .and => .jumpIfFalse
  | .or => .jumpIfTrue

/-- The result of a connective that evaluated both operands without deciding. -/
def undecided : Connective → Bool
  | .and => true
  | .or => false

mutual

/-- Emits an expression. -/
def expr (e : Emitter) : Bound.Expr → Emitter
  | .void => e.push .pushVoid
  | .number value => e.push (.pushNumber value)
  | .string value => e.pushWith value .pushString
  | .load place => e.load place
  | .index base position => ((e.expr base).expr position).push .loadIndex
  | .array items => (e.exprs items).push (.makeArray items.length)
  | .callScript function args => (e.exprs args).push (.callScript function args.length)
  | .callNative name args => (e.exprs args).pushWith name (.callNative · args.length)
  | .callMethod object name args =>
    ((e.expr object).exprs args).pushWith name (.callMethod · args.length)
  | .unary op operand => (e.expr operand).push (.unary op)
  | .strict op lhs rhs => ((e.expr lhs).expr rhs).push (.binary op)
  | .connect op lhs rhs =>
    let e := e.expr lhs
    let decided := e.here + rhs.size + 4
    let e := (e.push (skip op decided)).expr rhs
    let e := (e.push (skip op decided)).push (.pushBool (undecided op))
    (e.push (.jump (decided + 1))).push (.pushBool !(undecided op))
termination_by structural expr => expr

/-- Emits expressions from left to right. -/
def exprs (e : Emitter) : List Bound.Expr → Emitter
  | [] => e
  | expr :: rest => (e.expr expr).exprs rest
termination_by structural exprs => exprs

end

/-- Stores the topmost operand into a target. An element is stored by storing the changed array. -/
def storeTo (e : Emitter) : Bound.Target → Emitter
  | .place place => e.store place
  | .element base position => (((e.expr base.read).expr position).push .storeIndex).storeTo base

mutual

/-- Emits a statement. -/
def stmt (exits : Exits) (e : Emitter) : Bound.Stmt → Emitter
  | .store target value => (e.expr value).storeTo target
  | .returnVoid => e.push .returnVoid
  | .returnValue value => (e.expr value).push .returnValue
  | .whileLoop condition body =>
    let again := e.here
    let e := e.expr condition
    let exit := e.here + body.size + 2
    let e := (e.push (.jumpIfFalse exit)).stmt ⟨exit, again⟩ body
    e.push (.jump again)
  | .forLoop array cursor item source body =>
    let e := (e.expr source).push (.storeLocal array)
    let e := (e.push (.pushNumber 0.0)).push (.storeLocal cursor)
    let next := e.here
    let exit := next + body.size + 3
    let e := (e.push (.iterNext array cursor exit)).push (.storeLocal item)
    let e := e.stmt ⟨exit, next⟩ body
    e.push (.jump next)
  | .ifThen condition body =>
    let e := e.expr condition
    let e := e.push (.jumpIfFalse (e.here + body.size + 1))
    e.stmt exits body
  | .ifElse condition body otherwise =>
    let e := e.expr condition
    let e := e.push (.jumpIfFalse (e.here + body.size + 2))
    let e := e.stmt exits body
    let e := e.push (.jump (e.here + otherwise.size + 1))
    e.stmt exits otherwise
  | .discard value => (e.expr value).push .pop
  | .block statements => e.stmts exits statements
  | .breakLoop => e.push (.jump exits.breakTo)
  | .continueLoop => e.push (.jump exits.continueTo)
termination_by structural stmt => stmt

/-- Emits statements in order. -/
def stmts (exits : Exits) (e : Emitter) : List Bound.Stmt → Emitter
  | [] => e
  | stmt :: rest => (e.stmt exits stmt).stmts exits rest
termination_by structural statements => statements

end

/-- Emits a body. Its last instruction, the return of void, also stands for the exits
outside all loops. -/
def body (e : Emitter) (b : Bound.Body) : Entry × Emitter :=
  let start := e.here
  let last := Bound.Stmt.sizes start b.statements
  ({ name := b.name, start, arity := b.arity, locals := b.locals },
    (e.stmts ⟨last, last⟩ b.statements).push .returnVoid)

/-- Emits bodies in order, after those with the given entries. -/
def bodies (e : Emitter) (entries : Array Entry) : List Bound.Body → Array Entry × Emitter
  | [] => (entries, e)
  | b :: rest =>
    match e.body b with
    | (entry, e) => bodies e (entries.push entry) rest

end Emitter

/-- The unit of a bound program. -/
def Bound.Program.toUnit (program : Bound.Program) : CodeUnit :=
  match Emitter.body {} program.top with
  | (top, e) =>
    match e.bodies #[] program.functions with
    | (functions, e) =>
      { code := e.code, top, functions, globals := program.globals, strings := e.pool.strings }

end HostScript
