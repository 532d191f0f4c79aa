import HostScript.Proofs.WellFormed.Rules

/-!
# Problems of a program

All that is wrong with a program, in the order in which it is read: the table of functions, the
script globals, the top-level code, then each function. Nothing stops at the first problem.
-/

namespace HostScript

/-- The problem that there is unless a condition holds. -/
def reportUnless {ε : Type} (ok : Prop) [Decidable ok] (problem : ε) : List ε :=
  if ok then [] else [problem]

@[simp] theorem reportUnless_eq_nil {ε : Type} {ok : Prop} [Decidable ok] {problem : ε} :
    reportUnless ok problem = [] ↔ ok := by
  unfold reportUnless
  split <;> simp_all

/-- The problem of a frame that needs more slots than can be counted. -/
def slotProblem (needed : Nat) : List CompileFault :=
  reportUnless (needed ≤ countLimit) (.tooMany "local slots")

/-- The problem of a list that is too long to be counted. -/
def countProblem (items : List Expr) : List CompileFault :=
  reportUnless (items.length ≤ countLimit) (.tooMany "arguments")

/-- The problem of a call that does not fit the function it calls. -/
def arityProblem (functions : List FunctionDecl) (name : String) (args : List Expr) :
    List CompileFault :=
  match functions.find? (·.name == name) with
  | some f =>
    reportUnless (f.params.length = args.length) (.arityMismatch name f.params.length args.length)
  | none => []

section Trees

variable (functions : List FunctionDecl) (globals : List String)

mutual

/-- The problems of an expression. -/
def Expr.problems (c : Context) : Expr → List CompileFault
  | .var name => reportUnless (c.Means globals name) (.undefinedVariable name)
  | .number _ | .string _ => []
  | .array items => countProblem items ++ Expr.problemsOf c items
  | .index base position => base.problems c ++ position.problems c
  | .call function args =>
    arityProblem functions function args ++ countProblem args ++ Expr.problemsOf c args
  | .method object _ args => object.problems c ++ countProblem args ++ Expr.problemsOf c args
  | .unary _ operand => operand.problems c
  | .binary _ lhs rhs => lhs.problems c ++ rhs.problems c
termination_by structural expr => expr

/-- The problems of some expressions. -/
def Expr.problemsOf (c : Context) : List Expr → List CompileFault
  | [] => []
  | expr :: rest => expr.problems c ++ Expr.problemsOf c rest
termination_by structural exprs => exprs

end

/-- The problems of the initial value of a declaration. -/
def initialProblems (c : Context) : Option Expr → List CompileFault
  | none => []
  | some value => value.problems functions globals c

mutual

/-- The problems of a statement. -/
def Stmt.problems (inLoop : Bool) (c : Context) : Stmt → List CompileFault
  | .assign target value =>
    reportUnless target.isAssignable (.invalidAssignmentTarget target.kind) ++
      value.problems functions globals c ++ target.problems functions globals c
  | .returnVoid => []
  | .returnValue value | .discard value => value.problems functions globals c
  | .whileLoop condition body =>
    condition.problems functions globals c ++ body.problems true c.enter
  | .forLoop name source body =>
    source.problems functions globals c ++ slotProblem (c.slots + 3) ++
      body.problems true (c.forHeader name).enter
  | .ifThen condition body => condition.problems functions globals c ++ body.problems inLoop c.enter
  | .ifElse condition body otherwise =>
    condition.problems functions globals c ++ body.problems inLoop c.enter ++
      otherwise.problems inLoop c.enter
  | .declare name initial =>
    initialProblems functions globals (c.announce [name]) initial ++
      reportUnless (name ∉ c.inner) (.duplicateDeclaration name) ++ slotProblem (c.slots + 1)
  | .block statements =>
    Stmt.problemsOf inLoop (c.enter.announce (declaredNames statements)) statements
  | .breakLoop => reportUnless inLoop .breakOutsideLoop
  | .continueLoop => reportUnless inLoop .continueOutsideLoop
termination_by structural stmt => stmt

/-- The problems of the statements of one scope. -/
def Stmt.problemsOf (inLoop : Bool) (c : Context) : List Stmt → List CompileFault
  | [] => []
  | stmt :: rest => stmt.problems inLoop c ++ Stmt.problemsOf inLoop (c.after stmt) rest
termination_by structural statements => statements

end

/-- The problems of a top-level statement. A declaration is one of a script global,
which takes no slot. -/
def Stmt.topProblems (c : Context) : Stmt → List CompileFault
  | .declare _ initial => initialProblems functions globals c initial
  | stmt => stmt.problems functions globals false c

/-- A top-level statement that declares nothing has the problems that it would have elsewhere. -/
theorem Stmt.topProblems_eq_problems {functions globals} {c : Context} {stmt : Stmt}
    (h : stmt.declared? = none) :
    stmt.topProblems functions globals c = stmt.problems functions globals false c := by
  unfold Stmt.topProblems
  split
  · cases h
  · rfl

/-- The problems of top-level statements. -/
def Stmt.topProblemsOf (c : Context) : List Stmt → List CompileFault
  | [] => []
  | stmt :: rest =>
    stmt.topProblems functions globals c ++ Stmt.topProblemsOf (c.afterTop stmt) rest

/-- The problems of parameters. -/
def paramProblems (c : Context) : List String → List CompileFault
  | [] => []
  | name :: rest =>
    reportUnless (name ∉ c.inner) (.duplicateParameter name) ++ slotProblem (c.slots + 1) ++
      paramProblems (c.declare name) rest

/-- The problems of a function, its parameters first. -/
def FunctionDecl.problems (c : Context) (f : FunctionDecl) : List CompileFault :=
  paramProblems c f.params ++ f.body.problems functions globals false (c.declareAll f.params)

end Trees

/-- The problems of the table of functions, after those with the names seen. -/
def functionTableProblems (seen : List String) : List FunctionDecl → List CompileError
  | [] => []
  | f :: rest =>
    reportUnless (seen.length ≤ countLimit) { fault := .tooMany "functions" } ++
      reportUnless (f.params.length ≤ countLimit)
        { fault := .tooMany "parameters", function := f.name } ++
      reportUnless (f.name ∉ seen) { fault := .duplicateFunction f.name } ++
      functionTableProblems (f.name :: seen) rest

/-- The problems of the table of script globals, after those with the names seen. -/
def globalTableProblems (seen : List String) : List String → List CompileError
  | [] => []
  | name :: rest =>
    reportUnless (seen.length ≤ countLimit) { fault := .tooMany "globals" } ++
      reportUnless (name ∉ seen) { fault := .duplicateDeclaration name } ++
      globalTableProblems (name :: seen) rest

/-- Problems found in a body. -/
def located (function : Option String) (faults : List CompileFault) : List CompileError :=
  faults.map fun fault => { fault, function }

/-- The problems of a program. -/
def Program.problems (p : Program) : List CompileError :=
  functionTableProblems [] p.functions ++ globalTableProblems [] p.globalNames ++
    located none (Stmt.topProblemsOf p.functions p.globalNames {} p.statements) ++
    p.functions.flatMap fun f => located f.name
      (f.problems p.functions p.globalNames p.functionContext)

end HostScript
