import HostScript.Compile.Bound
import HostScript.Proofs.WellFormed.Rules

/-!
# Occurrences of names

Every occurrence of a variable in a program, with what can be seen where it stands: the open scopes,
with the names that each of them has declared so far and those that it declares from there on, and
the script globals that can be used. By these alone a name stands for a place. A reference goes to
the innermost open scope that has declared its name, else to the script global of that name, else to
the host, unless an open scope declares the name further on.

The statements of a program stand at such points as well.
-/

namespace HostScript

/-- An open scope, as the text of a program shows it at some point. -/
structure OpenScope where
  /-- The names declared so far, with their slots. -/
  declared : List (String × Nat) := []
  /-- The names that the scope declares from here on, this statement included. -/
  pending : List String := []

namespace OpenScope

/-- The slot of a name that the scope has declared. -/
def slot? (scope : OpenScope) (name : String) : Option Nat :=
  scope.declared.lookup name

/-- The slot of a name in the innermost of some scopes that has declared it. -/
def slotAmong? (scopes : List OpenScope) (name : String) : Option Nat :=
  scopes.findSome? (·.slot? name)

end OpenScope

/-- A point in a body: the open scopes, the script globals that can be used, and the slots in
use. -/
structure Point where
  inner : OpenScope := {}
  outer : List OpenScope := []
  completed : List String := []
  slots : Nat := 0

namespace Point

/-- All open scopes, innermost first. -/
def scopes (here : Point) : List OpenScope :=
  here.inner :: here.outer

/-- Opens a scope. -/
def enter (here : Point) : Point :=
  { here with inner := {}, outer := here.scopes }

/-- Declares a name in the innermost scope. -/
def declare (here : Point) (name : String) : Point :=
  { here with
    inner := { here.inner with declared := (name, here.slots) :: here.inner.declared }
    slots := here.slots + 1 }

/-- Declares names in the innermost scope, in order. -/
def declareAll (here : Point) (names : List String) : Point :=
  names.foldl declare here

/-- Says which names the innermost scope declares from here on. -/
def expect (here : Point) (names : List String) : Point :=
  { here with inner := { here.inner with pending := names } }

/-- The scope of a loop over an array, with two slots that have no name. -/
def forHeader (here : Point) (name : String) : Point :=
  declare { here.enter with slots := here.slots + 2 } name

/-- The point after a statement of the innermost scope. -/
def after (here : Point) (stmt : Stmt) : Point :=
  match stmt.declared? with
  | some name => here.declare name
  | none => here

/-- The point after a top-level statement. -/
def afterTop (here : Point) (stmt : Stmt) : Point :=
  match stmt.declared? with
  | some name => { here with completed := name :: here.completed }
  | none => here

end Point

/-- An occurrence of a name in a program. -/
inductive Occurrence where
  /-- A variable that is read or assigned to. -/
  | reference (name : String) (here : Point)
  /-- A declaration of a local, with the slot that it is to get. -/
  | declaration (slot : Nat)
  /-- A declaration of a script global. -/
  | globalDeclaration (name : String)

section Occurrences

/-- The name of a variable, if an expression is one. -/
def Expr.name? : Expr → Option String
  | .var name => some name
  | _ => none

/-- The variables in an expression, in reading order. -/
def Expr.variables (expr : Expr) : List String :=
  expr.parts.filterMap Expr.name?

/-- The variables in some expressions. -/
def Expr.variablesOf (exprs : List Expr) : List String :=
  (Expr.partsOf exprs).filterMap Expr.name?

/-- The variables in the initial value of a declaration. -/
def initialVariables (initial : Option Expr) : List String :=
  (initialParts initial).filterMap Expr.name?

section Variables

variable {base position object lhs rhs operand : Expr} {items args : List Expr} {name : String}

@[simp] theorem Expr.variables_var : (Expr.var name).variables = [name] := rfl

@[simp] theorem Expr.variables_number {value : Float} : (Expr.number value).variables = [] := rfl

@[simp] theorem Expr.variables_string {value : String} : (Expr.string value).variables = [] := rfl

@[simp] theorem Expr.variables_array : (Expr.array items).variables = Expr.variablesOf items := rfl

@[simp] theorem Expr.variables_call : (Expr.call name args).variables = Expr.variablesOf args := rfl

@[simp] theorem Expr.variables_unary {op : UnaryOp} :
    (Expr.unary op operand).variables = operand.variables :=
  rfl

@[simp] theorem Expr.variables_index :
    (Expr.index base position).variables = base.variables ++ position.variables :=
  List.filterMap_append

@[simp] theorem Expr.variables_method :
    (Expr.method object name args).variables = object.variables ++ Expr.variablesOf args :=
  List.filterMap_append

@[simp] theorem Expr.variables_binary {op : BinaryOp} :
    (Expr.binary op lhs rhs).variables = lhs.variables ++ rhs.variables :=
  List.filterMap_append

@[simp] theorem Expr.variablesOf_nil : Expr.variablesOf [] = [] := rfl

@[simp] theorem Expr.variablesOf_cons :
    Expr.variablesOf (lhs :: items) = lhs.variables ++ Expr.variablesOf items :=
  List.filterMap_append

end Variables

/-- The references in an expression. -/
def Expr.references (here : Point) (expr : Expr) : List Occurrence :=
  expr.variables.map (.reference · here)

/-- The references in the initial value of a declaration. -/
def initialReferences (here : Point) (initial : Option Expr) : List Occurrence :=
  (initialVariables initial).map (.reference · here)

mutual

/-- The occurrences of names in a statement, in the order in which the statement is bound. -/
def Stmt.occurrences (here : Point) : Stmt → List Occurrence
  | .assign target value => value.references here ++ target.references here
  | .returnVoid | .breakLoop | .continueLoop => []
  | .returnValue value | .discard value => value.references here
  | .whileLoop condition body | .ifThen condition body =>
    condition.references here ++ body.occurrences here.enter
  | .forLoop name source body =>
    source.references here ++ .declaration (here.slots + 2) ::
      body.occurrences (here.forHeader name).enter
  | .ifElse condition body otherwise =>
    condition.references here ++ body.occurrences here.enter ++ otherwise.occurrences here.enter
  | .declare name initial =>
    initialReferences (here.expect (name :: here.inner.pending)) initial ++
      [.declaration here.slots]
  | .block statements => Stmt.occurrencesOf here.enter statements
termination_by structural stmt => stmt

/-- The occurrences of names in the statements of a block. -/
def Stmt.occurrencesOf (here : Point) : List Stmt → List Occurrence
  | [] => []
  | stmt :: rest =>
    stmt.occurrences (here.expect (declaredNames (stmt :: rest))) ++
      Stmt.occurrencesOf (here.after stmt) rest
termination_by structural statements => statements

end

/-- The occurrences of names in a top-level statement. -/
def Stmt.topOccurrences (here : Point) : Stmt → List Occurrence
  | .declare name initial => initialReferences here initial ++ [.globalDeclaration name]
  | stmt => stmt.occurrences here

/-- The occurrences of names in top-level statements. -/
def Stmt.topOccurrencesOf (here : Point) : List Stmt → List Occurrence
  | [] => []
  | stmt :: rest => stmt.topOccurrences here ++ Stmt.topOccurrencesOf (here.afterTop stmt) rest

/-- The point at the start of a function, after its parameters. Every script global can be used. -/
def Program.functionPoint (p : Program) (f : FunctionDecl) : Point :=
  Point.declareAll { completed := p.globalNames } f.params

/-- The occurrences of names in a program: in the top-level code, then in the functions. -/
def Program.occurrences (p : Program) : List Occurrence :=
  Stmt.topOccurrencesOf {} p.statements ++ p.functions.flatMap fun f =>
    f.body.occurrences (p.functionPoint f)

end Occurrences

theorem Stmt.topOccurrences_of_none {stmt : Stmt} (h : stmt.declared? = none) (here : Point) :
    stmt.topOccurrences here = stmt.occurrences here := by
  cases stmt with
  | declare name initial => cases h
  | _ => rfl

section Sites

mutual

/-- A statement and all statements in it, each with the point where it stands. -/
def Stmt.sites (here : Point) : Stmt → List (Point × Stmt)
  | .whileLoop condition body => (here, .whileLoop condition body) :: body.sites here.enter
  | .forLoop name source body =>
    (here, .forLoop name source body) :: body.sites (here.forHeader name).enter
  | .ifThen condition body => (here, .ifThen condition body) :: body.sites here.enter
  | .ifElse condition body otherwise =>
    (here, .ifElse condition body otherwise) ::
      (body.sites here.enter ++ otherwise.sites here.enter)
  | .block statements => (here, .block statements) :: Stmt.sitesOf here.enter statements
  | .assign target value => [(here, .assign target value)]
  | .returnVoid => [(here, .returnVoid)]
  | .returnValue value => [(here, .returnValue value)]
  | .discard value => [(here, .discard value)]
  | .declare name initial => [(here, .declare name initial)]
  | .breakLoop => [(here, .breakLoop)]
  | .continueLoop => [(here, .continueLoop)]
termination_by structural stmt => stmt

/-- The statements of a block and all statements in them, each with the point where it stands. -/
def Stmt.sitesOf (here : Point) : List Stmt → List (Point × Stmt)
  | [] => []
  | stmt :: rest =>
    stmt.sites (here.expect (declaredNames (stmt :: rest))) ++ Stmt.sitesOf (here.after stmt) rest
termination_by structural statements => statements

end

/-- Top-level statements and all statements in them, each with the point where it stands. -/
def Stmt.topSitesOf (here : Point) : List Stmt → List (Point × Stmt)
  | [] => []
  | stmt :: rest => stmt.sites here ++ Stmt.topSitesOf (here.afterTop stmt) rest

/-- Every statement of a program with the point where it stands. -/
def Program.sites (p : Program) : List (Point × Stmt) :=
  Stmt.topSitesOf {} p.statements ++ p.functions.flatMap fun f => f.body.sites (p.functionPoint f)

mutual

theorem Stmt.map_sites (here : Point) : (stmt : Stmt) → (stmt.sites here).map Prod.snd = stmt.parts
  | .whileLoop condition body => by
    rw [Stmt.sites, Stmt.parts, List.map_cons, body.map_sites]
  | .forLoop name source body => by
    rw [Stmt.sites, Stmt.parts, List.map_cons, body.map_sites]
  | .ifThen condition body => by
    rw [Stmt.sites, Stmt.parts, List.map_cons, body.map_sites]
  | .ifElse condition body otherwise => by
    rw [Stmt.sites, Stmt.parts, List.map_cons, List.map_append, body.map_sites,
      otherwise.map_sites]
  | .block statements => by
    rw [Stmt.sites, Stmt.parts, List.map_cons, Stmt.map_sitesOf]
  | .assign _ _ => rfl
  | .returnVoid => rfl
  | .returnValue _ => rfl
  | .discard _ => rfl
  | .declare _ _ => rfl
  | .breakLoop => rfl
  | .continueLoop => rfl
termination_by structural stmt => stmt

theorem Stmt.map_sitesOf (here : Point) :
    (statements : List Stmt) → (Stmt.sitesOf here statements).map Prod.snd = Stmt.partsOf statements
  | [] => rfl
  | stmt :: rest => by
    rw [Stmt.sitesOf, Stmt.partsOf, List.map_append, stmt.map_sites, Stmt.map_sitesOf]
termination_by structural statements => statements

end

theorem Stmt.map_topSitesOf (here : Point) (statements : List Stmt) :
    (Stmt.topSitesOf here statements).map Prod.snd = Stmt.partsOf statements := by
  induction statements generalizing here with
  | nil => rfl
  | cons stmt rest ih =>
    rw [Stmt.topSitesOf, Stmt.partsOf, List.map_append, stmt.map_sites, ih]

/-- The statements of the sites are the statements of the program. -/
theorem Program.map_sites (p : Program) : p.sites.map Prod.snd = p.stmts := by
  rw [Program.sites, Program.stmts, List.map_append, Stmt.map_topSitesOf, List.map_flatMap]
  simp only [Stmt.map_sites]

end Sites

section Meaning

/-- Whether a name that is used at a point stands for a place. -/
inductive Point.Resolves (globals : List String) (here : Point) (name : String) : Place → Prop
  | slot {n : Nat} (hslot : OpenScope.slotAmong? here.scopes name = some n) :
      Resolves globals here name (.slot n)
  | script {id : Nat} (hlocal : OpenScope.slotAmong? here.scopes name = none)
      (hid : globals[id]? = some name) (hcompleted : name ∈ here.completed) :
      Resolves globals here name (.script id)
  | host (hlocal : OpenScope.slotAmong? here.scopes name = none) (hglobal : name ∉ globals)
      (hpending : ∀ scope ∈ here.scopes, name ∉ scope.pending) :
      Resolves globals here name (.host name)

/-- Whether no open scope declares a name again that it has declared. -/
def Point.Fresh (here : Point) : Prop :=
  ∀ scope ∈ here.scopes, ∀ name ∈ scope.pending, scope.slot? name = none

/-- Whether an occurrence of a name is bound to a place as it should be. -/
inductive Occurrence.Resolves (globals : List String) : Occurrence → Place → Prop
  | reference {name : String} {here : Point} {place : Place} (hfresh : here.Fresh)
      (h : here.Resolves globals name place) : Resolves globals (.reference name here) place
  | declaration (slot : Nat) : Resolves globals (.declaration slot) (.slot slot)
  | globalDeclaration {name : String} {id : Nat} (hid : globals[id]? = some name) :
      Resolves globals (.globalDeclaration name) (.script id)

end Meaning

end HostScript
