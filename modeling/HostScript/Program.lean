import HostScript.Operator

/-!
# Programs

The trees that a program is made of. A program is a list of functions and a list of top-level
statements; names are plain strings and nothing is resolved yet.
-/

namespace HostScript

/-- Expressions. -/
inductive Expr where
  | var (name : String)
  | number (value : Float)
  | string (value : String)
  | array (items : List Expr)
  | index (base position : Expr)
  | call (function : String) (args : List Expr)
  | method (object : Expr) (name : String) (args : List Expr)
  | unary (op : UnaryOp) (operand : Expr)
  | binary (op : BinaryOp) (lhs rhs : Expr)

/-- Statements. -/
inductive Stmt where
  | assign (target value : Expr)
  | returnVoid
  | returnValue (value : Expr)
  | whileLoop (condition : Expr) (body : Stmt)
  | forLoop (name : String) (source : Expr) (body : Stmt)
  | ifThen (condition : Expr) (body : Stmt)
  | ifElse (condition : Expr) (body otherwise : Stmt)
  | discard (value : Expr)
  | declare (name : String) (initial : Option Expr)
  | block (statements : List Stmt)
  | breakLoop
  | continueLoop

/-- A named function of the script. -/
structure FunctionDecl where
  name : String
  params : List String
  body : Stmt

/-- A whole script. -/
structure Program where
  functions : List FunctionDecl
  statements : List Stmt

/-- Whether an expression may stand on the left of an assignment: a variable, or an element of
something that may. -/
def Expr.isAssignable : Expr → Bool
  | .var _ => true
  | .index base _ => base.isAssignable
  | _ => false

/-- What an expression is called in messages. -/
def Expr.kind : Expr → String
  | .var _ => "variable"
  | .index .. => "array index"
  | .array _ => "array literal"
  | .call .. => "function call"
  | .method .. => "method call"
  | .number _ => "number literal"
  | .string _ => "string literal"
  | .unary .. => "unary operator"
  | .binary .. => "binary operator"

/-- The name that a statement declares by itself, not counting the statements inside it. -/
def Stmt.declared? : Stmt → Option String
  | .declare name _ => some name
  | _ => none

end HostScript
