import HostScript.Operator

/-!
# Bound programs

A program in which every name has been given its meaning: variables are places, called functions
are numbers or names of the host, and a declaration is a store. Scopes are gone; what is left of
them are the slots.
-/

namespace HostScript

/-- Where a variable lives. -/
inductive Place where
  /-- A local slot of the running frame. -/
  | slot (n : Nat)
  /-- A script global. -/
  | script (id : Nat)
  /-- A global of the host, found by name when the script runs. -/
  | host (name : String)
  deriving DecidableEq, Repr

/-- The operators that may leave their right operand unevaluated. -/
inductive Connective where
  | and
  | or
  deriving DecidableEq, Repr

/-- The connective that a binary operator is, if it is one. -/
def BinaryOp.connective? : BinaryOp → Option Connective
  | .and => some .and
  | .or => some .or
  | _ => none

namespace Bound

/-- Expressions over places. -/
inductive Expr where
  | void
  | number (value : Float)
  | string (value : String)
  | load (place : Place)
  | index (base position : Expr)
  | array (items : List Expr)
  | callScript (function : Nat) (args : List Expr)
  | callNative (name : String) (args : List Expr)
  | callMethod (object : Expr) (name : String) (args : List Expr)
  | unary (op : UnaryOp) (operand : Expr)
  | strict (op : BinaryOp) (lhs rhs : Expr)
  | connect (op : Connective) (lhs rhs : Expr)

/-- What can be assigned to: a place, or an element of what can be assigned to. -/
inductive Target where
  | place (place : Place)
  | element (base : Target) (position : Expr)

/-- The expression that reads a target. -/
def Target.read : Target → Expr
  | .place p => .load p
  | .element base position => .index base.read position

/-- Statements over places. -/
inductive Stmt where
  | store (target : Target) (value : Expr)
  | returnVoid
  | returnValue (value : Expr)
  | whileLoop (condition : Expr) (body : Stmt)
  /-- A loop over an array, with the slots that hold the array, the cursor and the current item. -/
  | forLoop (array cursor item : Nat) (source : Expr) (body : Stmt)
  | ifThen (condition : Expr) (body : Stmt)
  | ifElse (condition : Expr) (body otherwise : Stmt)
  | discard (value : Expr)
  | block (statements : List Stmt)
  | breakLoop
  | continueLoop

/-- A function or the top-level code. -/
structure Body where
  name : String
  arity : Nat
  /-- The number of slots that a frame of this body needs. -/
  locals : Nat
  statements : List Stmt

/-- A bound program. -/
structure Program where
  top : Body
  functions : List Body
  globals : Array String

end Bound

end HostScript
