import Std.Data.TreeMap
import HostScript.Compile.Error
import HostScript.Program

/-!
# Signatures

What every body of a program may refer to: the functions with their numbers of parameters, and the
script globals, which are the names declared directly by top-level statements. Both are numbered in
the order of the program.
-/

namespace HostScript

/-- The number of a function and of its parameters. -/
structure Signature where
  id : Nat
  arity : Nat
  deriving DecidableEq, Repr

/-- The functions and the script globals of a program. -/
structure Signatures where
  functions : Std.TreeMap String Signature := {}
  globals : Std.TreeMap String Nat := {}
  globalNames : Array String := #[]

namespace Signatures

/-- Enters functions that are numbered from `id` on. -/
def addFunctions (s : Signatures) (id : Nat) : List FunctionDecl → Except CompileError Signatures
  | [] => .ok s
  | f :: rest =>
    if countLimit < id then
      .error { fault := .tooMany "functions" }
    else if countLimit < f.params.length then
      .error { fault := .tooMany "parameters", function := f.name }
    else if s.functions.contains f.name then
      .error { fault := .duplicateFunction f.name }
    else
      addFunctions { s with functions := s.functions.insert f.name ⟨id, f.params.length⟩ }
        (id + 1) rest

/-- Enters the names that statements declare directly. -/
def addGlobals (s : Signatures) : List Stmt → Except CompileError Signatures
  | [] => .ok s
  | stmt :: rest =>
    match stmt.declared? with
    | none => addGlobals s rest
    | some name =>
      if countLimit < s.globalNames.size then
        .error { fault := .tooMany "globals" }
      else if s.globals.contains name then
        .error { fault := .duplicateDeclaration name }
      else
        addGlobals
          { s with
            globals := s.globals.insert name s.globalNames.size
            globalNames := s.globalNames.push name }
          rest

/-- The signatures of a program, functions first. -/
def ofProgram (program : Program) : Except CompileError Signatures :=
  match addFunctions {} 0 program.functions with
  | .error error => .error error
  | .ok s => addGlobals s program.statements

end Signatures

end HostScript
