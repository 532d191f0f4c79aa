import HostScript.Bytecode.Basic

/-!
# Compile errors

Why a program is refused, and in which body the cause was found.
-/

namespace HostScript

/-- The cause of a compile error. -/
inductive CompileFault where
  | undefinedVariable (name : String)
  | duplicateDeclaration (name : String)
  | duplicateFunction (name : String)
  | duplicateParameter (name : String)
  | invalidAssignmentTarget (kind : String)
  | breakOutsideLoop
  | continueOutsideLoop
  | arityMismatch (name : String) (expected got : Nat)
  | limitExceeded (what : String) (limit : Nat)
  deriving DecidableEq, Repr

/-- The most functions, globals, parameters, arguments and local slots that an operand can count. -/
def countLimit : Nat := 65535

/-- More of something than an operand can count. -/
def CompileFault.tooMany (what : String) : CompileFault :=
  .limitExceeded what countLimit

/-- The wording of a cause. -/
def CompileFault.message : CompileFault → String
  | .undefinedVariable name => s!"undefined variable `{name}`: used before its declaration"
  | .duplicateDeclaration name => s!"`{name}` is already declared in this scope"
  | .duplicateFunction name => s!"function `{name}` is defined more than once"
  | .duplicateParameter name => s!"parameter `{name}` is declared more than once"
  | .invalidAssignmentTarget kind => s!"cannot assign to a {kind}"
  | .breakOutsideLoop => "`break` outside of a loop"
  | .continueOutsideLoop => "`continue` outside of a loop"
  | .arityMismatch name expected got => s!"`{name}` expects {expected} argument(s), got {got}"
  | .limitExceeded what limit => s!"too many {what} (limit {limit})"

/-- A cause with the function it was found in, or none for top-level code and the tables. -/
structure CompileError where
  fault : CompileFault
  function : Option String := none
  deriving DecidableEq, Repr

/-- The name of the body that an error was found in. -/
def CompileError.location (error : CompileError) : String :=
  error.function.getD topLevelName

/-- The wording of an error. -/
def CompileError.message (error : CompileError) : String :=
  "error in " ++ error.location ++ ": " ++ error.fault.message

end HostScript
