import HostScript.Compile.Binding
import HostScript.Compile.Emission

/-!
# Compilation

A program compiles to a unit of code or to its first error. Names are bound first, which finds every
error; the bound program then always has a unit.
-/

namespace HostScript

/-- Compiles a program. -/
def compile (program : Program) : Except CompileError CodeUnit :=
  program.bind.map Bound.Program.toUnit

end HostScript
