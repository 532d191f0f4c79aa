import HostScript.Compile
import HostScript.Machine.Basic

/-!
# Whole runs

Running a machine until it is done or faulted, and compiling and running a program in one go. A
script need not end, so every run is given the number of instructions that it may execute.
-/

namespace HostScript

variable {σ : Type}

/-- The end of a run, and how many instructions were executed. -/
structure Run (σ : Type) where
  machine : Machine
  host : Host σ
  steps : Nat

namespace Machine

/-- Executes instructions until the machine stops or `fuel` of them have been executed. -/
def run (m : Machine) (host : Host σ) (steps : Nat) : (fuel : Nat) → Run σ
  | 0 => ⟨m, host, steps⟩
  | fuel + 1 =>
    match m.exec host with
    | (m, host) => if m.isRunning then m.run host (steps + 1) fuel else ⟨m, host, steps + 1⟩

/-- The number of open calls after each instruction of a run. -/
def depths (m : Machine) (host : Host σ) (seen : Array Nat) : (fuel : Nat) → Array Nat
  | 0 => seen
  | fuel + 1 =>
    match m.exec host with
    | (m, host) =>
      if m.isRunning then m.depths host (seen.push m.depth) fuel else seen.push m.depth

/-- Executes exactly `n` instructions, as far as the machine still executes any. -/
def execMany (m : Machine) (host : Host σ) : (n : Nat) → Machine × Host σ
  | 0 => (m, host)
  | n + 1 =>
    match m.exec host with
    | (m, host) => m.execMany host n

end Machine

/-- Why a program did not run to its end. -/
inductive ScriptError where
  | compile (error : CompileError)
  | runtime (error : RuntimeError)

/-- The wording of a script error. -/
def ScriptError.message : ScriptError → String
  | .compile error => error.message
  | .runtime error => error.message

/-- Compiles a program and runs it with the usual limits.

There is no result when the program is still running after `fuel` instructions. -/
def runProgram (program : Program) (host : Host σ) (fuel : Nat) :
    Option (Except ScriptError CodeUnit) × Host σ :=
  match compile program with
  | .error error => (some (.error (.compile error)), host)
  | .ok unit =>
    match (Machine.start unit {}).run host 0 fuel with
    | { machine := { status := .running .., .. }, host, .. } => (none, host)
    | { machine := { status := .done, .. }, host, .. } => (some (.ok unit), host)
    | { machine := { status := .faulted error, .. }, host, .. } =>
      (some (.error (.runtime error)), host)

end HostScript
