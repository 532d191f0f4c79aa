import HostScript.Host.Basic
import HostScript.Value.Operation

/-!
# Evaluations

What the evaluation of an expression or a statement can do, whether it works with names or
with slots: change the script globals and the host, call functions and callables, take the
turns of a loop, and stop early. It stops for a fault, or because it was given fewer turns and
calls than it takes.
-/

namespace HostScript

/-- Why an evaluation stops before its end. -/
inductive Halt where
  | fault (error : RuntimeError)
  | exhausted

/-- What an evaluation can change: the script globals, of type `γ`, and the host. -/
structure World (γ σ : Type) where
  globals : γ
  host : Host σ

/-- An evaluation. What it has changed when it stops early stays changed. -/
abbrev Eval (γ σ : Type) :=
  EStateM Halt (World γ σ)

/-- A way to call the script functions by their number. -/
abbrev Calls (γ σ : Type) :=
  Nat → Array Value → Eval γ σ Value

/-- How a statement ends. -/
inductive Signal where
  | next
  | breakLoop
  | continueLoop
  | returned (value : Value)

/-- What a call gives back when its body ends with a signal. -/
def Signal.result : Signal → Value
  | .returned value => value
  | _ => .void

/-- How a turn of a loop ends, with the variables as they are then. -/
inductive Turn (ν : Type) where
  | again (vars : ν)
  | finish (signal : Signal) (vars : ν)

/-- How a turn of a loop ends when its body ends with a signal. -/
def Signal.turn {ν : Type} (vars : ν) : Signal → Turn ν
  | .next => .again vars
  | .continueLoop => .again vars
  | .breakLoop => .finish .next vars
  | .returned value => .finish (.returned value) vars

namespace Eval

variable {γ σ α ν : Type}

/-- What follows an evaluation goes on from where that ended. -/
theorem bind_eq_ok {β : Type} {x : Eval γ σ α} {f : α → Eval γ σ β} {b : β} {w w' : World γ σ}
    (h : (x >>= f) w = .ok b w') : ∃ a w₁, x w = .ok a w₁ ∧ f a w₁ = .ok b w' := by
  change EStateM.bind x f w = _ at h
  unfold EStateM.bind at h
  cases hresult : x w with
  | ok a w₁ =>
    rw [hresult] at h
    exact ⟨a, w₁, rfl, h⟩
  | error halt w₁ =>
    rw [hresult] at h
    cases h

/-- Stops with a fault. -/
def fail (fault : Fault) : Eval γ σ α :=
  throw (.fault { fault })

/-- Goes on with a value, if there is one. -/
def lift : Except Fault α → Eval γ σ α
  | .ok a => pure a
  | .error fault => fail fault

/-- Reads a global of the host. -/
def readHost (name : String) : Eval γ σ Value := fun w =>
  match w.host.read name with
  | (result, host) => lift result { w with host }

/-- Writes a global of the host. -/
def writeHost (name : String) (value : Value) : Eval γ σ Unit := fun w =>
  match w.host.write name value with
  | .ok host => .ok () { w with host }
  | .error fault => fail fault w

/-- Goes on with the answer of a callable. -/
def answer (call : Calls γ σ) : Outcome → Eval γ σ Value
  | .immediate value => pure value
  | .invoke function args => call function args

/-- Calls a callable of the host. -/
def callHost (call : Calls γ σ) (callable : Callable σ) (name : String) (args : Array Value) :
    Eval γ σ Value := fun w =>
  match w.host.call callable name args with
  | (.error error, host) => .error (.fault error) { w with host }
  | (.ok outcome, host) => answer call outcome { w with host }

/-- Calls a native. -/
def callNative (call : Calls γ σ) (name : String) (args : Array Value) : Eval γ σ Value := fun w =>
  match w.host.natives[name]? with
  | none => fail (.undefinedSymbol name) w
  | some callable => callHost call callable name args w

/-- Calls a method of an object. -/
def callMethod (call : Calls γ σ) (object : Value) (name : String) (args : Array Value) :
    Eval γ σ Value :=
  match object with
  | .object id => fun w =>
    match w.host.method? id name w.host.state with
    | none => fail (.noSuchMethod name) w
    | some callable => callHost call callable name args w
  | other => fail (other.mismatch "object")

/-- Takes turns, at most `fuel` of them, until one of them finishes the loop. The
turns are numbered. -/
def loop (turn : Nat → ν → Eval γ σ (Turn ν)) (fuel k : Nat) (vars : ν) : Eval γ σ (Signal × ν) :=
  match fuel with
  | 0 => throw .exhausted
  | fuel + 1 => do
    match ← turn k vars with
    | .again vars => loop turn fuel (k + 1) vars
    | .finish signal vars => return (signal, vars)

end Eval

end HostScript
