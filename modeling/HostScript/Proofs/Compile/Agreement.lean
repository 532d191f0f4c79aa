import HostScript.Proofs.Compile.Structure
import HostScript.Proofs.Execution.Programs
import HostScript.Proofs.Semantics.Programs

/-!
# Compiled programs do what they mean

A machine that runs the unit of a program comes to where the meaning of the program leads. It is
done when the program ends, it faults when the program does, for the same reason, and it runs on as
long as the program does. The script globals and the host are then the same.
-/

namespace HostScript

open Machine

variable {σ : Type}

/-- Whether a machine with script globals of the given names, and its host, are after `n`
instructions where the meaning of a program leads with `fuel`. -/
def Agrees (names : List String) (fuel n : Nat) (c : Machine × Host σ) :
    EStateM.Result Halt (World GlobalVars σ) Signal → Prop
  | .ok _ w => c.1.status = .done ∧ SameGlobals names w.globals c.1.globals ∧ c.2 = w.host
  | .error (.fault error) w =>
    (∃ pc trace, c.1.status = .faulted (error.locate pc trace)) ∧
      SameGlobals names w.globals c.1.globals ∧
      c.2 = w.host
  | .error .exhausted w =>
    (fuel ≤ n ∧ c.1.isRunning) ∧ SameGlobals names w.globals c.1.globals ∧ c.2 = w.host

/-- Where the machine arrives for a bound program is where the meaning of the program leads. -/
theorem Arrived.agrees {u : CodeUnit} {limits : Limits} {names : List String} {fuel n : Nat}
    {c : Machine × Host σ} {result : EStateM.Result Halt (World GlobalVars σ) Signal}
    {result' : EStateM.Result Halt (World (Array Value) σ) (Signal × Slots)}
    (h : Arrived u limits fuel n c (fun _ => .done) result')
    (halike : Alike (SameGlobals names) (fun signal r => signal = r.1) result result') :
    Agrees names fuel n c result := by
  cases halike with
  | ok hglobals _ =>
    obtain rfl : c = _ := h
    exact ⟨rfl, hglobals, rfl⟩
  | error halt hglobals =>
    cases halt with
    | fault error =>
      obtain ⟨pc, trace, rfl⟩ := h
      exact ⟨⟨pc, trace, rfl⟩, hglobals, rfl⟩
    | exhausted =>
      obtain ⟨hle, frame, callers, rfl⟩ := h
      exact ⟨⟨hle, rfl⟩, hglobals, rfl⟩

/-- A machine that has stopped is where the meaning of a program leads when it is so at some
time. -/
theorem Agrees.of_stopped {names : List String} {k n : Nat} {c : Machine × Host σ}
    {result : EStateM.Result Halt (World GlobalVars σ) Signal}
    (h : Agrees names (n + 1) k (after c k) result) (hn : (after c n).1.isRunning = false) :
    Agrees names (n + 1) n (after c n) result := by
  have hsame : (after c k).1.isRunning = false → after c n = after c k := after_eq_after hn
  match result, h with
  | .ok _ w, h =>
    rw [hsame (by rw [Machine.isRunning, h.1])]
    exact h
  | .error (.fault error) w, h =>
    obtain ⟨pc, trace, hstatus⟩ := h.1
    rw [hsame (by rw [Machine.isRunning, hstatus])]
    exact h
  | .error .exhausted w, h =>
    -- A machine that has stopped after `n` instructions is not running after more of them.
    obtain ⟨j, rfl⟩ := Nat.exists_eq_add_of_le (Nat.le_of_succ_le h.1.1)
    have hrunning := h.1.2
    rw [after_add_of_not_running hn, hn] at hrunning
    cases hrunning

/-- Whatever a program means, with any host and as long as the limits do not stop it, the machine
that runs its unit comes to; and wherever the machine stops is what the program means. -/
theorem compiled_run_agrees {p : Program} {u : CodeUnit} (hcompile : compile p = .ok u)
    (limits : Limits) (host : Host σ) (hroom : (Machine.start u limits).Unhindered host) :
    (∀ fuel, ∃ n,
      Agrees u.globals.toList fuel n ((Machine.start u limits).execMany host n)
        (p.interpret host fuel)) ∧
      ∀ n, ((Machine.start u limits).execMany host n).1.isRunning = false →
        Agrees u.globals.toList (n + 1) n ((Machine.start u limits).execMany host n)
          (p.interpret host (n + 1)) := by
  obtain ⟨program, hbind, rfl⟩ := compile_eq_ok_iff.mp hcompile
  have hagrees : ∀ fuel, ∃ n, Agrees program.toUnit.globals.toList fuel n
      (after (Machine.start program.toUnit limits, host) n) (p.interpret host fuel) := by
    intro fuel
    obtain ⟨n, hn⟩ := program.interpret_reached limits host fuel hroom
    rw [globals_toUnit hbind]
    exact ⟨n, hn.agrees (interpret_alike hbind host fuel)⟩
  refine ⟨hagrees, fun n hn => ?_⟩
  obtain ⟨k, hk⟩ := hagrees (n + 1)
  exact hk.of_stopped hn

/-- A host with a global that switches the search off. -/
def switchedHost : Host Unit where
  state := ()
  globals := ({} : Std.TreeMap String (Global Unit)).insert "enabled" (.plain (.boolean false))

/-- The search ends with two open calls and three operands at most, and the machine
agrees with its meaning. -/
theorem searchProgram_run_agrees :
    ∃ u, compile searchProgram = .ok u ∧ (Machine.start u ⟨2, 3⟩).Unhindered switchedHost ∧
      Agrees u.globals.toList 37 36 ((Machine.start u ⟨2, 3⟩).execMany switchedHost 36)
        (searchProgram.interpret switchedHost 37) := by
  have hrun : (compile searchProgram).toOption.map (fun u =>
      (((Machine.start u ⟨2, 3⟩).execMany switchedHost 36).1.isRunning,
        ((Machine.start u ⟨2, 3⟩).execMany switchedHost 36).1.fault?)) = some (false, none) := by
    decide +kernel
  obtain ⟨u, hu, -⟩ := compile_searchProgram
  rw [hu] at hrun
  obtain ⟨hstopped, hdone⟩ := Prod.mk.inj (Option.some.inj hrun)
  have hroom : (Machine.start u ⟨2, 3⟩).Unhindered switchedHost :=
    unhindered_of_done (c := (Machine.start u ⟨2, 3⟩, switchedHost)) hstopped hdone
  exact ⟨u, hu, hroom, (compiled_run_agrees hu ⟨2, 3⟩ switchedHost hroom).2 36 hstopped⟩

end HostScript
