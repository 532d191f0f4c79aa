import HostScript.Proofs.Compile.Tables
import HostScript.Proofs.Emission.Regions
import HostScript.Proofs.Execution.Statements

/-!
# The code of programs

The code of a body ends with a return, wherever its statements end, and closes the call with their
result. So the machine performs the calls of functions, however deep they nest, and the bound
program as a whole.
-/

namespace HostScript

open Machine

variable {σ : Type} {limits : Limits}

namespace Bound

/-- The code of a body closes the call with the result of its statements. -/
theorem Body.performs {u : CodeUnit} {bound fuel start : Nat} {call : Calls (Array Value) σ}
    (hcalls : CallsPerform u limits bound call) (hfuel : bound ≤ fuel) {b : Body}
    (h : Op.Each u.Has start (b.code start)) {function : Option Nat} {callers : List Frame}
    (slots : Slots) :
    Performs u limits bound (.running ⟨function, start, slots, #[]⟩ callers)
      (Stmt.execAll call fuel slots b.statements) fun r => left callers r.1.result := by
  obtain ⟨hstatements, hreturn⟩ := Body.each_code.mp h
  rw [← bind_pure (Stmt.execAll call fuel slots b.statements)]
  refine (Stmt.performs_all hcalls hfuel b.statements _ start slots hstatements).bind fun r => ?_
  obtain ⟨signal, slots⟩ := r
  have hleave : Steps u limits
      (.running ⟨function, start + Stmt.sizes 0 b.statements, slots, #[]⟩ callers)
      (pure () : Eval (Array Value) σ Unit) fun _ => left callers .void :=
    Steps.leave hreturn fun _ _ _ => rfl
  cases signal with
  | next => exact hleave.before (Performs.pure rfl)
  | breakLoop => exact hleave.before (Performs.pure rfl)
  | continueLoop => exact hleave.before (Performs.pure rfl)
  | returned value => exact Performs.pure rfl

namespace Program

variable (program : Program)

/-- A function that the unit does not have is not in the program. -/
theorem functions_eq_none {id : Nat} (h : program.toUnit.functions[id]? = none) :
    program.functions[id]? = none := by
  have hlength := congrArg List.length (Body.signatures_entries program.top.size program.functions)
  rw [toUnit_eq] at h
  simp only [List.length_map, List.getElem?_toArray, List.getElem?_eq_none_iff] at h hlength ⊢
  omega

/-- The unit has the code of a function at the start of its entry. -/
theorem exists_function_code {id : Nat} {entry : Entry}
    (h : program.toUnit.functions[id]? = some entry) :
    ∃ b start, program.functions[id]? = some b ∧ b.entry start = entry ∧
      Op.Each program.toUnit.Has start (b.code start) := by
  obtain ⟨b, hb, hentry, hregion⟩ := function_toUnit h
  obtain ⟨b', hb', -, hcode⟩ := region_toUnit hregion
  obtain rfl : b = b' := Option.some.inj (hb.symm.trans hb')
  exact ⟨b, entry.start, hb, hentry.symm, hcode _ program.each_has_toUnit⟩

/-- What becomes of a call of a function that the unit has. -/
theorem follow_call {u : CodeUnit} {id start : Nat} {b : Body}
    (h : u.functions[id]? = some (b.entry start)) (pc : Nat) (function : Option Nat)
    (caller : Frame) (callers : List Frame) (args : Array Value) :
    follow u limits pc function callers (.call caller id args) =
      if args.size ≠ b.arity then
        .faulted ({ fault := .arityMismatch b.name b.arity args.size : RuntimeError }.locate pc
          (u.trace pc function callers))
      else if limits.callDepth ≤ callers.length + 1 then
        .faulted ({ fault := .callOverflow limits.callDepth : RuntimeError }.locate pc
          (u.trace pc function callers))
      else .running ⟨some id, start, b.slots args, #[]⟩ (caller :: callers) := by
  unfold follow CodeUnit.openCall
  dsimp only
  rw [h]
  dsimp only [Body.entry]
  by_cases harity : args.size ≠ b.arity
  · rw [if_pos harity, if_pos harity]
    rfl
  · rw [if_neg harity, if_neg harity]
    by_cases hdepth : limits.callDepth ≤ callers.length + 1
    · rw [if_pos hdepth, if_pos hdepth]
      rfl
    · rw [if_neg hdepth, if_neg hdepth]
      rfl

/-- A call of a function is opened, unless too many calls are open already. -/
theorem exec_call {u : CodeUnit} {status : Status} {w w' : World (Array Value) σ} {id start : Nat}
    {b : Body} {pc : Nat} {function : Option Nat} {caller : Frame}
    {callers : List Frame} {args : Array Value}
    (hentry : u.functions[id]? = some (b.entry start)) (harity : ¬args.size ≠ b.arity)
    (hexec : ∀ limits, (state u limits status w).1.exec (state u limits status w).2 =
      state u limits (follow u limits pc function callers (.call caller id args)) w')
    (hroom : ¬(state u limits status w).1.LacksRoom (state u limits status w).2) :
    (state u limits status w).1.exec (state u limits status w).2 =
      state u limits (.running ⟨some id, start, b.slots args, #[]⟩ (caller :: callers)) w' := by
  refine exec_of_room (fun limits => callers.length + 1 < limits.callDepth) (fun limits hlt => ?_)
    (fun limits hlt => ?_) ⟨{ callDepth := callers.length + 2 }, Nat.lt_succ_self _⟩ (by simp) hroom
  · rw [hexec limits, follow_call hentry, if_neg harity, if_neg (Nat.not_le.mpr hlt)]
  · rw [hexec limits, follow_call hentry, if_neg harity, if_pos (Nat.not_lt.mp hlt)]
    rfl

/-- The machine performs the calls of functions. -/
theorem callFunction_performs (fuel : Nat) :
    CallsPerform (σ := σ) program.toUnit limits fuel (program.callFunction fuel) := by
  induction fuel using Nat.strongRecOn with
  | _ fuel ih =>
    intro status w w' pc function caller callers id args hexec
    rw [callFunction]
    cases hentry : program.toUnit.functions[id]? with
    | none =>
      have hfault := hexec limits
      simp only [follow, CodeUnit.openCall, hentry] at hfault
      rw [functions_eq_none program hentry]
      exact Reaches.fault hfault
    | some entry =>
      obtain ⟨b, start, hb, rfl, hcode⟩ := exists_function_code program hentry
      rw [hb]
      dsimp only
      by_cases harity : args.size ≠ b.arity
      · have hfault := hexec limits
        rw [follow_call hentry, if_pos harity] at hfault
        rw [if_pos harity]
        exact Reaches.fault hfault
      · rw [if_neg harity]
        cases fuel with
        | zero =>
          exact fun hroom => ⟨1, Nat.zero_le _, _, _, exec_call hentry harity hexec (hroom 0)⟩
        | succ fuel =>
          have hbody : Performs program.toUnit limits fuel
              (.running ⟨some id, start, b.slots args, #[]⟩ (caller :: callers))
              (Stmt.execAll (program.callFunction fuel) fuel (b.slots args)
                  b.statements >>= fun r =>
                pure r.1.result)
              (left (caller :: callers)) :=
            (Body.performs (ih fuel (Nat.lt_succ_self fuel)) (Nat.le_refl fuel) hcode _).bind
              fun r =>
              Performs.pure rfl
          exact Reaches.step (exec_call hentry harity hexec) (hbody w')

/-- A machine with the unit of a bound program performs the program. -/
theorem interpret_reached (limits : Limits) (host : Host σ) (fuel : Nat) :
    Reaches program.toUnit limits fuel (Machine.start program.toUnit limits, host)
      (program.interpret host fuel) fun _ => .done := by
  have hcode : Op.Each program.toUnit.Has 0 (program.top.code 0) :=
    (Op.each_append.mp program.each_has_toUnit).1
  have hstart : (Machine.start program.toUnit limits, host) =
      state program.toUnit limits (.running ⟨none, 0, Array.replicate program.top.locals .void, #[]⟩
          []) ⟨Array.replicate program.globals.size .void, host⟩ := by
    rw [toUnit_eq]
    rfl
  rw [hstart]
  exact Body.performs (callFunction_performs program fuel) (Nat.le_refl fuel) hcode _ _

end Program

end Bound

end HostScript
