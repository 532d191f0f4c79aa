import HostScript.Proofs.Compile.Need
import HostScript.Proofs.Emission.Boundaries
import HostScript.Proofs.Machine.Safety
import HostScript.Proofs.Machine.Transitions

/-!
# Operand heights of a run

Wherever a run of a compiled unit is, every open call holds as many operands as the height of its
offset says, less the result that a waiting call is owed. The host has no part in this: it may fail
as it likes and call back whatever function it likes. So a frame never holds more operands than the
text of its body needs, and none between statements.
-/

namespace HostScript

variable {σ : Type}

/-- Whether a machine that runs has all open calls at their places. -/
def Status.Placed (program : Bound.Program) : Status → Prop
  | .running frame callers => frame.Placed program 0 ∧ ∀ caller ∈ callers, caller.Placed program 1
  | .done | .faulted _ => True

/-- A frame that goes on has as many operands as the instruction leaves. -/
theorem Frame.Continues.moves {i : Instruction} {f g : Frame} (h : f.Continues i g) :
    f.Moves i g 0 := by
  refine ⟨h.function_eq, h.effect.size_locals, ?_⟩
  rcases h.goes with ⟨hfalls, hpc, results, hresults, hstack⟩ | ⟨target, htarget, rfl⟩
  · refine Or.inl ⟨hfalls, hpc, ?_⟩
    rw [hstack, Array.size_append, hresults, Frame.size_stack_without, Nat.add_zero]
  · exact Or.inr ⟨rfl, htarget, Frame.size_stack_without f i.pops⟩

/-- A caller without its arguments is owed one operand. -/
theorem Frame.moves_without {i : Instruction} (hcall : i.isCall) (f : Frame) :
    f.Moves i (f.without i.pops) 1 := by
  obtain ⟨-, hfalls, hpushes⟩ := Instruction.steady_of_isCall hcall
  refine ⟨rfl, rfl, Or.inl ⟨hfalls, rfl, ?_⟩⟩
  rw [Frame.size_stack_without, hpushes]

section Runs

variable {p : Program} {program : Bound.Program}

/-- Every instruction keeps the open calls at their places. -/
theorem Successor.placed (hbind : p.bind = .ok program) {limits : Limits} {f : Frame}
    {callers : List Frame} {status : Status} (h : Successor program.toUnit limits f callers status)
    (hplaced : (Status.running f callers).Placed program) : status.Placed program := by
  obtain ⟨⟨⟨r, hr, hpc, hlocals⟩, hheight⟩, hcallers⟩ := hplaced
  obtain ⟨i, hi, hvalid, hflows, hnext⟩ := instruction_at hbind hr hpc
  have hmoves : ∀ g owed, (f.goto (f.pc + 1)).Moves i g owed → g.Placed program owed :=
    fun g owed hg => hg.placed hr hlocals hheight hvalid hflows hnext
  cases h with
  | fault error => trivial
  | done hcode hreturn hcallers' => trivial
  | proceed hcode hpops hg =>
    obtain rfl := Option.some.inj (hi.symm.trans hcode)
    exact ⟨hmoves _ 0 hg.moves, hcallers⟩
  | @call _ function args callee hcode hpops hcall hopen =>
    obtain rfl := Option.some.inj (hi.symm.trans hcode)
    obtain ⟨entry, hentry, -⟩ := CodeUnit.openCall_eq_ok hopen
    have hfunction : function < program.toUnit.functions.size :=
      (Array.getElem?_eq_some_iff.mp hentry).1
    have hcallee := openCall_benign limits (callers.length + 1) args hfunction
    rw [hopen] at hcallee
    exact ⟨hcallee, List.forall_mem_cons.mpr ⟨hmoves _ 1 (Frame.moves_without hcall _), hcallers⟩⟩
  | resume hcode hreturn hcallers' hroom =>
    subst hcallers'
    obtain ⟨hcaller, hrest⟩ := List.forall_mem_cons.mp hcallers
    refine ⟨⟨hcaller.region, ?_⟩, hrest⟩
    rw [Array.size_push]
    exact hcaller.height

/-- All along a run of a compiled unit the open calls are at their places. -/
theorem execMany_placed (hbind : p.bind = .ok program) (limits : Limits) (host : Host σ) (n : Nat) :
    ((Machine.start program.toUnit limits).execMany host n).1.status.Placed program := by
  have hstart : (Machine.start program.toUnit limits).status.Placed program :=
    (start_sound program limits).status
  exact Machine.status_induction (fun _ _ _ hplaced h => h.placed hbind hplaced) rfl
    rfl hstart host n

/-- A call at its place holds no more operands than the text of its body needs. -/
theorem Frame.Placed.size_le_need (hbind : p.bind = .ok program) {f : Frame} {owed : Nat}
    (h : f.Placed program owed) : f.stack.size ≤ p.need f.function := by
  obtain ⟨r, hr, hpc, -⟩ := h.region
  obtain ⟨b, hb, hregion, hcode⟩ := Bound.Program.region_toUnit hr
  have hboth := (hcode _ program.each_heightAt).and (bind_atMost hbind hb r.start)
  have hstop : f.pc < r.start + (b.code r.start).length := by
    rw [Bound.Body.length_code]
    exact hregion ▸ hpc.2
  obtain ⟨op, hop, hneed⟩ := hboth.exists_at hpc.1 hstop
  calc f.stack.size ≤ program.height f.pc := Nat.le.intro h.height
    _ = op.height := hop
    _ ≤ p.need f.function := hneed

end Runs

/-- Whether a machine has the operands that heights and needs say: the current call as many as the
height of its offset, a call that waits one less, and no call more than it needs. -/
def Machine.AtHeights (height : Nat → Nat) (need : Option Nat → Nat) (m : Machine) : Prop :=
  match m.status with
  | .running frame callers =>
    frame.stack.size = height frame.pc ∧
      (∀ caller ∈ callers, caller.stack.size + 1 = height caller.pc) ∧
      ∀ f ∈ frame :: callers, f.stack.size ≤ need f.function
  | .done | .faulted _ => True

/-- The offsets of a compiled unit have heights, which are zero at the statement boundaries, such
that all along every run, under whatever limits and with any host, every open call has as many
operands as its offset says, and never more than the text of its body needs. -/
theorem compiled_run_atHeights {p : Program} {u : CodeUnit} (hcompile : compile p = .ok u) :
    ∃ (program : Bound.Program) (height : Nat → Nat), p.bind = .ok program ∧ program.toUnit = u ∧
      (∀ pc ∈ program.boundaries, height pc = 0) ∧
      ∀ (σ : Type) (limits : Limits) (host : Host σ) (n : Nat),
        ((Machine.start u limits).execMany host n).1.AtHeights height p.need := by
  obtain ⟨program, hbind, rfl⟩ := compile_eq_ok_iff.mp hcompile
  refine ⟨program, program.height, hbind, rfl, program.height_boundaries, fun σ limits host n => ?_⟩
  have hplaced := execMany_placed hbind limits host n
  unfold Machine.AtHeights
  cases hstatus : ((Machine.start program.toUnit limits).execMany host n).1.status with
  | done => trivial
  | faulted error => trivial
  | running frame callers =>
    rw [hstatus] at hplaced
    obtain ⟨hframe, hcallers⟩ := hplaced
    refine ⟨hframe.height, fun caller hcaller => (hcallers caller hcaller).height, ?_⟩
    exact List.forall_mem_cons.mpr ⟨hframe.size_le_need hbind, fun caller hcaller =>
      (hcallers caller hcaller).size_le_need hbind⟩

/-- The program with a loop that is left early needs two operands in either body, and holds as many
as the heights say, with a host that calls back. -/
theorem searchProgram_run_atHeights :
    searchProgram.need none = 2 ∧ searchProgram.need (some 0) = 2 ∧
      ∃ u program height, compile searchProgram = .ok u ∧ searchProgram.bind = .ok program ∧
        (∀ pc ∈ program.boundaries, height pc = 0) ∧
        ∀ n, ((Machine.start u {}).execMany callbackHost n).1.AtHeights height
          searchProgram.need := by
  obtain ⟨u, hu, -⟩ := compile_searchProgram
  obtain ⟨program, height, hbind, -, hboundaries, hrun⟩ := compiled_run_atHeights hu
  exact ⟨by decide +kernel, by decide +kernel, u, program, height, hu, hbind, hboundaries,
    hrun Unit {} callbackHost⟩

end HostScript
