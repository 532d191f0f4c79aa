import HostScript.Proofs.Compile.Confined
import HostScript.Proofs.Machine.Calls

/-!
# Stretches of code

A call in a stretch of code is the current call and at an offset of the stretch, or it waits for a
call that it has opened from there. It leaves the stretch when it is the current call at another
offset for the first time. Until then it has executed nothing but code of the stretch, whatever the
calls above it have done: it has gone only where that code jumps to, and the slots that the code
does not overwrite are as they were.
-/

namespace HostScript

open Machine

variable {σ : Type}

/-- Whether the call above some callers is in the stretch of code from `lo` to `hi`. -/
def Status.Inside (lo hi : Nat) (callers : List Frame) (status : Status) : Prop :=
  ∃ f, (status = .running f callers ∧ lo ≤ f.pc ∧ f.pc < hi) ∨
    ∃ g above, status = .running g (above ++ f :: callers) ∧ lo < f.pc ∧ f.pc ≤ hi

/-- Whether the call above some callers has been in the stretch of code from `lo` to `hi` for `k`
instructions and is at an offset outside of it now. -/
structure Machine.Departs (lo hi : Nat) (callers : List Frame) (c : Machine × Host σ) (k : Nat)
    (g : Frame) : Prop where
  inside : ∀ j, j < k → (after c j).1.status.Inside lo hi callers
  status_eq : (after c k).1.status = .running g callers
  outside : ¬(lo ≤ g.pc ∧ g.pc < hi)

/-- Whether the code from `lo` to `hi` jumps only to certain offsets, the own ones and the end among
them, and overwrites only certain slots. -/
structure CodeUnit.Confines (u : CodeUnit) (lo hi : Nat) (offsets slots : Nat → Prop) : Prop where
  offsets_of_le : ∀ pc, lo ≤ pc → pc ≤ hi → offsets pc
  keepsTo : ∀ pc, lo ≤ pc → pc < hi → ∃ i, u.code[pc]? = some i ∧ i.KeepsTo offsets slots

/-- Whether a frame has what another one has in the slots that are not overwritten. -/
def Frame.Keeps (slots : Nat → Prop) (f g : Frame) : Prop :=
  ∀ slot, ¬slots slot → g.locals[slot]? = f.locals[slot]?

/-- Whether a frame is that of the call above some callers, which has come to a stretch of code and
is not further than where that code jumps to. -/
inductive Status.Follows (lo hi : Nat) (offsets : Nat → Prop) (callers : List Frame)
    (f : Frame) : Status → Prop
  | current (hpc : offsets f.pc) : Follows lo hi offsets callers f (.running f callers)
  | waiting (g : Frame) (above : List Frame) (hlo : lo < f.pc) (hhi : f.pc ≤ hi) :
    Follows lo hi offsets callers f (.running g (above ++ f :: callers))

section Steps

variable {lo hi : Nat} {offsets slots : Nat → Prop} {callers : List Frame} {f g : Frame}
  {u : CodeUnit}

/-- A slot that an instruction does not overwrite keeps its value. -/
theorem Instruction.Effect.getElem?_eq {i : Instruction} (h : i.Effect f g) {slot : Nat}
    (hslot : slot ∉ i.writes) : g.locals[slot]? = f.locals[slot]? := by
  cases i with
  | storeLocal written =>
    obtain ⟨value, -, hlocals⟩ := h
    have hne : written ≠ slot := fun heq => hslot (List.mem_singleton.mpr heq.symm)
    rw [hlocals, Array.getElem?_setIfInBounds_ne hne]
  | iterNext array cursor exit =>
    have hne : cursor ≠ slot := fun heq => hslot (List.mem_singleton.mpr heq.symm)
    obtain ⟨n, items, -, -, ⟨item, -, -, hlocals⟩ | ⟨-, hlocals⟩⟩ := h
    · rw [hlocals, Array.getElem?_setIfInBounds_ne hne]
    · rw [hlocals]
  | _ => rw [h.locals_eq rfl]

/-- A frame that goes on keeps the slots that the instruction may not overwrite. -/
theorem Frame.Continues.keeps {i : Instruction} (h : f.Continues i g)
    (hi : i.KeepsTo offsets slots) : f.Keeps slots g :=
  fun slot hslot => h.effect.getElem?_eq fun hmem => hslot (hi.writes slot hmem)

/-- A list of callers does not have more callers than itself. -/
theorem ne_append_cons (callers above : List Frame) (f : Frame) :
    callers ≠ above ++ f :: callers := by
  intro heq
  have hlength := congrArg List.length heq
  rw [List.length_append, List.length_cons] at hlength
  omega

/-- A current call in a stretch is at an offset of the stretch. -/
theorem Status.Inside.pc_mem (h : (Status.running f callers).Inside lo hi callers) :
    lo ≤ f.pc ∧ f.pc < hi := by
  obtain ⟨f', ⟨heq, hpc⟩ | ⟨g, above, heq, -⟩⟩ := h
  · obtain ⟨rfl, -⟩ := Status.running.inj heq
    exact hpc
  · exact absurd (Status.running.inj heq).2 (ne_append_cons callers above f')

theorem Status.Inside.above {status : Status} (h : status.Inside lo hi callers) :
    status.Above callers := by
  obtain ⟨f, ⟨heq, -⟩ | ⟨g, above, heq, -⟩⟩ := h
  · exact ⟨f, [], heq⟩
  · exact ⟨g, above ++ [f], by rw [heq, List.append_assoc]; rfl⟩

/-- What an instruction of the current call may make of the frame of a call in a stretch of code,
which is the current one or waits for it. -/
inductive Frame.Advances (u : CodeUnit) (lo hi : Nat) (f current : Frame) : Frame → Prop
  | proceed {i : Instruction} {g : Frame} (heq : f = current) (hpc : lo ≤ f.pc ∧ f.pc < hi)
      (hcode : u.code[f.pc]? = some i) (hg : (f.goto (f.pc + 1)).Continues i g) :
      Advances u lo hi f current g
  | call {i : Instruction} (heq : f = current) (hpc : lo ≤ f.pc ∧ f.pc < hi)
      (hcode : u.code[f.pc]? = some i) :
      Advances u lo hi f current ((f.goto (f.pc + 1)).without i.pops)
  | wait : Advances u lo hi f current f
  | resume (value : Value) : Advances u lo hi f current { f with stack := f.stack.push value }

/-- An instruction of a call in a stretch of code. The call goes on in the stretch or where its code
jumps to, unless it ends. -/
theorem Status.Follows.advances {limits : Limits} {current : Frame} {waiting : List Frame}
    {next : Status} (hu : u.Confines lo hi offsets slots)
    (hinside : (Status.running current waiting).Inside lo hi callers)
    (h : (Status.running current waiting).Follows lo hi offsets callers f)
    (hnext : Successor u limits current waiting next) (habove : next.Above callers) :
    ∃ f', f.Advances u lo hi current f' ∧ next.Follows lo hi offsets callers f' := by
  cases h with
  | current hpc =>
    obtain ⟨hlo, hhi⟩ := hinside.pc_mem
    obtain ⟨i, hi, hkeepsTo⟩ := hu.keepsTo f.pc hlo hhi
    cases hnext with
    | fault error =>
      obtain ⟨g, inner, heq⟩ := habove
      cases heq
    | done hcode hreturn hcallers =>
      obtain ⟨g, inner, heq⟩ := habove
      cases heq
    | @proceed _ g hcode hpops hg =>
      obtain rfl := Option.some.inj (hi.symm.trans hcode)
      refine ⟨g, .proceed rfl ⟨hlo, hhi⟩ hcode hg, .current ?_⟩
      rcases hg.goes with ⟨-, hpc, -⟩ | ⟨target, htarget, hgoto⟩
      · rw [hpc]
        exact hu.offsets_of_le (f.pc + 1) (Nat.le_succ_of_le hlo) hhi
      · rw [hgoto]
        exact hkeepsTo.jumps target htarget
    | @call i _ _ _ hcode hpops hcall hopen =>
      exact ⟨_, .call rfl ⟨hlo, hhi⟩ hcode, .waiting _ [] (Nat.lt_succ_of_le hlo) hhi⟩
    | resume hcode hreturn hcallers hroom =>
      obtain ⟨g, inner, heq⟩ := habove
      obtain ⟨-, hrest⟩ := Status.running.inj heq
      rw [hcallers] at hrest
      exact absurd hrest (ne_append_cons _ inner _)
  | waiting g above hlo hhi =>
    rcases hnext.above_or_returned with ⟨error, rfl⟩ | ⟨g', inner, rfl⟩ | ⟨-, i, value, -, -, rfl⟩
    · obtain ⟨g, inner, heq⟩ := habove
      cases heq
    · exact ⟨f, .wait, .waiting g' inner hlo hhi⟩
    · exact ⟨_, .resume value, .current (hu.offsets_of_le f.pc (Nat.le_of_lt hlo) hhi)⟩

/-- An instruction keeps the slots that the code of the stretch does not overwrite. -/
theorem Frame.Advances.keeps {current f' : Frame} (h : f.Advances u lo hi current f')
    (hu : u.Confines lo hi offsets slots) : f.Keeps slots f' := by
  cases h with
  | proceed heq hpc hcode hg =>
    obtain ⟨i, hi, hkeepsTo⟩ := hu.keepsTo f.pc hpc.1 hpc.2
    obtain rfl := Option.some.inj (hi.symm.trans hcode)
    exact hg.keeps hkeepsTo
  | call heq hpc hcode => exact fun _ _ => rfl
  | wait => exact fun _ _ => rfl
  | resume value => exact fun _ _ => rfl

end Steps

namespace Machine.Departs

variable {lo hi k : Nat} {offsets slots : Nat → Prop} {callers : List Frame} {f g : Frame}
  {c : Machine × Host σ}

theorem tail (h : Departs lo hi callers c (k + 1) g) : Departs lo hi callers (after c 1) k g where
  inside j hj := h.inside (j + 1) (Nat.succ_lt_succ hj)
  status_eq := h.status_eq
  outside := h.outside

/-- As long as a call is in a stretch of code, or has just left it, it is open. -/
theorem above (h : Departs lo hi callers c k g) : c.1.status.Above callers := by
  cases k with
  | zero => exact ⟨g, [], h.status_eq⟩
  | succ k => exact (h.inside 0 (Nat.succ_pos k)).above

/-- A call that leaves a stretch of code is where that code jumps to or at its end, and has kept the
slots that the code does not overwrite. -/
theorem keeps (h : Departs lo hi callers c k g) (hu : c.1.unit.Confines lo hi offsets slots)
    (hf : c.1.status.Follows lo hi offsets callers f) : f.Keeps slots g ∧ offsets g.pc := by
  induction k generalizing c f with
  | zero =>
    have hstatus : c.1.status = .running g callers := h.status_eq
    generalize c.1.status = status at hf hstatus
    cases hf with
    | current hpc =>
      obtain ⟨rfl, -⟩ := Status.running.inj hstatus
      exact ⟨fun _ _ => rfl, hpc⟩
    | waiting g' above hlo hhi =>
      exact absurd (Status.running.inj hstatus).2.symm (ne_append_cons callers above f)
  | succ k ih =>
    have hinside : c.1.status.Inside lo hi callers := h.inside 0 (Nat.succ_pos k)
    have habove := h.tail.above
    cases hstatus : c.1.status with
    | running current waiting =>
      rw [hstatus] at hinside hf
      obtain ⟨f', hadvances, hfollows⟩ := hf.advances hu hinside (exec_successor hstatus c.2) habove
      have hunit : (after c 1).1.unit = c.1.unit := unit_after c 1
      obtain ⟨hkeeps', hoffset⟩ := ih h.tail (hunit ▸ hu) hfollows
      exact ⟨fun slot hslot => (hkeeps' slot hslot).trans (hadvances.keeps hu slot hslot), hoffset⟩
    | done =>
      obtain ⟨g', inner, heq⟩ := hinside.above
      cases hstatus.symm.trans heq
    | faulted error =>
      obtain ⟨g', inner, heq⟩ := hinside.above
      cases hstatus.symm.trans heq

end Machine.Departs

end HostScript
