import HostScript.Proofs.Machine.Safety
import HostScript.Proofs.Machine.Transitions

/-!
# Calls and their results

While a call is open, its caller and all frames below wait and stay as they are. The first time that
the machine is back at the depth of the caller, without a fault, the caller goes on after the call:
with its locals, and with exactly one value on top of what the arguments lay on. This holds of every
code, compiled or not, and of every host, and whoever opens the call.
-/

namespace HostScript

open Machine

variable {σ : Type}

/-- The frame of a call instruction while the call is open: at the next offset,
without the arguments. -/
def Frame.waiting (f : Frame) (i : Instruction) : Frame :=
  { f with pc := f.pc + 1, stack := f.stack.take (f.stack.size - i.pops) }

/-- Whether a machine runs a call above frames that wait, directly or with more calls in between. -/
def Status.Above (waiting : List Frame) (status : Status) : Prop :=
  ∃ g inner, status = .running g (inner ++ waiting)

namespace Machine

variable {c : Machine × Host σ} {n : Nat}

/-- The last instruction of a number of instructions. -/
theorem after_succ_last (c : Machine × Host σ) (n : Nat) :
    after c (n + 1) = (after c n).1.exec (after c n).2 :=
  after_add c n 1

/-- A run keeps the unit. -/
theorem unit_after (c : Machine × Host σ) (n : Nat) : (after c n).1.unit = c.1.unit := by
  induction n with
  | zero => rfl
  | succ n ih =>
    rw [after_succ_last, (exec_same _ _).1]
    exact ih

/-- A run keeps the limits. -/
theorem limits_after (c : Machine × Host σ) (n : Nat) : (after c n).1.limits = c.1.limits := by
  induction n with
  | zero => rfl
  | succ n ih =>
    rw [after_succ_last, (exec_same _ _).2]
    exact ih

/-- A run that has come so far without a fault has not had one before. -/
theorem fault?_before {k : Nat} (h : (after c n).1.fault? = none) (hle : k ≤ n) :
    (after c k).1.fault? = none := by
  cases hfault : (after c k).1.fault? with
  | none => rfl
  | some error =>
    have hstopped : (after c k).1.isRunning = false := by
      rw [isRunning, fault?_eq_some.mp hfault]
    obtain ⟨j, rfl⟩ := Nat.exists_eq_add_of_le hle
    rw [after_add_of_not_running hstopped, hfault] at h
    cases h

end Machine

namespace Successor

variable {u : CodeUnit} {limits : Limits} {f caller : Frame} {callers inner : List Frame}
  {status : Status} {m : Machine}

/-- A machine that has become deeper has opened a call, above the caller that waits. -/
theorem opened (h : Successor u limits f callers status) (hm : m.status = status)
    (hdepth : callers.length + 1 < m.depth) :
    ∃ i function args callee, u.code[f.pc]? = some i ∧ i.isCall ∧ i.pops ≤ f.stack.size ∧
      u.openCall limits (callers.length + 1) function args = .ok callee ∧
      status = .running callee (f.waiting i :: callers) := by
  rw [depth, hm] at hdepth
  cases h with
  | call hcode hpops hcall hopen => exact ⟨_, _, _, _, hcode, hcall, hpops, hopen, rfl⟩
  | fault error => exact absurd hdepth (Nat.not_lt_zero _)
  | proceed hcode hpops hg => exact absurd hdepth (Nat.lt_irrefl _)
  | resume hcode hreturn hcallers hroom =>
    rw [hcallers, List.length_cons] at hdepth
    exact absurd hdepth (by dsimp only; omega)
  | done hcode hreturn hcallers => exact absurd hdepth (Nat.not_lt_zero _)

/-- An instruction above a caller that waits stops the machine, stays above the caller, or is the
return that hands a value to the caller. -/
theorem above_or_returned (h : Successor u limits f (inner ++ caller :: callers) status) :
    (∃ error, status = .faulted error) ∨ status.Above (caller :: callers) ∨
      inner = [] ∧ ∃ i value, u.code[f.pc]? = some i ∧ i.Returns f.stack value ∧
        status = .running { caller with stack := caller.stack.push value } callers := by
  cases h with
  | fault error => exact Or.inl ⟨error, rfl⟩
  | proceed hcode hpops hg => exact Or.inr (Or.inl ⟨_, inner, rfl⟩)
  | call hcode hpops hcall hopen => exact Or.inr (Or.inl ⟨_, _ :: inner, rfl⟩)
  | done hcode hreturn hcallers => simp at hcallers
  | resume hcode hreturn hcallers hroom =>
    cases inner with
    | nil =>
      obtain ⟨rfl, rfl⟩ := List.cons.inj hcallers
      exact Or.inr (Or.inr ⟨rfl, _, _, hcode, hreturn, rfl⟩)
    | cons g inner =>
      obtain ⟨rfl, rfl⟩ := List.cons.inj hcallers
      exact Or.inr (Or.inl ⟨_, inner, rfl⟩)

end Successor

section Runs

variable {c : Machine × Host σ} {caller : Frame} {callers : List Frame} {n : Nat}

/-- One instruction above a caller that waits, in a run without a fault. -/
theorem Status.Above.exec (h : c.1.status.Above (caller :: callers))
    (hfault : (c.1.exec c.2).1.fault? = none) :
    (c.1.exec c.2).1.status.Above (caller :: callers) ∨
      ∃ g i value, c.1.status = .running g (caller :: callers) ∧ c.1.unit.code[g.pc]? = some i ∧
        i.Returns g.stack value ∧
        (c.1.exec c.2).1.status =
          .running { caller with stack := caller.stack.push value } callers := by
  obtain ⟨g, inner, hstatus⟩ := h
  rcases (exec_successor hstatus c.2).above_or_returned with
    ⟨error, hstop⟩ | habove | ⟨rfl, i, value, hreturn⟩
  · rw [fault?_eq_some.mpr hstop] at hfault
    cases hfault
  · exact Or.inl habove
  · exact Or.inr ⟨g, i, value, hstatus, hreturn⟩

/-- As long as the machine is deeper than a caller that waits, it stays above the caller. -/
theorem Status.Above.after (h : c.1.status.Above (caller :: callers))
    (hfault : (after c n).1.fault? = none)
    (hdeep : ∀ k, k ≤ n → callers.length + 1 < (after c k).1.depth) :
    (after c n).1.status.Above (caller :: callers) := by
  induction n with
  | zero => exact h
  | succ n ih =>
    have habove := ih (fault?_before hfault (Nat.le_succ n))
      fun k hk => hdeep k (Nat.le_succ_of_le hk)
    rw [after_succ_last] at hfault ⊢
    rcases habove.exec hfault with habove | ⟨g, i, value, -, -, -, hback⟩
    · exact habove
    · have hdepth := hdeep (n + 1) (Nat.le_refl _)
      rw [after_succ_last, depth, hback] at hdepth
      exact absurd hdepth (Nat.lt_irrefl _)

/-- Whatever the code, the host and the limits: if an instruction opens a call and the machine is
later back at the depth of the caller or below for the first time, without a fault, then the
instruction is a call, the caller and all frames below it stay as they are while the call is open,
and the last instruction is the return that hands its value to the caller. The caller goes on after
the call, with its locals and that value. -/
theorem call_returns {f : Frame} (hstatus : c.1.status = .running f callers)
    (hopens : (c.1.exec c.2).1.depth = c.1.depth + 1)
    (hback : (after c (n + 1)).1.depth ≤ c.1.depth) (hfault : (after c (n + 1)).1.fault? = none)
    (hfirst : ∀ k,
        1 ≤ k → k ≤ n → ¬((after c k).1.depth ≤ c.1.depth ∧ (after c k).1.fault? = none)) :
    ∃ i, c.1.unit.code[f.pc]? = some i ∧ i.isCall ∧ i.pops ≤ f.stack.size ∧
      (∀ k, 1 ≤ k → k ≤ n → (after c k).1.status.Above (f.waiting i :: callers)) ∧
      ∃ g j value, (after c n).1.status = .running g (f.waiting i :: callers) ∧
        c.1.unit.code[g.pc]? = some j ∧ j.Returns g.stack value ∧
        (after c (n + 1)).1.status =
          .running { f.waiting i with stack := (f.waiting i).stack.push value } callers ∧
        (after c (n + 1)).1.depth = c.1.depth := by
  have hdepth : c.1.depth = callers.length + 1 := by rw [depth, hstatus]
  rw [hdepth] at hopens hback hfirst ⊢
  have hdeeper : callers.length + 1 < (c.1.exec c.2).1.depth := by omega
  obtain ⟨i, -, -, callee, hcode, hcall, hpops, -, hrunning⟩ :=
    (exec_successor hstatus c.2).opened rfl hdeeper
  have hopened : (c.1.exec c.2).1.status.Above (f.waiting i :: callers) := ⟨callee, [], hrunning⟩
  have habove : ∀ k, 1 ≤ k → k ≤ n → (after c k).1.status.Above (f.waiting i :: callers) := by
    intro k hk hkn
    obtain ⟨k, rfl⟩ := Nat.exists_eq_add_of_le' hk
    have hnone : (after c (k + 1)).1.fault? = none := fault?_before hfault (Nat.le_succ_of_le hkn)
    refine hopened.after hnone fun l hl => ?_
    have hnot := hfirst (l + 1) (Nat.le_add_left 1 l) (by omega)
    exact Nat.not_le.mp fun hle => hnot ⟨hle, fault?_before hfault (by omega)⟩
  have hn : 1 ≤ n := by
    refine Nat.one_le_iff_ne_zero.mpr fun hzero => ?_
    subst hzero
    have hback : (c.1.exec c.2).1.depth ≤ callers.length + 1 := hback
    omega
  refine ⟨i, hcode, hcall, hpops, habove, ?_⟩
  rw [after_succ_last] at hback hfault ⊢
  rcases (habove n hn (Nat.le_refl n)).exec hfault with
    ⟨g, inner, hdeep⟩ | ⟨g, j, value, hg, hj, hvalue, hresumed⟩
  · rw [depth, hdeep] at hback
    have hback : (inner ++ f.waiting i :: callers).length + 1 ≤ callers.length + 1 := hback
    simp at hback
    omega
  · rw [unit_after] at hj
    exact ⟨g, j, value, hg, hj, hvalue, hresumed, by rw [depth, hresumed]⟩

/-- Code that calls a native, which calls back the first function, which calls the second one. -/
def callbackUnit : CodeUnit where
  code := #[.pushBool true, .pushNumber 1.0, .pushString 0, .callNative 0 2, .pop, .pop,
    .returnVoid, .loadLocal 1, .callScript 1 1, .pop, .loadLocal 1, .returnValue, .returnVoid]
  strings := #["again"]
  functions := #[⟨"find", 7, 2, 2⟩, ⟨"skip", 12, 1, 1⟩]
  top := ⟨topLevelName, 0, 0, 0⟩

/-- The machine and the host before the native is called. -/
def callbackStart : Machine × Host Unit :=
  after (Machine.start callbackUnit {}, callbackHost) 3

/-- A native calls back a function, which calls another one: when the machine is back at
the caller of the native, the caller has kept its first operand, and its arguments have
made way for the result. -/
theorem callbackUnit_returns :
    (callbackStart.1.exec callbackStart.2).1.depth = callbackStart.1.depth + 1 ∧
      (after callbackStart 7).1.depth = callbackStart.1.depth ∧
      ∃ i value, callbackUnit.code[3]? = some i ∧ i.isCall ∧
        (after callbackStart 7).1.status = .running ⟨none, 4, #[], #[.boolean true, value]⟩ [] := by
  have hstatus : callbackStart.1.status =
      .running ⟨none, 3, #[], #[.boolean true, .number 1.0, .string "again"]⟩ [] := rfl
  have hopens : (callbackStart.1.exec callbackStart.2).1.depth = callbackStart.1.depth + 1 := by
    decide +kernel
  have hdeep : ∀ k, k ≤ 6 → 1 ≤ k → callbackStart.1.depth < (after callbackStart k).1.depth := by
    decide +kernel
  have hfault : (after callbackStart 7).1.fault? = none :=
    Option.isNone_iff_eq_none.mp (by decide +kernel)
  obtain ⟨i, hcode, hcall, -, -, g, j, value, -, -, -, hresumed, hdepth⟩ :=
    call_returns hstatus hopens (by decide +kernel : (after callbackStart 7).1.depth ≤ _) hfault
      fun k hk hk' hshallow => Nat.not_le.mpr (hdeep k hk' hk) hshallow.1
  obtain rfl : Instruction.callNative 0 2 = i := Option.some.inj hcode
  refine ⟨hopens, hdepth, _, value, rfl, hcall, ?_⟩
  rw [hresumed]
  simp [Frame.waiting]

end Runs

end HostScript
