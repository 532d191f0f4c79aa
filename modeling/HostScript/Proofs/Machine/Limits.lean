import HostScript.Proofs.Machine.Transitions

/-!
# Larger limits

A machine looks at its limits where an instruction pushes an operand, where it opens a call, and
where it hands the result of a call to the caller. As long as none of these checks stops it, it runs
under larger limits as it does under its own, instruction by instruction. An overflow that a native
reports by itself is no such check: it stops the machine under all limits.
-/

namespace HostScript

variable {σ : Type}

namespace Machine

/-- Whether the next instruction is stopped by one of the limits of the machine. -/
inductive HitsLimit (m : Machine) (host : Host σ) : Prop
  /-- It pushes a value, whatever the limit is, and the frame is full. -/
  | operand {f g : Frame} {callers : List Frame} {i : Instruction} {value : Value} {host' : Host σ}
      (hstatus : m.status = .running f callers) (hcode : m.unit.code[f.pc]? = some i)
      (hpush : ∀ limit, i.act m.unit limit m.globals (f.goto (f.pc + 1)) host =
        Instruction.quietly host' (g.deliver limit value))
      (hfull : m.limits.operands ≤ g.stack.size)
  /-- It calls a function with as many arguments as this has parameters, and no more
  calls may be open. -/
  | call {f g : Frame} {callers : List Frame} {i : Instruction}
      {function : Nat} {args : Array Value} {entry : Entry}
      (hstatus : m.status = .running f callers) (hcode : m.unit.code[f.pc]? = some i)
      (hact : (i.act m.unit m.limits.operands m.globals (f.goto (f.pc + 1)) host).1 =
        .ok (.call g function args))
      (hentry : m.unit.functions[function]? = some entry) (harity : args.size = entry.arity)
      (hdepth : m.limits.callDepth ≤ callers.length + 1)
  /-- It returns a value to a caller whose frame is full. -/
  | result {f caller : Frame} {callers : List Frame} {i : Instruction} {value : Value}
      (hstatus : m.status = .running f (caller :: callers)) (hcode : m.unit.code[f.pc]? = some i)
      (hact : (i.act m.unit m.limits.operands m.globals (f.goto (f.pc + 1)) host).1 =
          .ok (.leave value)) (hfull : m.limits.operands ≤ caller.stack.size)

section Step

variable {u : CodeUnit} {limits larger : Limits}

/-- A call that is opened within the limits, or refused for another reason, is so
under larger limits. -/
theorem openCall_of_larger (hcalls : limits.callDepth ≤ larger.callDepth) {depth function : Nat}
    {args : Array Value}
    (h : ∀ entry, u.functions[function]? = some entry → args.size = entry.arity →
        depth < limits.callDepth) :
    u.openCall larger depth function args = u.openCall limits depth function args := by
  unfold CodeUnit.openCall
  cases hentry : u.functions[function]? with
  | none => rfl
  | some entry =>
    dsimp only
    by_cases harity : args.size = entry.arity
    · have hdepth := h entry hentry harity
      rw [if_neg (not_not_intro harity), if_neg (not_not_intro harity), if_neg (by omega),
        if_neg (by omega)]
    · rw [if_pos harity, if_pos harity]

/-- What follows an action within the limits follows it under larger limits. -/
theorem follow_of_larger (hcalls : limits.callDepth ≤ larger.callDepth)
    (hoperands : limits.operands ≤ larger.operands) {pc : Nat} {function : Option Nat}
    {callers : List Frame} {action : Action}
    (hcall : ∀ g id args entry, action = .call g id args → u.functions[id]? = some entry →
      args.size = entry.arity → callers.length + 1 < limits.callDepth)
    (hresult : ∀ value caller rest, action = .leave value → callers = caller :: rest →
      caller.stack.size < limits.operands) :
    follow u larger pc function callers action = follow u limits pc function callers action := by
  cases action with
  | proceed g => rfl
  | assign g id value => rfl
  | call g id args =>
    simp only [follow, openCall_of_larger hcalls fun entry => hcall g id args entry rfl]
  | leave value =>
    cases callers with
    | nil => rfl
    | cons caller rest =>
      have hroom := hresult value caller rest rfl rfl
      simp only [follow, Frame.push, if_pos hroom, if_pos (Nat.lt_of_lt_of_le hroom hoperands)]

/-- An instruction that is not stopped by a limit does the same under larger limits. -/
theorem exec_of_larger {m : Machine} {host : Host σ}
    (hcalls : m.limits.callDepth ≤ larger.callDepth)
    (hoperands : m.limits.operands ≤ larger.operands) (h : ¬m.HitsLimit host) :
    { m with limits := larger }.exec host =
      ({ (m.exec host).1 with limits := larger }, (m.exec host).2) := by
  obtain ⟨u, limits, globals, status⟩ := m
  cases status with
  | done => rfl
  | faulted error => rfl
  | running f callers =>
    cases hcode : u.code[f.pc]? with
    | none => simp only [exec, hcode]
    | some i =>
      rcases i.act_eq_or_push u globals (f.goto (f.pc + 1)) host with
        ⟨⟨result, host'⟩, hsame⟩ | ⟨g, value, host', hpush⟩
      · cases result with
        | error error => simp only [exec, hcode, hsame]
        | ok action =>
          have hact := congrArg Prod.fst (hsame limits.operands)
          simp only [exec, hcode, hsame]
          rw [follow_of_larger hcalls hoperands]
          · rintro g id args entry rfl hentry harity
            exact Nat.lt_of_not_le fun hdepth => h (.call rfl hcode hact hentry harity hdepth)
          · rintro value caller rest rfl rfl
            exact Nat.lt_of_not_le fun hfull => h (.result rfl hcode hact hfull)
      · have hroom : g.stack.size < limits.operands :=
          Nat.lt_of_not_le fun hfull => h (.operand rfl hcode hpush hfull)
        have hlarger : g.stack.size < larger.operands := Nat.lt_of_lt_of_le hroom hoperands
        simp only [exec, hcode, hpush, Frame.deliver_of_lt hroom, Frame.deliver_of_lt hlarger]
        rfl

/-- Instructions that are not stopped by a limit do the same under larger limits. -/
theorem execMany_of_larger {m : Machine} {host : Host σ}
    (hcalls : m.limits.callDepth ≤ larger.callDepth)
    (hoperands : m.limits.operands ≤ larger.operands) {k : Nat}
    (h : ∀ j < k, ¬(m.execMany host j).1.HitsLimit (m.execMany host j).2) :
    { m with limits := larger }.execMany host k =
      ({ (m.execMany host k).1 with limits := larger }, (m.execMany host k).2) := by
  induction k generalizing m host with
  | zero => rfl
  | succ k ih =>
    have hlimits := (m.exec_same host).2
    have hfirst : { m with limits := larger }.exec host =
        ({ (m.exec host).1 with limits := larger }, (m.exec host).2) :=
      exec_of_larger hcalls hoperands (h 0 (Nat.succ_pos k))
    change Machine.execMany ({ m with limits := larger }.exec host).1
      ({ m with limits := larger }.exec host).2 k = _
    rw [hfirst]
    apply ih
    · rwa [hlimits]
    · rwa [hlimits]
    · intro j hj
      exact h (j + 1) (Nat.succ_lt_succ hj)

end Step

section Overflow

variable {m : Machine} {host : Host σ}

/-- An instruction that is stopped by a limit fails with an overflow of that limit. -/
theorem HitsLimit.overflow (h : m.HitsLimit host) :
    ∃ error, (m.exec host).1.fault? = some error ∧
      (error.fault = .operandOverflow m.limits.operands ∨
        error.fault = .callOverflow m.limits.callDepth) := by
  cases h with
  | operand hstatus hcode hpush hfull =>
    rw [exec_eq_settle hstatus hcode, hpush, Frame.deliver_of_le hfull]
    exact ⟨_, rfl, Or.inl rfl⟩
  | @call f g callers i function args entry hstatus hcode hact hentry harity hdepth =>
    have hopen : m.unit.openCall m.limits (callers.length + 1) function args =
        .error (.callOverflow m.limits.callDepth) := by
      simp only [CodeUnit.openCall, hentry]
      rw [if_neg (not_not_intro harity), if_pos hdepth]
    rw [exec_eq_settle hstatus hcode, hact]
    simp only [settle, follow, hopen]
    exact ⟨_, rfl, Or.inr rfl⟩
  | result hstatus hcode hact hfull =>
    rw [exec_eq_settle hstatus hcode, hact]
    simp only [settle, follow, Frame.push, if_neg (Nat.not_lt.mpr hfull)]
    exact ⟨_, rfl, Or.inl rfl⟩

/-- An instruction that fails in the same way under all limits is not stopped by one, even if the
error is an overflow that a native reports. -/
theorem not_hitsLimit_of_act_error {f : Frame} {callers : List Frame} {i : Instruction}
    {error : RuntimeError} {host' : Host σ} (hstatus : m.status = .running f callers)
    (hcode : m.unit.code[f.pc]? = some i) (hact : ∀ limit,
      i.act m.unit limit m.globals (f.goto (f.pc + 1)) host = (.error error, host')) :
    ¬m.HitsLimit host := by
  intro h
  cases h with
  | @operand _ g _ _ value _ hstatus' hcode' hpush _ =>
    obtain ⟨rfl, rfl⟩ := Status.running.inj (hstatus.symm.trans hstatus')
    obtain rfl := Option.some.inj (hcode.symm.trans hcode')
    -- With enough room the push would succeed.
    have hroom := (hact (g.stack.size + 1)).symm.trans (hpush (g.stack.size + 1))
    rw [Frame.deliver_of_lt (Nat.lt_succ_self _)] at hroom
    cases hroom
  | call hstatus' hcode' hact' _ _ _ =>
    obtain ⟨rfl, rfl⟩ := Status.running.inj (hstatus.symm.trans hstatus')
    obtain rfl := Option.some.inj (hcode.symm.trans hcode')
    rw [hact] at hact'
    cases hact'
  | result hstatus' hcode' hact' _ =>
    obtain ⟨rfl, rfl⟩ := Status.running.inj (hstatus.symm.trans hstatus')
    obtain rfl := Option.some.inj (hcode.symm.trans hcode')
    rw [hact] at hact'
    cases hact'

end Overflow

end Machine

open Machine

/-- Whatever the unit and the host, and as long as no instruction is stopped by a limit, a run is
the same under larger limits: after every number of instructions the status with all frames or the
fault, the script globals and the host are the same. -/
theorem same_run_of_larger_limits (u : CodeUnit) {limits larger : Limits}
    (hcalls : limits.callDepth ≤ larger.callDepth) (hoperands : limits.operands ≤ larger.operands)
    (host : Host σ) {k : Nat}
    (h : ∀ j < k, ¬((start u limits).execMany host j).1.HitsLimit
      ((start u limits).execMany host j).2) :
    ∀ j ≤ k, (start u larger).execMany host j =
      ({ ((start u limits).execMany host j).1 with limits := larger },
        ((start u limits).execMany host j).2) := by
  intro j hj
  have hbefore : ∀ l < j, ¬((start u limits).execMany host l).1.HitsLimit
      ((start u limits).execMany host l).2 := fun l hl => h l (Nat.lt_of_lt_of_le hl hj)
  exact execMany_of_larger hcalls hoperands hbefore

/-- Code that calls a native, which calls back a function, which passes its operand
to another native. -/
def refusedUnit : CodeUnit where
  code := #[.callNative 0 0, .pop, .returnVoid, .pushNumber 1.0, .callNative 1 1, .returnValue]
  strings := #["again", "refuse"]
  functions := #[⟨"f", 3, 0, 0⟩]
  top := ⟨topLevelName, 0, 0, 0⟩

/-- A host whose second native reports an overflow, as a machine does that may hold one operand. -/
def refusingHost : Host Unit where
  state := ()
  natives := (({} : Std.TreeMap String (Callable Unit)).insert "again" (.script ⟨0, "f", 0⟩)).insert
    "refuse" (.native none fun _ state => (.error { fault := .operandOverflow 1 }, state))

/-- With two open calls and one operand as limits, no instruction is stopped by them, though the run
ends with an overflow. It does so under larger limits too. -/
theorem refusedUnit_same_run :
    (∀ j < 3, ¬((start refusedUnit ⟨2, 1⟩).execMany refusingHost j).1.HitsLimit
      ((start refusedUnit ⟨2, 1⟩).execMany refusingHost j).2) ∧
    ((start refusedUnit ⟨2, 1⟩).execMany refusingHost 3).1.fault?.map (·.fault) =
      some (.operandOverflow 1) ∧
    (start refusedUnit ⟨9, 9⟩).execMany refusingHost 3 =
      ({ ((start refusedUnit ⟨2, 1⟩).execMany refusingHost 3).1 with limits := ⟨9, 9⟩ },
        ((start refusedUnit ⟨2, 1⟩).execMany refusingHost 3).2) := by
  have hfirst :
      ∀ j < 2, (after (start refusedUnit ⟨2, 1⟩, refusingHost) (j + 1)).1.fault? = none := by
    decide +kernel
  have hnot : ∀ j < 3, ¬((start refusedUnit ⟨2, 1⟩).execMany refusingHost j).1.HitsLimit
      ((start refusedUnit ⟨2, 1⟩).execMany refusingHost j).2 := by
    intro j hj
    by_cases hlast : j = 2
    · subst hlast
      exact not_hitsLimit_of_act_error (i := .callNative 1 1) rfl rfl fun _ => rfl
    · intro hlimit
      obtain ⟨error, hfault, -⟩ := hlimit.overflow
      have hnone := hfirst j (by omega)
      rw [after_add] at hnone
      cases hnone.symm.trans hfault
  exact ⟨hnot, by decide +kernel, same_run_of_larger_limits refusedUnit (by decide) (by decide)
      refusingHost hnot 3 (Nat.le_refl 3)⟩

end HostScript
