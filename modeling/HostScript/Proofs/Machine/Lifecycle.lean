import HostScript.Proofs.Machine.Traces

/-!
# The life of a machine

A machine runs as long as a call is open. The calls that are open, from the current one out to the
top-level code, are never more than the limits allow; each of them holds no more operands than the
limits allow, and as many locals as it was opened with. Opening and closing calls changes the depth
one by one. When the machine is done or faulted no call is open, and nothing changes any more. All
this holds of any unit of code, compiled or not, and of any host.
-/

namespace HostScript

open Machine

variable {σ : Type}

/-- Whether the frame that an action goes on with, or the caller that waits for it,
is within the limit. -/
def Action.Fits (limit : Nat) : Action → Prop
  | .proceed g | .assign g _ _ | .call g _ _ => g.stack.size ≤ limit
  | .leave _ => True

namespace Gives

variable {ε α : Type} {P Q : α → Prop} {x : Except ε α}

theorem mono (hx : Gives P x) (h : ∀ a, P a → Q a) : Gives Q x := by
  cases x with
  | error e => trivial
  | ok a => exact h a hx

/-- What a computation gives in its second part, whatever the first part gives. -/
theorem bind_right {β : Type} {R : β → Prop} {f : α → Except ε β} (hf : ∀ a, Gives R (f a)) :
    Gives R (x >>= f) := by
  cases x with
  | error e => trivial
  | ok a => exact hf a

end Gives

namespace Frame

variable {i : Instruction} {f g : Frame} {limit : Nat}

theorem without_fits (hf : f.stack.size ≤ limit) (k : Nat) : (f.without k).stack.size ≤ limit := by
  rw [size_stack_without]
  exact Nat.le_trans (Nat.sub_le _ _) hf

/-- A push succeeds only within the limit. -/
theorem deliver_fits (f : Frame) (limit : Nat) (value : Value) :
    Gives (Action.Fits limit) (f.deliver limit value) := by
  by_cases hroom : f.stack.size < limit
  · rw [deliver_of_lt hroom]
    change (f.stack.push value).size ≤ limit
    rw [Array.size_push]
    exact hroom
  · rw [deliver_of_le (Nat.not_lt.mp hroom)]
    trivial

theorem deliverResult_fits (f : Frame) (limit : Nat) (result : Except Fault Value) :
    Gives (Action.Fits limit) (f.deliverResult limit result) := by
  cases result with
  | ok value => exact f.deliver_fits limit value
  | error fault => trivial

/-- The step of a loop pushes an item, or goes to the exit with the operands that there are. -/
theorem advance_fits (hf : f.stack.size ≤ limit) (array cursor exit : Nat) :
    Gives (Action.Fits limit) (f.advance limit array cursor exit) := by
  unfold advance
  apply Gives.bind_right
  intro position
  cases position with
  | number n =>
    apply Gives.bind_right
    intro source
    cases source with
    | array items =>
      dsimp only
      cases items[Number.count n]? with
      | none => exact hf
      | some item =>
        apply Gives.bind_right
        intro g
        exact g.deliver_fits limit item
    | _ => trivial
  | _ => trivial

/-- A frame that has taken at least as many operands as it has pushed stays within the limit. -/
theorem Continues.size_le (h : f.Continues i g) (hle : i.pushes ≤ i.pops)
    (hpops : i.pops ≤ f.stack.size) : g.stack.size ≤ f.stack.size := by
  rcases h.goes with ⟨-, -, results, hresults, hstack⟩ | ⟨target, -, rfl⟩
  · rw [hstack, Array.size_append, hresults, size_stack_without]
    omega
  · change (f.without i.pops).stack.size ≤ f.stack.size
    rw [size_stack_without]
    exact Nat.sub_le _ _

end Frame

namespace Instruction

variable {i : Instruction} {f : Frame} {limit : Nat} {host : Host σ}

theorem fits_of_stems {action : Action} (h : action.Stems i f) (hle : i.pushes ≤ i.pops)
    (hf : f.stack.size ≤ limit) : action.Fits limit := by
  obtain ⟨hpops, haction⟩ := h
  cases action with
  | proceed g => exact Nat.le_trans (haction.size_le hle hpops) hf
  | assign g id value => exact Nat.le_trans (haction.size_le hle hpops) hf
  | call g function args =>
    obtain ⟨-, rfl⟩ := haction
    exact Frame.without_fits hf i.pops
  | leave value => trivial

theorem actCall_fits (hf : f.stack.size ≤ limit) (callable : Callable σ) (name : String)
    (args : Array Value) :
    Gives (Action.Fits limit) (actCall limit f host callable name args).1 := by
  unfold actCall
  split
  · trivial
  next outcome host' _ =>
    apply quietly_gives
    cases outcome with
    | immediate value => exact f.deliver_fits limit value
    | invoke function args => exact hf

theorem actCallNative_fits (hf : f.stack.size ≤ limit) (u : CodeUnit) (name argc : Nat) :
    Gives (Action.Fits limit) (actCallNative u limit f host name argc).1 := by
  have hargs := f.popMany_gives argc
  unfold actCallNative
  split
  · trivial
  next args g heq =>
    rw [heq] at hargs
    have hargs : f.Takes argc g := hargs
    have hg : g.stack.size ≤ limit := by
      rw [hargs.eq_without]
      exact Frame.without_fits hf argc
    split
    · trivial
    · split
      · trivial
      · exact actCall_fits hg _ _ _

/-- No instruction takes a frame beyond the limit. -/
theorem act_fits (hf : f.stack.size ≤ limit) (u : CodeUnit) (globals : Array Value) :
    Gives (Action.Fits limit) (i.act u limit globals f host).1 := by
  by_cases hle : i.pushes ≤ i.pops
  · exact (i.act_gives u globals).mono fun action h => fits_of_stems h hle hf
  · -- What is left may push a value without taking one.
    cases i with
    | pushNumber n => exact quietly_gives (f.deliver_fits limit _)
    | pushString id => exact quietly_gives (f.deliverResult_fits limit _)
    | pushBool b => exact quietly_gives (f.deliver_fits limit _)
    | pushVoid => exact quietly_gives (f.deliver_fits limit _)
    | loadLocal slot => exact quietly_gives (f.deliverResult_fits limit _)
    | loadGlobal id =>
      apply quietly_gives
      split
      · exact f.deliver_fits limit _
      · trivial
    | loadHost name =>
      simp only [act, actLoadHost]
      split
      · trivial
      · exact quietly_gives (f.deliverResult_fits limit _)
    | makeArray count => exact quietly_gives (Gives.bind_right fun r => r.2.deliver_fits limit _)
    | iterNext array cursor exit => exact quietly_gives (Frame.advance_fits hf array cursor exit)
    | callScript function argc =>
      apply quietly_gives
      apply (f.popMany_gives argc).bind
      intro r hr
      change r.2.stack.size ≤ limit
      rw [hr.eq_without]
      exact Frame.without_fits hf argc
    | callNative name argc => exact actCallNative_fits hf u name argc
    | _ => simp at hle

end Instruction

/-- The number of locals of a call: of the top-level code, or of a function in the table. -/
def CodeUnit.localCount? (u : CodeUnit) : Option Nat → Option Nat
  | none => some u.top.locals
  | some id => u.functions[id]?.map fun entry => max entry.locals entry.arity

/-- The open calls, innermost first. -/
def Status.frames : Status → List Frame
  | .running f callers => f :: callers
  | .done | .faulted _ => []

/-- Whether the open calls keep to what the unit and the limits give them. -/
structure Status.Orderly (u : CodeUnit) (limits : Limits) (status : Status) : Prop where
  depth : status.frames.length ≤ max 1 limits.callDepth
  operands : ∀ f ∈ status.frames, f.stack.size ≤ limits.operands
  locals : ∀ f ∈ status.frames, u.localCount? f.function = some f.locals.size
  rooted : status.Rooted

namespace Status.Orderly

variable {u : CodeUnit} {limits : Limits} {f : Frame} {callers : List Frame} {status : Status}

theorem start (u : CodeUnit) (limits : Limits) :
    (Machine.start u limits).status.Orderly u limits where
  depth := Nat.le_max_left _ _
  operands := by simp [Machine.start, frames]
  locals := by simp [Machine.start, frames, CodeUnit.localCount?]
  rooted := ⟨[], rfl⟩

/-- A call is opened with the locals that its function has. -/
theorem localCount?_openCall {depth function : Nat} {args : Array Value} {callee : Frame}
    (h : u.openCall limits depth function args = .ok callee) :
    u.localCount? callee.function = some callee.locals.size ∧ callee.stack = #[] ∧
      depth < limits.callDepth := by
  obtain ⟨entry, hentry, harity, hdepth, rfl⟩ := CodeUnit.openCall_eq_ok h
  refine ⟨?_, rfl, hdepth⟩
  simp only [CodeUnit.localCount?, hentry, Option.map_some, Array.size_append,
    Array.size_replicate, harity]
  congr 1
  omega

/-- An instruction keeps the open calls in order, if it keeps the frame that it is executed
in within the limit. -/
theorem successor (h : (Status.running f callers).Orderly u limits)
    (hnext : Successor u limits f callers status)
    (hfits : ∀ g, status = .running g callers → g.stack.size ≤ limits.operands) :
    status.Orderly u limits := by
  have hrooted := hnext.rooted h.rooted
  obtain ⟨hoperands, hcallers⟩ := List.forall_mem_cons.mp h.operands
  obtain ⟨hlocals, hbelow⟩ := List.forall_mem_cons.mp h.locals
  have hdepth := h.depth
  cases hnext with
  | fault error => exact ⟨Nat.zero_le _, by simp [frames], by simp [frames], hrooted⟩
  | done hcode hreturn hnone => exact ⟨Nat.zero_le _, by simp [frames], by simp [frames], hrooted⟩
  | @proceed i g hcode hpops hg =>
    have hsize : g.locals.size = f.locals.size := hg.effect.size_locals
    refine ⟨hdepth, List.forall_mem_cons.mpr ⟨hfits g rfl, hcallers⟩,
      List.forall_mem_cons.mpr ⟨?_, hbelow⟩, hrooted⟩
    rw [hg.function_eq, hsize]
    exact hlocals
  | @call i function args callee hcode hpops hcall hopen =>
    obtain ⟨hcount, hstack, hroom⟩ := localCount?_openCall hopen
    have hwaiting : ((f.goto (f.pc + 1)).without i.pops).stack.size ≤ limits.operands :=
      Frame.without_fits hoperands i.pops
    have hempty : callee.stack.size ≤ limits.operands := by
      rw [hstack]
      exact Nat.zero_le _
    refine ⟨?_, List.forall_mem_cons.mpr ⟨hempty, List.forall_mem_cons.mpr ⟨hwaiting, hcallers⟩⟩,
      List.forall_mem_cons.mpr ⟨hcount, List.forall_mem_cons.mpr ⟨hlocals, hbelow⟩⟩, hrooted⟩
    simp only [frames, List.length_cons]
    omega
  | @resume i value caller rest hcode hreturn hcallers' hroom =>
    subst hcallers'
    refine ⟨?_, List.forall_mem_cons.mpr ⟨?_, (List.forall_mem_cons.mp hcallers).2⟩,
      List.forall_mem_cons.mpr (List.forall_mem_cons.mp hbelow), hrooted⟩
    · simp only [frames, List.length_cons] at hdepth ⊢
      omega
    · rw [Array.size_push]
      exact hroom

/-- The machine does not take the current call beyond the limit. -/
theorem exec_fits {m : Machine} (hstatus : m.status = .running f callers)
    (hf : f.stack.size ≤ m.limits.operands) (host : Host σ) {g : Frame}
    (hnext : (m.exec host).1.status = .running g callers) : g.stack.size ≤ m.limits.operands := by
  cases hcode : m.unit.code[f.pc]? with
  | none =>
    obtain ⟨u, limits, globals, status⟩ := m
    obtain rfl : status = .running f callers := hstatus
    simp only [exec, hcode] at hnext
    cases hnext
  | some i =>
    have hfits : Gives (Action.Fits m.limits.operands)
        (i.act m.unit m.limits.operands m.globals (f.goto (f.pc + 1)) host).1 :=
      Instruction.act_fits (f := f.goto (f.pc + 1)) hf m.unit m.globals
    rw [exec_eq_settle hstatus hcode] at hnext
    cases hact : (i.act m.unit m.limits.operands m.globals (f.goto (f.pc + 1)) host).1 with
    | error error =>
      rw [hact] at hnext
      cases hnext
    | ok action =>
      rw [hact] at hnext hfits
      cases action with
      | proceed g' =>
        obtain ⟨rfl, -⟩ := Status.running.inj hnext
        exact hfits
      | assign g' id value =>
        obtain ⟨rfl, -⟩ := Status.running.inj hnext
        exact hfits
      | call g' function args =>
        simp only [settle, follow] at hnext
        split at hnext
        · have hlength := congrArg List.length (Status.running.inj hnext).2
          simp at hlength
        · cases hnext
      | leave value =>
        cases callers with
        | nil => cases hnext
        | cons caller rest =>
          simp only [settle, follow] at hnext
          split at hnext
          · have hlength := congrArg List.length (Status.running.inj hnext).2
            simp at hlength
          · cases hnext

/-- All along a run the open calls are in order. -/
theorem after (u : CodeUnit) (limits : Limits) (host : Host σ) (n : Nat) :
    (Machine.after (Machine.start u limits, host) n).1.status.Orderly u limits := by
  induction n with
  | zero => exact start u limits
  | succ n ih =>
    have hunit := unit_after (Machine.start u limits, host) n
    have hlimits := limits_after (Machine.start u limits, host) n
    rw [after_succ_last]
    cases hstatus : (Machine.after (Machine.start u limits, host) n).1.status with
    | running f callers =>
      have hnext := exec_successor hstatus (Machine.after (Machine.start u limits, host) n).2
      rw [hunit, hlimits] at hnext
      rw [hstatus] at ih
      apply ih.successor hnext
      intro g hg
      have hfits := exec_fits hstatus (hlimits ▸ ih.operands f List.mem_cons_self) _ hg
      rwa [hlimits] at hfits
    | done => rwa [exec_of_not_running _ (by rw [isRunning, hstatus])]
    | faulted error => rwa [exec_of_not_running _ (by rw [isRunning, hstatus])]

end Status.Orderly

namespace Machine

theorem depth_eq (m : Machine) : m.depth = m.status.frames.length := by
  obtain ⟨u, limits, globals, status⟩ := m
  cases status <;> rfl

theorem isRunning_iff (m : Machine) : m.isRunning ↔ m.status.frames ≠ [] := by
  obtain ⟨u, limits, globals, status⟩ := m
  cases status <;> simp [isRunning, Status.frames]

theorem depth_eq_zero_iff (m : Machine) :
    m.depth = 0 ↔ m.status = .done ∨ ∃ error, m.status = .faulted error := by
  obtain ⟨u, limits, globals, status⟩ := m
  cases status <;> simp [depth]

/-- An instruction that does not fail opens at most one call and closes at most one. -/
theorem exec_depth (m : Machine) (host : Host σ) (h : (m.exec host).1.fault? = none) :
    (m.exec host).1.depth ≤ m.depth + 1 ∧ m.depth ≤ (m.exec host).1.depth + 1 := by
  rw [depth_eq, depth_eq]
  cases hstatus : m.status with
  | running f callers =>
    have hnext := exec_successor hstatus host
    generalize hafter : (m.exec host).1.status = status at hnext
    cases hnext with
    | fault error =>
      rw [fault?_eq_some.mpr hafter] at h
      cases h
    | proceed hcode hpops hg => simp [Status.frames]
    | call hcode hpops hcall hopen => simp [Status.frames]
    | resume hcode hreturn hcallers hroom => simp [Status.frames, hcallers]
    | done hcode hreturn hcallers => simp [Status.frames, hcallers]
  | done =>
    rw [exec_of_not_running host (by rw [isRunning, hstatus]), hstatus]
    exact ⟨Nat.le_succ _, Nat.le_succ _⟩
  | faulted error =>
    rw [exec_of_not_running host (by rw [isRunning, hstatus]), hstatus]
    exact ⟨Nat.le_succ _, Nat.le_succ _⟩

end Machine

/-- The outermost call of a machine that runs is the top-level code, and it alone. -/
theorem Status.Rooted.outermost {status : Status} (h : status.Rooted) :
    (∀ f ∈ status.frames.getLast?, f.function = none) ∧
      ∀ f ∈ status.frames.dropLast, f.function ≠ none := by
  cases status with
  | done => simp [frames]
  | faulted error => simp [frames]
  | running f callers =>
    obtain ⟨ids, hids⟩ := h
    have hlast := congrArg List.getLast? hids
    have hothers := congrArg List.dropLast hids
    rw [List.getLast?_concat, List.getLast?_map] at hlast
    rw [List.dropLast_concat, ← List.map_dropLast] at hothers
    refine ⟨?_, ?_⟩
    · intro g hg
      rw [frames, Option.mem_def] at hg
      rw [hg] at hlast
      exact Option.some.inj hlast
    · intro g hg hnone
      have hmem : g.function ∈ ids.map some := hothers ▸ List.mem_map_of_mem hg
      rw [hnone] at hmem
      simp at hmem

/-- Whatever the unit, the limits and the host, after every number of instructions: the machine
runs iff a call is open, and is done or faulted iff the depth is zero. The depth is at most the
limit on calls, or one, and an instruction that does not fail changes it by at most one. Every open
call is within the limit on operands and has the number of locals that it was opened with; the
outermost call is the top-level code, all others are functions. A machine that is done stays done,
one that has faulted keeps its error with its offset and trace, and from then on neither the
machine nor the host changes. -/
theorem machine_lifecycle (u : CodeUnit) (limits : Limits) (host : Host σ) (n : Nat) :
    let c := after (start u limits, host) n
    (c.1.isRunning ↔ c.1.status.frames ≠ []) ∧
    c.1.depth = c.1.status.frames.length ∧
    (c.1.depth = 0 ↔ c.1.status = .done ∨ ∃ error, c.1.status = .faulted error) ∧
    c.1.depth ≤ max 1 limits.callDepth ∧
    ((c.1.exec c.2).1.fault? = none →
      (c.1.exec c.2).1.depth ≤ c.1.depth + 1 ∧ c.1.depth ≤ (c.1.exec c.2).1.depth + 1) ∧
    (∀ f ∈ c.1.status.frames,
      f.stack.size ≤ limits.operands ∧ u.localCount? f.function = some f.locals.size) ∧
    (∀ f ∈ c.1.status.frames.getLast?, f.function = none) ∧
    (∀ f ∈ c.1.status.frames.dropLast, f.function ≠ none) ∧
    (c.1.status = .done → ∀ k, after c k = c) ∧
    ∀ error, c.1.fault? = some error → ∀ k, after c k = c ∧ (after c k).1.fault? = some error := by
  intro c
  have horder : c.1.status.Orderly u limits := .after u limits host n
  obtain ⟨houtermost, hothers⟩ := horder.rooted.outermost
  have hstays : c.1.isRunning = false → ∀ k, after c k = c := by
    intro hstopped k
    rw [← after_add, after_add_of_not_running hstopped]
  refine ⟨c.1.isRunning_iff, c.1.depth_eq, c.1.depth_eq_zero_iff, c.1.depth_eq ▸ horder.depth,
    c.1.exec_depth c.2,
    fun f hf => ⟨horder.operands f hf, horder.locals f hf⟩, houtermost, hothers, ?_, ?_⟩
  · intro hdone
    exact hstays (by rw [isRunning, hdone])
  · intro error herror k
    have hsame := hstays (by rw [isRunning, fault?_eq_some.mp herror]) k
    refine ⟨hsame, ?_⟩
    rw [hsame]
    exact herror

/-- A native calls back a function, which calls another one. Where three calls may be open they
are in order, and the machine comes to its end and stays there; where two may be open the last
call fails, for good. -/
theorem callbackUnit_lifecycle :
    (after (start callbackUnit ⟨3, 3⟩, callbackHost) 6).1.depth = 3 ∧
    (∀ f ∈ (after (start callbackUnit ⟨3, 3⟩, callbackHost) 6).1.status.frames,
      f.stack.size ≤ 3 ∧ callbackUnit.localCount? f.function = some f.locals.size) ∧
    (∀ k, after (after (start callbackUnit ⟨3, 3⟩, callbackHost) 13) k =
      after (start callbackUnit ⟨3, 3⟩, callbackHost) 13) ∧
    ∃ error, error.fault = .callOverflow 2 ∧
      ∀ k, (after (after (start callbackUnit ⟨2, 3⟩, callbackHost) 6) k).1.fault? = some error := by
  obtain ⟨-, -, -, -, -, hframes, -⟩ := machine_lifecycle callbackUnit ⟨3, 3⟩ callbackHost 6
  obtain ⟨-, -, hzero, -, -, -, -, -, hdone, hfaulted⟩ :=
    machine_lifecycle callbackUnit ⟨3, 3⟩ callbackHost 13
  obtain ⟨-, -, -, -, -, -, -, -, -, hstopped⟩ :=
    machine_lifecycle callbackUnit ⟨2, 3⟩ callbackHost 6
  have hend : (after (start callbackUnit ⟨3, 3⟩, callbackHost) 13).1.depth = 0 := by decide +kernel
  have hfault : (after (start callbackUnit ⟨2, 3⟩, callbackHost) 6).1.fault?.map (·.fault) =
      some (.callOverflow 2) := by decide +kernel
  obtain ⟨error, herror, hoverflow⟩ := Option.map_eq_some_iff.mp hfault
  refine ⟨by decide +kernel, hframes, ?_, error, hoverflow, fun k => (hstopped error herror k).2⟩
  rcases hzero.mp hend with hstatus | ⟨error, hstatus⟩
  · exact hdone hstatus
  · exact fun k => (hfaulted error (fault?_eq_some.mpr hstatus) k).1

end HostScript
