import HostScript.Proofs.Emission.Heights
import HostScript.Proofs.Machine.Room

/-!
# What an instruction can do

What a machine can become when it executes an instruction, whatever code, operands, limits and host
it has. It faults, or it goes on in the same call, at the next offset or at the target of the
instruction; it opens a call, above the caller without its arguments; or it closes the current
call, with one value for the caller. Statements about whole runs of a machine are inductions over
this list of cases.
-/

namespace HostScript

variable {σ : Type}

/-- Whether a result, if there is one, has a property. -/
def Gives {ε α : Type} (P : α → Prop) : Except ε α → Prop
  | .ok a => P a
  | .error _ => True

namespace Gives

variable {ε α β : Type} {P : α → Prop} {Q : β → Prop} {x : Except ε α}

theorem bind {f : α → Except ε β} (hx : Gives P x) (hf : ∀ a, P a → Gives Q (f a)) :
    Gives Q (x >>= f) := by
  cases x with
  | error e => trivial
  | ok a => exact hf a hx

theorem map {f : α → β} (hx : Gives P x) (hf : ∀ a, P a → Q (f a)) : Gives Q (x.map f) := by
  cases x with
  | error e => trivial
  | ok a => exact hf a hx

end Gives

/-- The local slots that an instruction may overwrite. -/
@[simp]
def Instruction.writes : Instruction → List Nat
  | .storeLocal slot => [slot]
  | .iterNext _ cursor _ => [cursor]
  | _ => []

/-- Whether an instruction leaves the locals alone, and pushes no number that is known
beforehand. -/
@[simp]
def Instruction.isSteady : Instruction → Bool
  | .pushNumber _ | .storeLocal _ | .iterNext .. => false
  | _ => true

/-- Whether an instruction may open a call. -/
@[simp]
def Instruction.isCall : Instruction → Bool
  | .callScript .. | .callNative .. | .callMethod .. => true
  | _ => false

/-- A call leaves the locals alone, and its result is pushed before the following instruction
runs. -/
theorem Instruction.steady_of_isCall {i : Instruction} (h : i.isCall) :
    i.isSteady ∧ i.fallsThrough ∧ i.pushes = 1 := by
  cases i with
  | callScript | callNative | callMethod => exact ⟨rfl, rfl, rfl⟩
  | _ => cases h

/-- Whether an instruction closes the current call with a value: the topmost operand, or void. -/
def Instruction.Returns (stack : Array Value) (value : Value) : Instruction → Prop
  | .returnValue => stack.back? = some value
  | .returnVoid => value = .void
  | _ => False

namespace Frame

/-- The frame without its topmost `k` operands. -/
def without (f : Frame) (k : Nat) : Frame :=
  { f with stack := f.stack.take (f.stack.size - k) }

end Frame

/-- What an instruction does to the locals when it makes a frame into another, and the number
that it pushes if it is there to push one. The step of a loop takes an item and moves the cursor
on, or goes to the exit. -/
def Instruction.Effect (f g : Frame) : Instruction → Prop
  | .pushNumber n => g.stack.back? = some (.number n) ∧ g.locals = f.locals
  | .storeLocal slot =>
    ∃ value, f.stack.back? = some value ∧ g.locals = f.locals.setIfInBounds slot value
  | .iterNext array cursor exit =>
    ∃ n items, f.locals[cursor]? = some (.number n) ∧ f.locals[array]? = some (.array items) ∧
      ((∃ item, items[Number.count n]? = some item ∧ g.pc = f.pc ∧
          g.locals = f.locals.setIfInBounds cursor (.number (n + 1.0))) ∨
        g.pc = exit ∧ g.locals = f.locals)
  | _ => g.locals = f.locals

namespace Frame

/-- Whether a frame goes on from another, which has moved on to the next offset already: there, with
results in place of the operands that the instruction takes, or at the target. -/
structure Continues (i : Instruction) (f g : Frame) : Prop where
  function_eq : g.function = f.function
  effect : i.Effect f g
  goes :
    (i.fallsThrough ∧ g.pc = f.pc ∧
        ∃ results : Array Value, results.size = i.pushes ∧
          g.stack = (f.without i.pops).stack ++ results) ∨
      ∃ target, i.target? = some target ∧ g = (f.without i.pops).goto target

end Frame

/-- Whether an action is one that an instruction may ask for in a frame that has moved on
already. -/
def Action.Stems (i : Instruction) (f : Frame) (action : Action) : Prop :=
  i.pops ≤ f.stack.size ∧
    match action with
    | .proceed g => f.Continues i g
    | .assign g _ _ => f.Continues i g
    | .call g _ _ => i.isCall ∧ g = f.without i.pops
    | .leave value => i.Returns f.stack value

namespace Frame

/-- Whether a frame is another one that has had `k` operands and is without them now. -/
structure Takes (f : Frame) (k : Nat) (g : Frame) : Prop where
  le_size : k ≤ f.stack.size
  eq_without : g = f.without k

variable {i : Instruction} {f g : Frame} {k l limit : Nat}

@[simp]
theorem size_stack_without (f : Frame) (k : Nat) : (f.without k).stack.size = f.stack.size - k := by
  simp [without]

theorem Takes.refl (f : Frame) : f.Takes 0 f :=
  ⟨Nat.zero_le _, by simp [without]⟩

theorem Takes.trans {g' : Frame} (h : f.Takes k g) (h' : g.Takes l g') : f.Takes (k + l) g' := by
  obtain ⟨hk, rfl⟩ := h
  obtain ⟨hl, rfl⟩ := h'
  rw [size_stack_without] at hl
  have hmin : min (min (f.stack.size - k) f.stack.size - l)
      (f.stack.size - k) = f.stack.size - (k + l) := by
    omega
  refine ⟨by omega, ?_⟩
  simp only [without, Array.take_eq_extract, Array.size_extract, Array.extract_extract,
    Nat.zero_add, Nat.sub_zero, hmin]

theorem pop_gives (f : Frame) :
    Gives (fun r => f.stack.back? = some r.1 ∧ f.Takes 1 r.2) f.pop := by
  unfold pop
  split
  next value hvalue =>
    have hsize : 1 ≤ f.stack.size := by
      refine Nat.one_le_iff_ne_zero.mpr fun h => ?_
      rw [Array.eq_empty_of_size_eq_zero h] at hvalue
      cases hvalue
    exact ⟨hvalue, hsize, by simp [without]⟩
  · trivial

theorem popMany_gives (f : Frame) (n : Nat) : Gives (fun r => f.Takes n r.2) (f.popMany n) := by
  unfold popMany
  split
  next h => exact ⟨h, by simp [without]⟩
  · trivial

/-- A steady instruction leaves the locals alone. -/
theorem effect_of_isSteady (hsteady : i.isSteady) (hlocals : g.locals = f.locals) :
    i.Effect f g := by
  cases i with
  | pushNumber n => cases hsteady
  | storeLocal slot => cases hsteady
  | iterNext array cursor exit => cases hsteady
  | _ => exact hlocals

/-- Going on with the operands of an instruction taken and no result. -/
theorem Takes.continues (h : f.Takes i.pops g) (hsteady : i.isSteady) (hfalls : i.fallsThrough)
    (hpushes : i.pushes = 0) : f.Continues i g := by
  obtain ⟨-, rfl⟩ := h
  refine ⟨rfl, effect_of_isSteady hsteady rfl, Or.inl ⟨hfalls, rfl, #[], hpushes.symm, ?_⟩⟩
  rw [Array.append_empty]

/-- Going to the target with the operands of an instruction taken. -/
theorem Takes.continues_goto {target : Nat} (h : f.Takes i.pops g) (hsteady : i.isSteady)
    (htarget : i.target? = some target) : f.Continues i (g.goto target) := by
  obtain ⟨-, rfl⟩ := h
  exact ⟨rfl, effect_of_isSteady hsteady rfl, Or.inr ⟨target, htarget, rfl⟩⟩

/-- Pushing a result in place of the operands of an instruction. -/
theorem Takes.deliver_gives (h : f.Takes i.pops g) (hsteady : i.isSteady) (hfalls : i.fallsThrough)
    (hpushes : i.pushes = 1) (value : Value) :
    Gives (Action.Stems i f) (g.deliver limit value) := by
  obtain ⟨hpops, rfl⟩ := h
  unfold deliver push
  split
  · refine ⟨hpops, rfl, effect_of_isSteady hsteady rfl,
      Or.inl ⟨hfalls, rfl, #[value], hpushes.symm, ?_⟩⟩
    rw [Array.push_eq_append]
  · trivial

theorem Takes.deliverResult_gives (h : f.Takes i.pops g) (hsteady : i.isSteady)
    (hfalls : i.fallsThrough) (hpushes : i.pushes = 1) (result : Except Fault Value) :
    Gives (Action.Stems i f) (g.deliverResult limit result) := by
  cases result with
  | ok value => exact h.deliver_gives hsteady hfalls hpushes value
  | error fault => trivial

/-- Pushing a number. -/
theorem pushNumber_gives (n : Float) :
    Gives (Action.Stems (.pushNumber n) f) (f.deliver limit (.number n)) := by
  unfold deliver push
  split
  · refine ⟨Nat.zero_le _, rfl, ⟨Array.back?_push, rfl⟩, Or.inl ⟨rfl, rfl, #[.number n], rfl, ?_⟩⟩
    simp [without]
  · trivial

/-- A conditional jump goes on or to its target. -/
theorem branch_gives {when : Bool} {target : Nat} (hsteady : i.isSteady) (hfalls : i.fallsThrough)
    (hpops : i.pops = 1) (hpushes : i.pushes = 0) (htarget : i.target? = some target) :
    Gives (Action.Stems i f) (f.branch when target) := by
  refine f.pop_gives.bind fun r hr => ?_
  have htakes : f.Takes i.pops r.2 := hpops ▸ hr.2
  refine ⟨htakes.le_size, ?_⟩
  dsimp only
  split
  · exact htakes.continues_goto hsteady htarget
  · exact htakes.continues hsteady hfalls hpushes

/-- Storing into a slot takes a value. -/
theorem store_gives (slot : Nat) :
    Gives (Action.Stems (.storeLocal slot) f) (do
      let (value, f) ← f.pop
      let f ← f.setLocal slot value
      return .proceed f) := by
  refine f.pop_gives.bind fun r hr => ?_
  obtain ⟨hback, hsize, hrest⟩ := hr
  dsimp only
  rw [hrest]
  unfold setLocal
  split
  · refine ⟨hsize, rfl, ⟨r.1, hback, rfl⟩, Or.inl ⟨rfl, rfl, #[], rfl, ?_⟩⟩
    exact Array.append_empty.symm
  · trivial

/-- The step of a loop takes an item and moves the cursor on, or goes to the exit. -/
theorem advance_gives (array cursor exit : Nat) :
    Gives (Action.Stems (.iterNext array cursor exit) f) (f.advance limit array cursor exit) := by
  unfold advance getLocal
  cases hcursor : f.locals[cursor]? with
  | none => trivial
  | some position =>
    cases position with
    | number n =>
      cases harray : f.locals[array]? with
      | none => trivial
      | some source =>
        cases source with
        | array items =>
          simp only [bind, Except.bind]
          cases hitem : items[Number.count n]? with
          | none =>
            refine ⟨Nat.zero_le _, rfl, ⟨n, items, hcursor, harray, Or.inr ⟨rfl, rfl⟩⟩,
              Or.inr ⟨exit, rfl, ?_⟩⟩
            simp [without]
          | some item =>
            unfold setLocal
            by_cases hslot : cursor < f.locals.size
            · simp only [if_pos hslot, deliver, push]
              split
              · refine ⟨Nat.zero_le _, rfl,
                  ⟨n, items, hcursor, harray, Or.inl ⟨item, hitem, rfl, rfl⟩⟩,
                  Or.inl ⟨rfl, rfl, #[item], rfl, ?_⟩⟩
                simp [without]
              · trivial
            · simp only [if_neg hslot]
              trivial
        | _ => trivial
    | _ => trivial

end Frame

namespace Instruction

variable {i : Instruction} {f g : Frame} {limit : Nat} {host : Host σ}

/-- What a result that leaves the host alone gives. -/
theorem quietly_gives {P : Action → Prop} {result : Except Fault Action} (h : Gives P result) :
    Gives P (quietly host result).1 := by
  cases result with
  | ok action => exact h
  | error fault => trivial

/-- The answer of a callable is pushed, or opens a call. -/
theorem actCall_gives (h : f.Takes i.pops g) (hcall : i.isCall) (callable : Callable σ)
    (name : String) (args : Array Value) :
    Gives (Action.Stems i f) (actCall limit g host callable name args).1 := by
  obtain ⟨hsteady, hfalls, hpushes⟩ := steady_of_isCall hcall
  unfold actCall
  split
  · trivial
  next outcome host' _ =>
    refine quietly_gives ?_
    cases outcome with
    | immediate value => exact h.deliver_gives hsteady hfalls hpushes value
    | invoke function args => exact ⟨h.le_size, hcall, h.eq_without⟩

theorem actLoadHost_gives (u : CodeUnit) (name : Nat) :
    Gives (Action.Stems (.loadHost name) f) (actLoadHost u limit f host name).1 := by
  unfold actLoadHost
  split
  · trivial
  · exact quietly_gives ((Frame.Takes.refl f).deliverResult_gives rfl rfl rfl _)

theorem actStoreHost_gives (u : CodeUnit) (name : Nat) :
    Gives (Action.Stems (.storeHost name) f) (actStoreHost u f host name).1 := by
  have hpop := f.pop_gives
  unfold actStoreHost
  split
  · trivial
  next heq =>
    rw [heq] at hpop
    split
    · trivial
    · split
      · trivial
      · exact ⟨hpop.2.le_size, hpop.2.continues rfl rfl rfl⟩

theorem actCallNative_gives (u : CodeUnit) (name argc : Nat) :
    Gives (Action.Stems (.callNative name argc) f) (actCallNative u limit f host name argc).1 := by
  have hargs := f.popMany_gives argc
  unfold actCallNative
  split
  · trivial
  next args g heq =>
    rw [heq] at hargs
    have hargs : f.Takes argc g := hargs
    split
    · trivial
    · split
      · trivial
      · exact actCall_gives hargs rfl _ _ _

theorem actCallMethod_gives (u : CodeUnit) (name argc : Nat) :
    Gives (Action.Stems (.callMethod name argc) f) (actCallMethod u limit f host name argc).1 := by
  have hargs := f.popMany_gives argc
  unfold actCallMethod
  split
  · trivial
  next args g heq =>
    rw [heq] at hargs
    have hobject := g.pop_gives
    split
    · trivial
    next id g' heq =>
      rw [heq] at hobject
      have htakes : f.Takes (argc + 1) g' := Frame.Takes.trans hargs hobject.2
      split
      · trivial
      · split
        · trivial
        · exact actCall_gives htakes rfl _ _ _
    · trivial

/-- Every action of an instruction is one that it may ask for. -/
theorem act_gives (u : CodeUnit) (globals : Array Value) :
    Gives (Action.Stems i f) (i.act u limit globals f host).1 := by
  have hnone := Frame.Takes.refl f
  cases i with
  | pushNumber n => exact quietly_gives (Frame.pushNumber_gives n)
  | pushBool b => exact quietly_gives (hnone.deliver_gives rfl rfl rfl _)
  | pushVoid => exact quietly_gives (hnone.deliver_gives rfl rfl rfl _)
  | pushString id => exact quietly_gives (hnone.deliverResult_gives rfl rfl rfl _)
  | pop =>
    exact quietly_gives (f.pop_gives.map fun _ hr => ⟨hr.2.le_size, hr.2.continues rfl rfl rfl⟩)
  | loadLocal slot => exact quietly_gives (hnone.deliverResult_gives rfl rfl rfl _)
  | storeLocal slot => exact quietly_gives (f.store_gives slot)
  | loadGlobal id =>
    refine quietly_gives ?_
    split
    · exact hnone.deliver_gives rfl rfl rfl _
    · trivial
  | storeGlobal id =>
    refine quietly_gives (f.pop_gives.bind fun r hr => ?_)
    dsimp only
    split
    · exact ⟨hr.2.le_size, hr.2.continues rfl rfl rfl⟩
    · trivial
  | loadHost name => exact actLoadHost_gives u name
  | storeHost name => exact actStoreHost_gives u name
  | makeArray count =>
    exact quietly_gives ((f.popMany_gives count).bind fun r hr => hr.deliver_gives rfl rfl rfl _)
  | loadIndex =>
    exact quietly_gives (f.pop_gives.bind fun r hr => r.2.pop_gives.bind fun r' hr' =>
      (hr.2.trans hr'.2).deliverResult_gives rfl rfl rfl _)
  | storeIndex =>
    exact quietly_gives (f.pop_gives.bind fun r hr => r.2.pop_gives.bind fun r' hr' =>
      r'.2.pop_gives.bind fun r'' hr'' => ((hr.2.trans hr'.2).trans hr''.2).deliverResult_gives
        rfl rfl rfl _)
  | unary op =>
    exact quietly_gives (f.pop_gives.bind fun r hr => hr.2.deliverResult_gives rfl rfl rfl _)
  | binary op =>
    exact quietly_gives (f.pop_gives.bind fun r hr => r.2.pop_gives.bind fun r' hr' =>
      (hr.2.trans hr'.2).deliverResult_gives rfl rfl rfl _)
  | jump target => exact ⟨Nat.zero_le _, hnone.continues_goto rfl rfl⟩
  | jumpIfFalse target => exact quietly_gives (Frame.branch_gives rfl rfl rfl rfl rfl)
  | jumpIfTrue target => exact quietly_gives (Frame.branch_gives rfl rfl rfl rfl rfl)
  | iterNext array cursor exit => exact quietly_gives (Frame.advance_gives array cursor exit)
  | callScript function argc =>
    exact quietly_gives ((f.popMany_gives argc).bind fun r hr => ⟨hr.le_size, rfl, hr.eq_without⟩)
  | callNative name argc => exact actCallNative_gives u name argc
  | callMethod name argc => exact actCallMethod_gives u name argc
  | returnValue => exact quietly_gives (f.pop_gives.map fun r hr => ⟨hr.2.le_size, hr.1⟩)
  | returnVoid => exact ⟨Nat.zero_le _, rfl⟩

/-- An instruction that overwrites no slot leaves the locals alone. -/
theorem Effect.locals_eq (h : i.Effect f g) (hwrites : i.writes = []) : g.locals = f.locals := by
  cases i with
  | pushNumber n => exact h.2
  | storeLocal slot => cases hwrites
  | iterNext array cursor exit => cases hwrites
  | _ => exact h

/-- No instruction changes the number of locals. -/
theorem Effect.size_locals (h : i.Effect f g) : g.locals.size = f.locals.size := by
  cases i with
  | pushNumber n => rw [h.2]
  | storeLocal slot =>
    obtain ⟨value, -, hlocals⟩ := h
    rw [hlocals, Array.size_setIfInBounds]
  | iterNext array cursor exit =>
    obtain ⟨n, items, -, -, ⟨item, -, -, hlocals⟩ | ⟨-, hlocals⟩⟩ := h
    · rw [hlocals, Array.size_setIfInBounds]
    · rw [hlocals]
  | _ => exact congrArg Array.size h

end Instruction

/-- A frame that is opened is one of a function in the table, with its arguments, and
there is room for it. -/
theorem CodeUnit.openCall_eq_ok {u : CodeUnit} {limits : Limits} {depth function : Nat}
    {args : Array Value} {callee : Frame} (h : u.openCall limits depth function args = .ok callee) :
    ∃ entry, u.functions[function]? = some entry ∧ args.size = entry.arity ∧
      depth < limits.callDepth ∧
      callee =
        { function := some function
          pc := entry.start
          locals := args ++ Array.replicate (max entry.locals entry.arity - args.size) .void } := by
  unfold CodeUnit.openCall at h
  split at h
  · cases h
  next entry hentry =>
    split at h
    · cases h
    next harity =>
      split at h
      · cases h
      next hdepth =>
        exact ⟨entry, hentry, Decidable.not_not.mp harity, Nat.lt_of_not_le hdepth,
          (Except.ok.inj h).symm⟩

/-- The statuses that may follow when a machine executes an instruction in a frame. -/
inductive Successor (u : CodeUnit) (limits : Limits) (f : Frame) (callers : List Frame) :
    Status → Prop
  | fault (error : RuntimeError) : Successor u limits f callers (.faulted error)
  | proceed {i : Instruction} {g : Frame} (hcode : u.code[f.pc]? = some i)
      (hpops : i.pops ≤ f.stack.size) (hg : (f.goto (f.pc + 1)).Continues i g) :
      Successor u limits f callers (.running g callers)
  /-- A call is opened above its caller, which is without the arguments and waits at the next
  offset. -/
  | call {i : Instruction} {function : Nat} {args : Array Value} {callee : Frame}
      (hcode : u.code[f.pc]? = some i) (hpops : i.pops ≤ f.stack.size) (hcall : i.isCall)
      (hopen : u.openCall limits (callers.length + 1) function args = .ok callee) :
      Successor u limits f callers (.running callee ((f.goto (f.pc + 1)).without i.pops :: callers))
  /-- The call is closed and its caller gets the value. -/
  | resume {i : Instruction} {value : Value} {caller : Frame} {rest : List Frame}
      (hcode : u.code[f.pc]? = some i) (hreturn : i.Returns f.stack value)
      (hcallers : callers = caller :: rest) (hroom : caller.stack.size < limits.operands) :
      Successor u limits f callers (.running { caller with stack := caller.stack.push value } rest)
  | done {i : Instruction} {value : Value} (hcode : u.code[f.pc]? = some i)
      (hreturn : i.Returns f.stack value) (hcallers : callers = []) :
      Successor u limits f callers .done

namespace Machine

/-- What becomes of an action that the instruction of a frame may ask for. -/
theorem follow_successor {u : CodeUnit} {limits : Limits} {f : Frame} {callers : List Frame}
    {i : Instruction} {action : Action} (hcode : u.code[f.pc]? = some i)
    (haction : action.Stems i (f.goto (f.pc + 1))) :
    Successor u limits f callers (follow u limits f.pc f.function callers action) := by
  obtain ⟨hpops, haction⟩ := haction
  cases action with
  | proceed g => exact .proceed hcode hpops haction
  | assign g id value => exact .proceed hcode hpops haction
  | call g function args =>
    obtain ⟨hcall, rfl⟩ := haction
    simp only [follow]
    split
    next hopen => exact .call hcode hpops hcall hopen
    · exact .fault _
  | leave value =>
    cases callers with
    | nil => exact .done hcode haction rfl
    | cons caller rest =>
      simp only [follow, Frame.push]
      by_cases hroom : caller.stack.size < limits.operands
      · rw [if_pos hroom]
        exact .resume hcode haction rfl hroom
      · rw [if_neg hroom]
        exact .fault _

/-- A machine that executes an instruction keeps its unit and its limits. -/
theorem exec_same (m : Machine) (host : Host σ) :
    (m.exec host).1.unit = m.unit ∧ (m.exec host).1.limits = m.limits := by
  obtain ⟨u, limits, globals, status⟩ := m
  cases status with
  | running f callers =>
    simp only [exec]
    split
    · exact ⟨rfl, rfl⟩
    · split <;> exact ⟨rfl, rfl⟩
  | done => exact ⟨rfl, rfl⟩
  | faulted error => exact ⟨rfl, rfl⟩

/-- What becomes of a machine whose current call has executed an instruction. -/
def settle (m : Machine) (f : Frame) (callers : List Frame) : Except RuntimeError Action → Machine
  | .error error =>
    { m with status := .faulted (error.locate f.pc (m.unit.trace f.pc f.function callers)) }
  | .ok action =>
    { m with
      globals := assigned m.globals action
      status := follow m.unit m.limits f.pc f.function callers action }

/-- A running machine depends on its next instruction through the result and the host that this
leaves. -/
theorem exec_eq_settle {m : Machine} {f : Frame} {callers : List Frame} {i : Instruction}
    (hstatus : m.status = .running f callers) (hcode : m.unit.code[f.pc]? = some i)
    (host : Host σ) :
    m.exec host =
      (m.settle f callers
          (i.act m.unit m.limits.operands m.globals (f.goto (f.pc + 1)) host).1,
        (i.act m.unit m.limits.operands m.globals (f.goto (f.pc + 1)) host).2) := by
  obtain ⟨u, limits, globals, status⟩ := m
  obtain rfl : status = .running f callers := hstatus
  rcases hact : i.act u limits.operands globals (f.goto (f.pc + 1)) host with ⟨result, host'⟩
  simp only [exec, hcode, hact]
  cases result <;> rfl

/-- The status of a running machine is followed by one of those that may follow. -/
theorem exec_successor {m : Machine} {f : Frame} {callers : List Frame}
    (h : m.status = .running f callers) (host : Host σ) :
    Successor m.unit m.limits f callers (m.exec host).1.status := by
  obtain ⟨u, limits, globals, status⟩ := m
  obtain rfl : status = .running f callers := h
  cases hcode : u.code[f.pc]? with
  | none =>
    simp only [exec, hcode]
    exact .fault _
  | some i =>
    have hact : Gives (Action.Stems i (f.goto (f.pc + 1)))
        (i.act u limits.operands globals (f.goto (f.pc + 1)) host).1 := i.act_gives u globals
    rw [exec_eq_settle rfl hcode]
    cases hresult : (i.act u limits.operands globals (f.goto (f.pc + 1)) host).1 with
    | error error => exact .fault _
    | ok action =>
      rw [hresult] at hact
      exact follow_successor hcode hact

/-- A property of the status that holds at first and that every instruction keeps holds all
along. -/
theorem status_induction {u : CodeUnit} {limits : Limits} {P : Status → Prop}
    (hstep : ∀ f callers status, P (.running f callers) → Successor u limits f callers status →
        P status) {m : Machine} (hunit : m.unit = u) (hlimits : m.limits = limits) (h : P m.status)
    (host : Host σ) (n : Nat) : P (m.execMany host n).1.status := by
  induction n generalizing m host with
  | zero => exact h
  | succ n ih =>
    obtain ⟨hunit', hlimits'⟩ := m.exec_same host
    refine ih (hunit'.trans hunit) (hlimits'.trans hlimits) ?_ (m.exec host).2
    cases hstatus : m.status with
    | running f callers =>
      have hnext := exec_successor hstatus host
      rw [hunit, hlimits] at hnext
      exact hstep f callers _ (hstatus ▸ h) hnext
    | done => rwa [exec_of_not_running host (by simp [isRunning, hstatus])]
    | faulted error => rwa [exec_of_not_running host (by simp [isRunning, hstatus])]

end Machine

end HostScript
