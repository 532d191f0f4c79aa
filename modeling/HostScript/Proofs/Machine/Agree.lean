import HostScript.Proofs.Compile.InUse

/-!
# Machines that agree on the slots in use

Two machines agree if they differ at most in slots that are not in use, in the current call or in
one that waits. Code that keeps to the slots in use does the same in both, so that they still agree
after an instruction, and with them the host.
-/

namespace HostScript

variable {σ : Type}

/-- Whether two results match: related, or the same error. -/
def Matching {ε α : Type} (R : α → α → Prop) : Except ε α → Except ε α → Prop
  | .ok a, .ok b => R a b
  | .error e, .error e' => e' = e
  | _, _ => False

namespace Matching

variable {ε α β : Type} {R : α → α → Prop} {S : β → β → Prop} {x y : Except ε α}

theorem cases (h : Matching R x y) :
    (∃ a b, x = .ok a ∧ y = .ok b ∧ R a b) ∨ ∃ e, x = .error e ∧ y = .error e := by
  cases x with
  | error e =>
    cases y with
    | error e' =>
      obtain rfl : e' = e := h
      exact Or.inr ⟨e', rfl, rfl⟩
    | ok b => exact h.elim
  | ok a =>
    cases y with
    | error e' => exact h.elim
    | ok b => exact Or.inl ⟨a, b, rfl, rfl, h⟩

theorem bind {f g : α → Except ε β} (h : Matching R x y)
    (hf : ∀ a b, R a b → Matching S (f a) (g b)) : Matching S (x >>= f) (y >>= g) := by
  obtain ⟨a, b, rfl, rfl, hab⟩ | ⟨e, rfl, rfl⟩ := h.cases
  · exact hf a b hab
  · rfl

theorem map {f : α → β} (h : Matching R x y) (hf : ∀ a b, R a b → S (f a) (f b)) :
    Matching S (x.map f) (y.map f) := by
  obtain ⟨a, b, rfl, rfl, hab⟩ | ⟨e, rfl, rfl⟩ := h.cases
  · exact hf a b hab
  · rfl

end Matching

namespace Frame

/-- Whether two frames differ at most in slots outside of `S`. -/
structure Agrees (S : Nat → Prop) (f g : Frame) : Prop where
  function_eq : g.function = f.function
  pc_eq : g.pc = f.pc
  stack_eq : g.stack = f.stack
  size_eq : g.locals.size = f.locals.size
  locals_eq : ∀ slot, S slot → g.locals[slot]? = f.locals[slot]?

/-- Whether two frames differ at most in slots that are not in use, where `used` says how many are
in use at each offset. -/
def AgreesInUse (used : Nat → Nat) (f g : Frame) : Prop :=
  f.Agrees (· < used f.pc) g

/-- Whether the same has been popped from frames, and the rest of them agrees. -/
def AgreesPopped {α : Type} (S : Nat → Prop) (r r' : α × Frame) : Prop :=
  r'.1 = r.1 ∧ r.2.Agrees S r'.2

end Frame

/-- Whether two actions are the same, for frames that agree. -/
inductive Action.Agrees (S : Nat → Prop) : Action → Action → Prop
  | proceed {f g : Frame} (h : f.Agrees S g) : Agrees S (.proceed f) (.proceed g)
  | assign {f g : Frame} (h : f.Agrees S g) (id : Nat) (value : Value) :
      Agrees S (.assign f id value) (.assign g id value)
  | call {f g : Frame} (h : f.Agrees S g) (function : Nat) (args : Array Value) :
      Agrees S (.call f function args) (.call g function args)
  | leave (value : Value) : Agrees S (.leave value) (.leave value)

namespace Frame

variable {S T : Nat → Prop} {f g : Frame} {limit : Nat}

theorem Agrees.refl (f : Frame) : f.Agrees S f :=
  ⟨rfl, rfl, rfl, rfl, fun _ _ => rfl⟩

theorem Agrees.mono (h : f.Agrees S g) (hsub : ∀ slot, T slot → S slot) : f.Agrees T g :=
  ⟨h.function_eq, h.pc_eq, h.stack_eq, h.size_eq,
    fun slot hslot => h.locals_eq slot (hsub slot hslot)⟩

/-- Frames that agree do so with the same operands in both. -/
theorem Agrees.withStack (h : f.Agrees S g) (stack : Array Value) :
    Agrees S { f with stack := stack } { g with stack := stack } :=
  ⟨h.function_eq, h.pc_eq, rfl, h.size_eq, h.locals_eq⟩

theorem Agrees.goto (h : f.Agrees S g) (target : Nat) : (f.goto target).Agrees S (g.goto target) :=
  ⟨h.function_eq, rfl, h.stack_eq, h.size_eq, h.locals_eq⟩

theorem Agrees.push (h : f.Agrees S g) (value : Value) :
    Matching (Agrees S) (f.push limit value) (g.push limit value) := by
  unfold Frame.push
  rw [h.stack_eq]
  split
  · exact h.withStack _
  · rfl

theorem Agrees.pop (h : f.Agrees S g) : Matching (AgreesPopped S) f.pop g.pop := by
  unfold Frame.pop
  rw [h.stack_eq]
  split
  · exact ⟨rfl, h.withStack _⟩
  · rfl

theorem Agrees.popMany (h : f.Agrees S g) (n : Nat) :
    Matching (AgreesPopped S) (f.popMany n) (g.popMany n) := by
  unfold Frame.popMany
  rw [h.stack_eq]
  split
  · exact ⟨rfl, h.withStack _⟩
  · rfl

/-- Going on with what has been popped from frames that agree. -/
theorem bind_popped {ε α β : Type} {R : β → β → Prop} {x y : Except ε (α × Frame)}
    {k k' : α × Frame → Except ε β} (h : Matching (AgreesPopped S) x y)
    (hk : ∀ a f g, f.Agrees S g → Matching R (k (a, f)) (k' (a, g))) :
    Matching R (x >>= k) (y >>= k') := by
  refine h.bind fun r r' hr => ?_
  obtain ⟨a, f⟩ := r
  obtain ⟨a', g⟩ := r'
  obtain ⟨rfl, hfg⟩ : a' = a ∧ f.Agrees S g := hr
  exact hk a' f g hfg

theorem Agrees.deliver (h : f.Agrees S g) (value : Value) :
    Matching (Action.Agrees S) (f.deliver limit value) (g.deliver limit value) :=
  (h.push value).map fun _ _ h' => .proceed h'

theorem Agrees.deliverResult (h : f.Agrees S g) (result : Except Fault Value) :
    Matching (Action.Agrees S) (f.deliverResult limit result) (g.deliverResult limit result) := by
  cases result with
  | ok value => exact h.deliver value
  | error fault => rfl

theorem Agrees.branch (h : f.Agrees S g) (when : Bool) (target : Nat) :
    Matching (Action.Agrees S) (f.branch when target) (g.branch when target) := by
  refine bind_popped h.pop fun value f g h => ?_
  dsimp only
  split
  · exact .proceed (h.goto target)
  · exact .proceed h

/-- A slot on which frames agree has the same value in both. -/
theorem Agrees.getLocal_eq (h : f.Agrees S g) {slot : Nat} (hslot : S slot) :
    g.getLocal slot = f.getLocal slot := by
  unfold getLocal
  rw [h.locals_eq slot hslot]

/-- Frames also agree on a slot that is overwritten in both. -/
theorem Agrees.setLocal (h : f.Agrees S g) (slot : Nat) (value : Value) :
    Matching (Agrees fun other => S other ∨ other = slot) (f.setLocal slot value)
      (g.setLocal slot value) := by
  unfold Frame.setLocal
  rw [h.size_eq]
  split
  next hslot =>
    refine ⟨h.function_eq, h.pc_eq, h.stack_eq, by simpa using h.size_eq, fun other hother => ?_⟩
    by_cases heq : slot = other
    · simp [heq, Array.getElem?_setIfInBounds, h.size_eq]
    · simp [heq, h.locals_eq other (hother.resolve_right (Ne.symm heq))]
  · rfl

/-- The step of a loop does the same if the frames agree on the array and the cursor. -/
theorem Agrees.advance (h : f.Agrees S g) {array cursor : Nat} (harray : S array)
    (hcursor : S cursor) (exit : Nat) :
    Matching (Action.Agrees S) (f.advance limit array cursor exit)
      (g.advance limit array cursor exit) := by
  unfold Frame.advance
  rw [h.getLocal_eq harray, h.getLocal_eq hcursor]
  cases f.getLocal cursor with
  | error fault => rfl
  | ok position =>
    cases position with
    | number n =>
      cases f.getLocal array with
      | error fault => rfl
      | ok source =>
        cases source with
        | array items =>
          simp only [Bind.bind, Except.bind]
          cases items[Number.count n]? with
          | none => exact .proceed (h.goto exit)
          | some item =>
            refine Matching.bind (h.setLocal cursor _) fun a b hab => ?_
            exact (hab.mono fun slot hslot => Or.inl hslot).deliver item
        | _ => rfl
    | _ => rfl

end Frame

namespace Instruction

variable {S : Nat → Prop} {f g : Frame} {limit : Nat} {host : Host σ}

/-- Whether an instruction has come to actions on which frames agree, with the same host. -/
def ActsAlike (S : Nat → Prop) (r r' : Except RuntimeError Action × Host σ) : Prop :=
  Matching (Action.Agrees S) r.1 r'.1 ∧ r'.2 = r.2

theorem quietly_alike {x y : Except Fault Action} (h : Matching (Action.Agrees S) x y) :
    ActsAlike S (quietly host x) (quietly host y) := by
  obtain ⟨a, b, rfl, rfl, hab⟩ | ⟨e, rfl, rfl⟩ := h.cases
  · exact ⟨hab, rfl⟩
  · exact ⟨rfl, rfl⟩

theorem actCall_alike (h : f.Agrees S g) (callable : Callable σ) (name : String)
    (args : Array Value) :
    ActsAlike S (actCall limit f host callable name args)
      (actCall limit g host callable name args) := by
  unfold actCall
  split
  · exact ⟨rfl, rfl⟩
  next outcome host' _ =>
    refine quietly_alike ?_
    cases outcome with
    | immediate value => exact h.deliver value
    | invoke function args => exact .call h function args

theorem actLoadHost_alike (h : f.Agrees S g) (u : CodeUnit) (name : Nat) :
    ActsAlike S (actLoadHost u limit f host name) (actLoadHost u limit g host name) := by
  unfold actLoadHost
  split
  · exact ⟨rfl, rfl⟩
  · exact quietly_alike (h.deliverResult _)

theorem actStoreHost_alike (h : f.Agrees S g) (u : CodeUnit) (name : Nat) :
    ActsAlike S (actStoreHost u f host name) (actStoreHost u g host name) := by
  unfold actStoreHost
  obtain ⟨⟨value, f'⟩, ⟨value', g'⟩, hf, hg, heq, hrest⟩ | ⟨e, hf, hg⟩ := h.pop.cases
  · obtain rfl : value' = value := heq
    rw [hf, hg]
    dsimp only
    split
    · exact ⟨rfl, rfl⟩
    · split
      · exact ⟨rfl, rfl⟩
      · exact ⟨.proceed hrest, rfl⟩
  · rw [hf, hg]
    exact ⟨rfl, rfl⟩

theorem actCallNative_alike (h : f.Agrees S g) (u : CodeUnit) (name argc : Nat) :
    ActsAlike S (actCallNative u limit f host name argc)
      (actCallNative u limit g host name argc) := by
  unfold actCallNative
  obtain ⟨⟨args, f'⟩, ⟨args', g'⟩, hf, hg, heq, hrest⟩ | ⟨e, hf, hg⟩ := (h.popMany argc).cases
  · obtain rfl : args' = args := heq
    rw [hf, hg]
    dsimp only
    split
    · exact ⟨rfl, rfl⟩
    · split
      · exact ⟨rfl, rfl⟩
      · exact actCall_alike hrest _ _ _
  · rw [hf, hg]
    exact ⟨rfl, rfl⟩

theorem actCallMethod_alike (h : f.Agrees S g) (u : CodeUnit) (name argc : Nat) :
    ActsAlike S (actCallMethod u limit f host name argc)
      (actCallMethod u limit g host name argc) := by
  unfold actCallMethod
  obtain ⟨⟨args, f'⟩, ⟨args', g'⟩, hf, hg, heq, hrest⟩ | ⟨e, hf, hg⟩ := (h.popMany argc).cases
  · obtain rfl : args' = args := heq
    rw [hf, hg]
    dsimp only
    obtain ⟨⟨object, f''⟩, ⟨object', g''⟩, hf', hg', heq', hrest'⟩ | ⟨e, hf', hg'⟩ :=
      hrest.pop.cases
    · obtain rfl : object' = object := heq'
      rw [hf', hg']
      cases object' with
      | object id =>
        dsimp only
        split
        · exact ⟨rfl, rfl⟩
        · split
          · exact ⟨rfl, rfl⟩
          · exact actCall_alike hrest' _ _ _
      | _ => exact ⟨rfl, rfl⟩
    · rw [hf', hg']
      exact ⟨rfl, rfl⟩
  · rw [hf, hg]
    exact ⟨rfl, rfl⟩

/-- An instruction that overwrites no slot does the same in frames that agree on the
slots that it reads. -/
theorem act_agrees_of_writes_eq_nil {i : Instruction}
    (h : f.Agrees S g) (hreads : ∀ slot ∈ i.reads, S slot)
    (hwrites : i.writes = []) (u : CodeUnit) (globals : Array Value) :
    ActsAlike S (i.act u limit globals f host) (i.act u limit globals g host) := by
  cases i with
  | pushNumber n => exact quietly_alike (h.deliver _)
  | pushBool b => exact quietly_alike (h.deliver _)
  | pushVoid => exact quietly_alike (h.deliver _)
  | pushString id => exact quietly_alike (h.deliverResult _)
  | pop => exact quietly_alike (h.pop.map fun _ _ hr => .proceed hr.2)
  | loadLocal slot =>
    have hslot : S slot := hreads slot List.mem_cons_self
    refine quietly_alike ?_
    rw [h.getLocal_eq hslot]
    exact h.deliverResult _
  | storeLocal slot => cases hwrites
  | loadGlobal id =>
    refine quietly_alike ?_
    split
    · exact h.deliver _
    · rfl
  | storeGlobal id =>
    refine quietly_alike (Frame.bind_popped h.pop fun value f g h => ?_)
    dsimp only
    split
    · exact .assign h id value
    · rfl
  | loadHost name => exact actLoadHost_alike h u name
  | storeHost name => exact actStoreHost_alike h u name
  | makeArray count =>
    exact quietly_alike (Frame.bind_popped (h.popMany count) fun _ _ _ h => h.deliver _)
  | loadIndex =>
    exact quietly_alike (Frame.bind_popped h.pop fun _ _ _ h =>
      Frame.bind_popped h.pop fun _ _ _ h => h.deliverResult _)
  | storeIndex =>
    exact quietly_alike (Frame.bind_popped h.pop fun _ _ _ h =>
      Frame.bind_popped h.pop fun _ _ _ h =>
      Frame.bind_popped h.pop fun _ _ _ h => h.deliverResult _)
  | unary op => exact quietly_alike (Frame.bind_popped h.pop fun _ _ _ h => h.deliverResult _)
  | binary op =>
    exact quietly_alike (Frame.bind_popped h.pop fun _ _ _ h =>
      Frame.bind_popped h.pop fun _ _ _ h => h.deliverResult _)
  | jump target => exact ⟨.proceed (h.goto target), rfl⟩
  | jumpIfFalse target => exact quietly_alike (h.branch false target)
  | jumpIfTrue target => exact quietly_alike (h.branch true target)
  | iterNext array cursor exit => cases hwrites
  | callScript function argc =>
    exact quietly_alike (Frame.bind_popped (h.popMany argc) fun args _ _ h => .call h function args)
  | callNative name argc => exact actCallNative_alike h u name argc
  | callMethod name argc => exact actCallMethod_alike h u name argc
  | returnValue =>
    refine quietly_alike (h.pop.map fun r r' hr => ?_)
    obtain ⟨value, rest⟩ := r
    obtain ⟨value', rest'⟩ := r'
    obtain rfl : value' = value := hr.1
    exact .leave value'
  | returnVoid => exact ⟨.leave .void, rfl⟩

/-- An instruction does the same in frames that agree on the slots that it reads, and they agree
afterwards on the slots that it overwrites too. -/
theorem act_agrees {i : Instruction} (h : f.Agrees S g) (hreads : ∀ slot ∈ i.reads, S slot)
    (u : CodeUnit) (globals : Array Value) :
    ActsAlike (fun slot => S slot ∨ slot ∈ i.writes) (i.act u limit globals f host)
      (i.act u limit globals g host) := by
  cases i with
  | storeLocal slot =>
    refine quietly_alike (Frame.bind_popped h.pop fun value f g h => ?_)
    refine (h.setLocal slot value).bind fun a b hab => ?_
    exact .proceed (hab.mono fun other hother => hother.imp_right List.mem_singleton.mp)
  | iterNext array cursor exit =>
    have hcursor : S cursor := hreads cursor (by simp)
    have hsame : f.Agrees (fun slot => S slot ∨ slot ∈ (iterNext array cursor exit).writes) g :=
      h.mono fun slot hslot => hslot.elim id fun hmem => List.mem_singleton.mp hmem ▸ hcursor
    exact quietly_alike (hsame.advance (Or.inl (hreads array (by simp))) (Or.inl hcursor) exit)
  | _ =>
    refine act_agrees_of_writes_eq_nil (h.mono fun slot hslot => ?_)
      (fun slot hslot => Or.inl (hreads slot hslot)) rfl u globals
    exact hslot.resolve_right List.not_mem_nil

end Instruction

/-- Whether two statuses are the same but for slots that are not in use. -/
inductive Status.Agrees (used : Nat → Nat) : Status → Status → Prop
  | running {f g : Frame} {callers callers' : List Frame} (hframe : f.AgreesInUse used g)
      (hcallers : List.Forall₂ (Frame.AgreesInUse used) callers callers') :
      Agrees used (.running f callers) (.running g callers')
  | done : Agrees used .done .done
  | faulted (error : RuntimeError) : Agrees used (.faulted error) (.faulted error)

/-- Whether two machines are the same but for slots that are not in use. -/
structure Machine.Agrees (used : Nat → Nat) (m m' : Machine) : Prop where
  unit_eq : m'.unit = m.unit
  limits_eq : m'.limits = m.limits
  globals_eq : m'.globals = m.globals
  status : m.status.Agrees used m'.status

section Steps

variable {used : Nat → Nat} {u : CodeUnit} {limits : Limits} {f g : Frame}
  {callers callers' : List Frame} {i : Instruction}

/-- Calls that wait and agree leave the same trace. -/
theorem trace_agrees (h : List.Forall₂ (Frame.AgreesInUse used) callers callers') (pc : Nat)
    (function : Option Nat) : u.trace pc function callers' = u.trace pc function callers := by
  unfold CodeUnit.trace
  congr 1
  induction h with
  | nil => rfl
  | cons hf _ ih => rw [List.map_cons, List.map_cons, hf.function_eq, hf.pc_eq, ih]

/-- Wherever an instruction goes on, the slots in use were in use before, or it has stored into
them. -/
theorem Instruction.Respects.of_continues (hi : i.Respects used f.pc)
    (hg : (f.goto (f.pc + 1)).Continues i g) :
    ∀ slot < used g.pc, slot < used f.pc ∨ slot ∈ i.writes := by
  intro slot hslot
  obtain ⟨hfalls, hpc, -⟩ | ⟨target, htarget, rfl⟩ := hg.goes
  · rw [hpc] at hslot
    exact hi.next hfalls slot hslot
  · exact Or.inl (Nat.lt_of_lt_of_le hslot (hi.jump target htarget))

/-- Actions on which frames agree lead to statuses that agree. -/
theorem follow_agrees (hi : i.Respects used f.pc)
    (hcallers : List.Forall₂ (Frame.AgreesInUse used) callers callers') {action action' : Action}
    (haction : action.Stems i (f.goto (f.pc + 1)))
    (h : action.Agrees (fun slot => slot < used f.pc ∨ slot ∈ i.writes) action') :
    (Machine.follow u limits f.pc f.function callers action).Agrees used
      (Machine.follow u limits f.pc f.function callers' action') := by
  obtain ⟨-, hstems⟩ := haction
  cases h with
  | proceed h => exact .running (h.mono (hi.of_continues hstems)) hcallers
  | assign h id value => exact .running (h.mono (hi.of_continues hstems)) hcallers
  | call h function args =>
    obtain ⟨hcall, rfl⟩ := hstems
    obtain ⟨-, hfalls, -⟩ := Instruction.steady_of_isCall hcall
    simp only [Machine.follow, hcallers.length_eq, trace_agrees hcallers]
    split
    · exact .running (Frame.Agrees.refl _) (.cons (h.mono (hi.next hfalls)) hcallers)
    · exact .faulted _
  | leave value =>
    cases hcallers with
    | nil => exact .done
    | @cons caller caller' rest rest' hcaller hrest =>
      simp only [Machine.follow, Frame.push, hcaller.stack_eq, hcaller.function_eq,
        trace_agrees hrest]
      by_cases hroom : caller.stack.size < limits.operands
      · rw [if_pos hroom, if_pos hroom]
        exact .running ⟨rfl, hcaller.pc_eq, rfl, hcaller.size_eq, hcaller.locals_eq⟩ hrest
      · rw [if_neg hroom, if_neg hroom]
        exact .faulted _

end Steps

namespace Machine

variable {used : Nat → Nat} {m m' : Machine}

/-- The script globals are the same after actions on which frames agree. -/
theorem assigned_agrees {S : Nat → Prop} {action action' : Action} (h : action.Agrees S action')
    (globals : Array Value) : assigned globals action' = assigned globals action := by
  cases h <;> rfl

/-- Machines that agree still do after an instruction, and the host is the same. -/
theorem exec_agrees (hu : m.unit.Respects used) (h : m.Agrees used m') (host : Host σ) :
    (m.exec host).1.Agrees used (m'.exec host).1 ∧ (m'.exec host).2 = (m.exec host).2 := by
  obtain ⟨u, limits, globals, status⟩ := m
  obtain ⟨u', limits', globals', status'⟩ := m'
  obtain ⟨rfl, rfl, rfl, hstatus⟩ := h
  cases hstatus with
  | done => exact ⟨⟨rfl, rfl, rfl, .done⟩, rfl⟩
  | faulted error => exact ⟨⟨rfl, rfl, rfl, .faulted error⟩, rfl⟩
  | @running f g callers callers' hframe hcallers =>
    cases hcode : u'.code[f.pc]? with
    | none =>
      simp only [exec, hframe.pc_eq, hframe.function_eq, hcode, trace_agrees hcallers]
      exact ⟨⟨rfl, rfl, rfl, .faulted _⟩, trivial⟩
    | some i =>
      have hi : i.Respects used f.pc := hu.code f.pc i hcode
      have halike : Instruction.ActsAlike (fun slot => slot < used f.pc ∨ slot ∈ i.writes)
          (i.act u' limits'.operands globals' (f.goto (f.pc + 1)) host)
          (i.act u' limits'.operands globals' (g.goto (f.pc + 1)) host) :=
        i.act_agrees (hframe.goto (f.pc + 1)) hi.reads u' globals'
      have hstems : Gives (Action.Stems i (f.goto (f.pc + 1)))
          (i.act u' limits'.operands globals' (f.goto (f.pc + 1)) host).1 :=
        i.act_gives u' globals'
      obtain ⟨hactions, hhost⟩ := halike
      rcases hact : i.act u' limits'.operands globals' (f.goto (f.pc + 1)) host with ⟨result, host₁⟩
      rcases hact' : i.act u' limits'.operands globals'
        (g.goto (f.pc + 1)) host with ⟨result', host₂⟩
      rw [hact] at hactions hhost hstems
      rw [hact'] at hactions hhost
      obtain rfl : host₂ = host₁ := hhost
      obtain ⟨action, action', rfl, rfl, hagree⟩ | ⟨error, rfl, rfl⟩ := Matching.cases hactions
      · simp only [exec, hframe.pc_eq, hframe.function_eq, hcode, hact, hact',
          assigned_agrees hagree]
        exact ⟨⟨rfl, rfl, rfl, follow_agrees hi hcallers hstems hagree⟩, trivial⟩
      · simp only [exec, hframe.pc_eq, hframe.function_eq, hcode, hact, hact',
          trace_agrees hcallers]
        exact ⟨⟨rfl, rfl, rfl, .faulted _⟩, trivial⟩

end Machine

end HostScript
