import HostScript.Proofs.Compile.Operands
import HostScript.Proofs.Emission.Heights
import HostScript.Proofs.Machine.Benign

/-!
# Actions of sound instructions

What an instruction asks of the machine, if its operands are in range and the frame holds what it
pops: to go on at the next offset or at its target, on a stack of the height that is expected there.
The host keeps its natives and its methods.
-/

namespace HostScript

variable {σ : Type}

/-- Whether an answer is no malformed fault, and asks for none but the first `n` functions. -/
def Outcome.Tame (n : Nat) : Except RuntimeError Outcome → Prop
  | .ok (.immediate _) => True
  | .ok (.invoke function _) => function < n
  | .error error => error.fault.isMalformed = false

/-- Whether all answers of a callable are tame. -/
def Callable.Tame (n : Nat) (callable : Callable σ) : Prop :=
  ∀ args state, Outcome.Tame n (callable.call args state).1

/-- A tame callable is tame under every name. -/
theorem Callable.Tame.callAs {n : Nat} {callable : Callable σ} (h : callable.Tame n) (name : String)
    (args : Array Value) (state : σ) : Outcome.Tame n (callable.callAs name args state).1 := by
  unfold Callable.callAs
  split
  · split
    · exact h args state
    · rfl
  · exact h args state

/-- Whether all natives and methods of a host are tame. -/
structure Host.Tame (n : Nat) (host : Host σ) : Prop where
  natives : ∀ (name : String) (callable : Callable σ), host.natives[name]? = some callable →
    callable.Tame n
  methods : ∀ id name state callable, host.method? id name state = some callable → callable.Tame n

/-- Whether two hosts have the same natives and methods. -/
structure Host.SameCallables (host host' : Host σ) : Prop where
  natives_eq : host'.natives = host.natives
  method_eq : host'.method? = host.method?

theorem Host.SameCallables.refl (host : Host σ) : host.SameCallables host :=
  ⟨rfl, rfl⟩

/-- A host with the same natives and methods is as tame. -/
theorem Host.Tame.of_same {n : Nat} {host host' : Host σ} (h : host.Tame n)
    (hsame : host.SameCallables host') :
    host'.Tame n :=
  ⟨fun name callable hcallable => h.natives name callable (hsame.natives_eq ▸ hcallable),
    fun id name state callable hcallable => h.methods id name state callable
      (hsame.method_eq ▸ hcallable)⟩

/-- Whether a frame goes on from another, which has moved on to the next offset already: there, with
as many operands as the instruction leaves but for `owed`, or at the target. -/
structure Frame.Moves (i : Instruction) (f g : Frame) (owed : Nat) : Prop where
  function_eq : g.function = f.function
  locals_size : g.locals.size = f.locals.size
  goes :
    (i.fallsThrough ∧ g.pc = f.pc ∧ g.stack.size + owed = f.stack.size - i.pops + i.pushes) ∨
      (owed = 0 ∧ g.pc ∈ i.target? ∧ g.stack.size = f.stack.size - i.pops)

/-- Whether an action is one that an instruction may ask for. The result of a call is
owed to the caller. -/
def Action.Follows (u : CodeUnit) (i : Instruction) (f : Frame) : Action → Prop
  | .proceed g => f.Moves i g 0
  | .assign g _ _ => f.Moves i g 0
  | .call g function _ => f.Moves i g 1 ∧ function < u.functions.size
  | .leave _ => True

/-- Whether what an instruction does is benign and leaves the natives and methods of the host
alone. -/
structure Acts (u : CodeUnit) (i : Instruction) (f : Frame) (host : Host σ)
    (result : Except RuntimeError Action × Host σ) : Prop where
  benign : match result.1 with
    | .ok action => action.Follows u i f
    | .error error => error.fault.isMalformed = false
  same : host.SameCallables result.2

namespace Frame

variable {u : CodeUnit} {i : Instruction} {f g : Frame} {k limit : Nat}

/-- Going on after the operands of an instruction have been popped. -/
theorem Popped.moves (h : f.Popped k g) {owed : Nat} (hfalls : i.fallsThrough) (hpops : i.pops = k)
    (hpushes : i.pushes = owed) : f.Moves i g owed := by
  refine ⟨h.function_eq, h.locals_size, Or.inl ⟨hfalls, h.pc_eq, ?_⟩⟩
  have := h.stack_size
  omega

/-- Going to the target after the operands of an instruction have been popped. -/
theorem Popped.moves_goto (h : f.Popped k g) {target : Nat} (htarget : i.target? = some target)
    (hpops : i.pops = k) : f.Moves i (g.goto target) 0 := by
  refine ⟨h.function_eq, h.locals_size, Or.inr ⟨rfl, htarget, ?_⟩⟩
  have := h.stack_size
  simp only [goto]
  omega

/-- Pushing a result, after the operands of an instruction have been popped. -/
theorem Popped.deliver_benign (h : f.Popped k g) (hfalls : i.fallsThrough) (hpops : i.pops = k)
    (hpushes : i.pushes = 1) (value : Value) :
    Benign (Action.Follows u i f) (g.deliver limit value) := by
  unfold deliver push
  split
  · refine ⟨h.function_eq, h.locals_size, Or.inl ⟨hfalls, h.pc_eq, ?_⟩⟩
    have := h.stack_size
    simp only [Array.size_push]
    omega
  · rfl

/-- Pushing a result that may be missing, after the operands of an instruction have been popped. -/
theorem Popped.deliverResult_benign (h : f.Popped k g) (hfalls : i.fallsThrough)
    (hpops : i.pops = k) (hpushes : i.pushes = 1) {result : Except Fault Value}
    (hresult : Benign (fun _ => True) result) :
    Benign (Action.Follows u i f) (g.deliverResult limit result) := by
  cases result with
  | ok value => exact h.deliver_benign hfalls hpops hpushes value
  | error fault => exact hresult

/-- A conditional jump goes on or to its target. -/
theorem branch_benign {when : Bool} {target : Nat} (h : 0 < f.stack.size) (hfalls : i.fallsThrough)
    (hpops : i.pops = 1) (hpushes : i.pushes = 0) (htarget : i.target? = some target) :
    Benign (Action.Follows u i f) (f.branch when target) := by
  refine (pop_benign h).bind fun r hr => ?_
  simp only
  split
  · exact hr.moves_goto htarget hpops
  · exact hr.moves hfalls hpops hpushes

/-- The step of a loop takes an item or goes to the exit. -/
theorem advance_benign {array cursor exit : Nat} (harray : array < f.locals.size)
    (hcursor : cursor < f.locals.size) :
    Benign (Action.Follows u (.iterNext array cursor exit) f)
      (f.advance limit array cursor exit) := by
  refine (getLocal_benign hcursor).bind fun position _ => ?_
  cases position with
  | number n =>
    refine (getLocal_benign harray).bind fun source _ => ?_
    cases source with
    | array items =>
      simp only
      split
      · exact (setLocal_benign _ hcursor).bind fun g hg => hg.deliver_benign rfl rfl rfl _
      · exact (Popped.refl f).moves_goto rfl rfl
    | _ => rfl
  | _ => rfl

end Frame

namespace Instruction

variable {u : CodeUnit} {i : Instruction} {f g : Frame} {k limit : Nat} {host host' : Host σ}

/-- A benign result that leaves the host alone. -/
theorem quietly_acts {result : Except Fault Action} (h : Benign (Action.Follows u i f) result)
    (hsame : host.SameCallables host') : Acts u i f host (quietly host' result) := by
  cases result with
  | ok action => exact ⟨h, hsame⟩
  | error fault => exact ⟨h, hsame⟩

/-- Reading a global keeps the natives and methods. -/
theorem read_same (host : Host σ) (name : String) : host.SameCallables (host.read name).2 := by
  unfold Host.read Host.global?
  split
  next heq => split at heq <;> · obtain ⟨-, rfl⟩ := Prod.mk.inj heq; exact ⟨rfl, rfl⟩
  next heq => split at heq <;> · obtain ⟨-, rfl⟩ := Prod.mk.inj heq; exact ⟨rfl, rfl⟩

/-- Writing a global keeps the natives and methods. -/
theorem write_same {name : String} {value : Value} (h : host.write name value = .ok host') :
    host.SameCallables host' := by
  unfold Host.write at h
  split at h
  · cases h
  · obtain rfl := Except.ok.inj h
    exact ⟨rfl, rfl⟩
  · obtain rfl := Except.ok.inj h
    exact ⟨rfl, rfl⟩
  · cases h

/-- Reading a global of the host pushes a value. -/
theorem actLoadHost_acts {name : Nat} (hname : name < u.strings.size) :
    Acts u (.loadHost name) f host (actLoadHost u limit f host name) := by
  have hstring := CodeUnit.string_benign hname
  unfold actLoadHost
  split
  next heq =>
    rw [heq] at hstring
    exact quietly_acts hstring (Host.SameCallables.refl host)
  next name' heq =>
    have hsame := read_same host name'
    have hread := host.read_benign name'
    rcases hresult : host.read name' with ⟨result, host'⟩
    rw [hresult] at hsame hread
    exact quietly_acts ((Frame.Popped.refl f).deliverResult_benign rfl rfl rfl hread) hsame

/-- Writing a global of the host pops a value. -/
theorem actStoreHost_acts {name : Nat} (hname : name < u.strings.size) (hpop : 0 < f.stack.size) :
    Acts u (.storeHost name) f host (actStoreHost u f host name) := by
  have hstring := CodeUnit.string_benign hname
  have hpopped := Frame.pop_benign hpop
  unfold actStoreHost
  split
  next heq =>
    rw [heq] at hpopped
    exact quietly_acts hpopped (Host.SameCallables.refl host)
  next value g heq =>
    rw [heq] at hpopped
    split
    next heq =>
      rw [heq] at hstring
      exact quietly_acts hstring (Host.SameCallables.refl host)
    next name' _ =>
      have hwrite := host.write_benign name' value
      split
      next heq =>
        rw [heq] at hwrite
        exact quietly_acts hwrite (Host.SameCallables.refl host)
      next heq => exact quietly_acts (hpopped.moves rfl rfl rfl) (write_same heq)

/-- Calling a tame callable pushes its answer or opens a call. -/
theorem actCall_acts {callable : Callable σ} (htame : callable.Tame u.functions.size)
    (h : f.Popped k g) (hfalls : i.fallsThrough) (hpops : i.pops = k) (hpushes : i.pushes = 1)
    (name : String) (args : Array Value) :
    Acts u i f host (actCall limit g host callable name args) := by
  have hanswer : Outcome.Tame u.functions.size (host.call callable name args).1 :=
    htame.callAs name args host.state
  have hsame : host.SameCallables (host.call callable name args).2 := ⟨rfl, rfl⟩
  unfold actCall
  rcases hresult : host.call callable name args with ⟨result, host'⟩
  rw [hresult] at hanswer hsame
  match result, hanswer with
  | .error error, hanswer => exact ⟨hanswer, hsame⟩
  | .ok (.immediate value), _ =>
    exact quietly_acts (h.deliver_benign hfalls hpops hpushes value) hsame
  | .ok (.invoke function args), hanswer =>
    exact quietly_acts (show Benign _ (.ok _) from ⟨h.moves hfalls hpops hpushes, hanswer⟩) hsame

/-- Calling a native pops the arguments. -/
theorem actCallNative_acts {name argc : Nat} (htame : host.Tame u.functions.size)
    (hname : name < u.strings.size) (hpop : argc ≤ f.stack.size) :
    Acts u (.callNative name argc) f host (actCallNative u limit f host name argc) := by
  have hstring := CodeUnit.string_benign hname
  have hpopped := Frame.popMany_benign hpop
  unfold actCallNative
  split
  next heq =>
    rw [heq] at hpopped
    exact quietly_acts hpopped (Host.SameCallables.refl host)
  next args g heq =>
    rw [heq] at hpopped
    split
    next heq =>
      rw [heq] at hstring
      exact quietly_acts hstring (Host.SameCallables.refl host)
    next name' _ =>
      split
      · exact quietly_acts (show Benign _ (.error _) from rfl) (Host.SameCallables.refl host)
      next callable hcallable =>
        exact actCall_acts (htame.natives name' callable hcallable) hpopped rfl rfl rfl name' args

/-- Calling a method pops the arguments and the object. -/
theorem actCallMethod_acts {name argc : Nat} (htame : host.Tame u.functions.size)
    (hname : name < u.strings.size) (hpop : argc + 1 ≤ f.stack.size) :
    Acts u (.callMethod name argc) f host (actCallMethod u limit f host name argc) := by
  have hstring := CodeUnit.string_benign hname
  have hargs := Frame.popMany_benign (f := f) (n := argc) (by omega)
  unfold actCallMethod
  split
  next heq =>
    rw [heq] at hargs
    exact quietly_acts hargs (Host.SameCallables.refl host)
  next args g heq =>
    rw [heq] at hargs
    have hobject : Benign (fun r => g.Popped 1 r.2) g.pop := by
      have hsize : g.stack.size + argc = f.stack.size := hargs.stack_size
      exact Frame.pop_benign (by omega)
    split
    next heq =>
      rw [heq] at hobject
      exact quietly_acts hobject (Host.SameCallables.refl host)
    next id g' heq =>
      rw [heq] at hobject
      have hpopped : f.Popped (argc + 1) g' := Frame.Popped.trans hargs hobject
      split
      next heq =>
        rw [heq] at hstring
        exact quietly_acts hstring (Host.SameCallables.refl host)
      next name' _ =>
        split
        · exact quietly_acts (show Benign _ (.error _) from rfl) (Host.SameCallables.refl host)
        next callable hcallable =>
          exact actCall_acts (htame.methods id name' _ callable hcallable) hpopped rfl rfl
            rfl name' args
    · exact quietly_acts (show Benign _ (.error _) from rfl) (Host.SameCallables.refl host)

/-- An instruction with operands in range, on a frame that holds what it pops, acts as it should. -/
theorem act_acts {globals : Array Value} {r : Region} {pc : Nat} (hvalid : i.Valid u r pc)
    (hpops : i.pops ≤ f.stack.size) (hlocals : r.locals ≤ f.locals.size)
    (hglobals : u.globals.size = globals.size) (htame : host.Tame u.functions.size) :
    Acts u i f host (i.act u limit globals f host) := by
  have hsame := Host.SameCallables.refl host
  have hnone := Frame.Popped.refl f
  cases i with
  | pushNumber n => exact quietly_acts (hnone.deliver_benign rfl rfl rfl _) hsame
  | pushBool b => exact quietly_acts (hnone.deliver_benign rfl rfl rfl _) hsame
  | pushVoid => exact quietly_acts (hnone.deliver_benign rfl rfl rfl _) hsame
  | pushString id =>
    have hstring : Benign (fun _ => True) ((u.string id).map Value.string) :=
      (CodeUnit.string_benign hvalid).map fun _ _ => trivial
    exact quietly_acts (hnone.deliverResult_benign rfl rfl rfl hstring) hsame
  | pop => exact quietly_acts ((Frame.pop_benign hpops).map fun _ hr => hr.moves rfl rfl rfl) hsame
  | loadLocal slot =>
    have hslot : slot < f.locals.size := Nat.lt_of_lt_of_le hvalid hlocals
    exact quietly_acts (hnone.deliverResult_benign rfl rfl rfl (Frame.getLocal_benign hslot)) hsame
  | storeLocal slot =>
    refine quietly_acts ((Frame.pop_benign hpops).bind fun r hr => ?_) hsame
    have hslot : slot < r.2.locals.size := hr.locals_size ▸ Nat.lt_of_lt_of_le hvalid hlocals
    exact (Frame.setLocal_benign r.1 hslot).bind fun g hg => (hr.trans hg).moves rfl rfl rfl
  | loadGlobal id =>
    have hid : id < globals.size := Nat.lt_of_lt_of_eq hvalid hglobals
    refine quietly_acts ?_ hsame
    rw [Array.getElem?_eq_getElem hid]
    exact hnone.deliver_benign rfl rfl rfl _
  | storeGlobal id =>
    have hid : id < globals.size := Nat.lt_of_lt_of_eq hvalid hglobals
    refine quietly_acts ((Frame.pop_benign hpops).bind fun r hr => ?_) hsame
    simp only [hid, if_true]
    exact hr.moves rfl rfl rfl
  | loadHost name => exact actLoadHost_acts hvalid
  | storeHost name => exact actStoreHost_acts hvalid hpops
  | makeArray count =>
    exact quietly_acts ((Frame.popMany_benign hpops).bind
        fun r hr => hr.deliver_benign rfl rfl rfl _) hsame
  | loadIndex =>
    have hpops : 2 ≤ f.stack.size := hpops
    refine quietly_acts ((Frame.pop_benign (by omega)).bind fun r hr => ?_) hsame
    have hsize := hr.stack_size
    exact (Frame.pop_benign (by omega)).bind fun r' hr' =>
      (hr.trans hr').deliverResult_benign rfl rfl rfl (Value.element_benign _ _)
  | storeIndex =>
    have hpops : 3 ≤ f.stack.size := hpops
    refine quietly_acts ((Frame.pop_benign (by omega)).bind fun r hr => ?_) hsame
    have hsize := hr.stack_size
    refine (Frame.pop_benign (by omega)).bind fun r' hr' => ?_
    have hsize' := hr'.stack_size
    exact (Frame.pop_benign (by omega)).bind fun r'' hr'' =>
      ((hr.trans hr').trans hr'').deliverResult_benign rfl rfl rfl (Value.withElement_benign _ _ _)
  | unary op =>
    exact quietly_acts ((Frame.pop_benign hpops).bind fun r hr =>
      hr.deliverResult_benign rfl rfl rfl (op.apply_benign _)) hsame
  | binary op =>
    have hpops : 2 ≤ f.stack.size := hpops
    refine quietly_acts ((Frame.pop_benign (by omega)).bind fun r hr => ?_) hsame
    have hsize := hr.stack_size
    exact (Frame.pop_benign (by omega)).bind fun r' hr' =>
      (hr.trans hr').deliverResult_benign rfl rfl rfl (op.apply_benign _ _)
  | jump target => exact quietly_acts (show Benign _ (.ok _) from hnone.moves_goto rfl rfl) hsame
  | jumpIfFalse target => exact quietly_acts (Frame.branch_benign hpops rfl rfl rfl rfl) hsame
  | jumpIfTrue target => exact quietly_acts (Frame.branch_benign hpops rfl rfl rfl rfl) hsame
  | iterNext array cursor exit =>
    obtain ⟨harray, hcursor, -⟩ := hvalid
    exact quietly_acts (Frame.advance_benign (Nat.lt_of_lt_of_le harray hlocals)
      (Nat.lt_of_lt_of_le hcursor hlocals)) hsame
  | callScript function argc =>
    refine quietly_acts ((Frame.popMany_benign hpops).bind fun r hr => ?_) hsame
    obtain ⟨entry, hentry, -⟩ := Option.map_eq_some_iff.mp hvalid
    exact ⟨hr.moves rfl rfl rfl, (Array.getElem?_eq_some_iff.mp hentry).1⟩
  | callNative name argc => exact actCallNative_acts htame hvalid hpops
  | callMethod name argc => exact actCallMethod_acts htame hvalid hpops
  | returnValue => exact quietly_acts ((Frame.pop_benign hpops).map fun _ _ => trivial) hsame
  | returnVoid => exact quietly_acts (show Benign _ (.ok _) from trivial) hsame

end Instruction

end HostScript
