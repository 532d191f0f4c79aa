import HostScript.Proofs.Execution.Instructions
import HostScript.Proofs.Machine.Transitions

/-!
# Ways to call a script function

A script calls a function of its own by number, or through the host: by the name of a native or of
a method that holds a handle of the function, or whose body does nothing but call it. All of these
open the same call, above the same caller, or fail in the same way when too many calls are open.
With a wrong number of arguments none of them opens a call. Then only the name in the error
depends on who noticed.
-/

namespace HostScript

open Machine

variable {σ : Type}

/-- Whether a handle refers to a function of a unit. -/
structure ScriptHandle.RefersTo (handle : ScriptHandle) (u : CodeUnit) (entry : Entry) : Prop where
  function_eq : u.functions[handle.id]? = some entry
  name_eq : handle.name = entry.name
  arity_eq : handle.arity = entry.arity

/-- A handle that was looked up in a unit refers to a function of it. -/
theorem CodeUnit.handle?_refersTo {u : CodeUnit} {name : String} {handle : ScriptHandle}
    (h : u.handle? name = some handle) : ∃ entry, handle.RefersTo u entry := by
  obtain ⟨⟨id, entry⟩, hfound, rfl⟩ := Option.map_eq_some_iff.mp h
  refine ⟨entry, ?_, rfl, rfl⟩
  unfold functionByName? at hfound
  split at hfound
  · obtain ⟨_, hentry, heq⟩ := Option.map_eq_some_iff.mp hfound
    cases heq
    exact hentry
  · cases hfound

/-- Whether the body of a native does nothing but call a script function: it returns what the handle
answers, or asks for the call itself. -/
inductive ScriptHandle.IsBody (handle : ScriptHandle) :
    (Array Value → σ → Except RuntimeError Outcome × σ) → Prop
  | call : IsBody handle fun args state =>
    ((handle.call args).mapError fun fault => { fault }, state)
  | invoke : IsBody handle fun args state => (.ok (.invoke handle.id args), state)

/-- Whether a callable, called under a name, does nothing but call a script function, and whose name
its error has when the number of arguments is wrong. -/
inductive Callable.Forwards (handle : ScriptHandle) (name : String) : Callable σ → String → Prop
  | handle : Forwards handle name (.script handle) name
  | fixed {body : Array Value → σ → Except RuntimeError Outcome × σ} (hbody : handle.IsBody body) :
      Forwards handle name (.native (some handle.arity) body) name
  | variadic {body : Array Value → σ → Except RuntimeError Outcome × σ}
      (hbody : handle.IsBody body) :
      Forwards handle name (.native none body) handle.name

/-- Whether an instruction calls a script function with some arguments, the operands that it takes
for that, and whose name its error has when the number of arguments is wrong. -/
inductive CodeUnit.Dispatches (u : CodeUnit) (host : Host σ) (handle : ScriptHandle)
    (args : Array Value) :
    Instruction → Array Value → String → Prop
  | script : Dispatches u host handle args (.callScript handle.id args.size) args handle.name
  | native {id : Nat} {name blamed : String} {callable : Callable σ}
      (hname : u.strings[id]? = some name) (hnative : host.natives[name]? = some callable)
      (hforwards : callable.Forwards handle name blamed) :
      Dispatches u host handle args (.callNative id args.size) args blamed
  | method {id : Nat} {name blamed : String} {object : ObjectId} {callable : Callable σ}
      (hname : u.strings[id]? = some name)
      (hmethod : host.method? object name host.state = some callable)
      (hforwards : callable.Forwards handle name blamed) :
      Dispatches u host handle args (.callMethod id args.size) (#[.object object] ++ args) blamed

section Forwarding

variable {handle : ScriptHandle} {name blamed : String} {callable : Callable σ} {args : Array Value}

theorem ScriptHandle.call_of_size_eq (h : args.size = handle.arity) :
    handle.call args = .ok (.invoke handle.id args) :=
  if_pos h

theorem ScriptHandle.call_of_size_ne (h : args.size ≠ handle.arity) :
    handle.call args = .error (.arityMismatch handle.name handle.arity args.size) :=
  if_neg h

/-- The body of a native that does nothing but call a script function, with the right
number of arguments. -/
theorem ScriptHandle.IsBody.of_size_eq {body : Array Value → σ → Except RuntimeError Outcome × σ}
    (hbody : handle.IsBody body) (h : args.size = handle.arity) (state : σ) :
    body args state = (.ok (.invoke handle.id args), state) := by
  cases hbody with
  | call =>
    dsimp only
    rw [ScriptHandle.call_of_size_eq h]
    rfl
  | invoke => rfl

/-- A callable that does nothing but call a script function asks for the call, or refuses a wrong
number of arguments. If it asks with a wrong number then the function itself is to notice. -/
theorem Callable.Forwards.callAs_cases (hforwards : callable.Forwards handle name blamed)
    (args : Array Value) (state : σ) :
    (callable.callAs name args state = (.ok (.invoke handle.id args), state) ∧
        (args.size ≠ handle.arity → blamed = handle.name)) ∨
      args.size ≠ handle.arity ∧
        callable.callAs name args state =
          (.error { fault := .arityMismatch blamed handle.arity args.size }, state) := by
  cases hforwards with
  | handle =>
    by_cases hsize : args.size = handle.arity
    · refine .inl ⟨?_, fun hne => absurd hsize hne⟩
      simp only [callAs, arity, call, if_pos hsize, ScriptHandle.call_of_size_eq hsize]
      rfl
    · exact .inr ⟨hsize, by simp only [callAs, arity, if_neg hsize]⟩
  | fixed hbody =>
    by_cases hsize : args.size = handle.arity
    · refine .inl ⟨?_, fun hne => absurd hsize hne⟩
      simp only [callAs, arity, call, if_pos hsize]
      exact hbody.of_size_eq hsize state
    · exact .inr ⟨hsize, by simp only [callAs, arity, if_neg hsize]⟩
  | variadic hbody =>
    by_cases hsize : args.size = handle.arity
    · exact .inl ⟨hbody.of_size_eq hsize state, fun _ => rfl⟩
    · cases hbody with
      | call =>
        refine .inr ⟨hsize, ?_⟩
        simp only [callAs, arity, call, ScriptHandle.call_of_size_ne hsize]
        rfl
      | invoke => exact .inl ⟨rfl, fun _ => rfl⟩

variable {host : Host σ}

/-- What calling such a callable asks of the machine. -/
theorem Instruction.actCall_of_forwards (hforwards : callable.Forwards handle name blamed)
    {limit : Nat} {f : Frame} :
    (actCall limit f host callable name args = (.ok (.call f handle.id args), host) ∧
        (args.size ≠ handle.arity → blamed = handle.name)) ∨
      args.size ≠ handle.arity ∧
        actCall limit f host callable name args =
          (.error { fault := .arityMismatch blamed handle.arity args.size }, host) := by
  rcases hforwards.callAs_cases args host.state with ⟨hcall, hblamed⟩ | ⟨hsize, hcall⟩
  · refine .inl ⟨?_, hblamed⟩
    simp only [actCall, Host.call, hcall]
    rfl
  · refine .inr ⟨hsize, ?_⟩
    simp only [actCall, Host.call, hcall]

variable {u : CodeUnit} {i : Instruction} {operands : Array Value}

/-- An instruction that calls a script function asks for the call by a frame without the operands,
or refuses a wrong number of arguments. -/
theorem CodeUnit.Dispatches.act_cases (hcall : u.Dispatches host handle args i operands blamed)
    (limit : Nat) (globals : Array Value) (function : Option Nat) (pc : Nat)
    (locals stack : Array Value) :
    (i.act u limit globals ⟨function, pc, locals, stack ++ operands⟩ host =
        (.ok (.call ⟨function, pc, locals, stack⟩ handle.id args), host) ∧
      (args.size ≠ handle.arity → blamed = handle.name)) ∨
    args.size ≠ handle.arity ∧
      i.act u limit globals ⟨function, pc, locals, stack ++ operands⟩ host =
        (.error { fault := .arityMismatch blamed handle.arity args.size }, host) := by
  cases hcall with
  | script =>
    refine .inl ⟨?_, fun _ => rfl⟩
    simp only [Instruction.act, Frame.popMany_append]
    rfl
  | native hname hnative hforwards =>
    simp only [Instruction.act, Instruction.actCallNative, Frame.popMany_append, CodeUnit.string,
      hname, hnative]
    exact Instruction.actCall_of_forwards hforwards
  | @method id name blamed object callable hname hmethod hforwards =>
    -- the receiver lies under the arguments, so it is popped after them
    have hoperands :
        stack ++ (#[.object object] ++ args) = stack.push (.object object) ++ args := by
      rw [← Array.append_assoc, Array.push_eq_append]
    rw [hoperands]
    simp only [Instruction.act, Instruction.actCallMethod, Frame.popMany_append, Frame.pop_push,
      CodeUnit.string, hname, hmethod]
    exact Instruction.actCall_of_forwards hforwards

end Forwarding

/-- What opening a call of a function comes to: the number of arguments is compared first, then the
number of open calls. -/
theorem CodeUnit.openCall_of_function {u : CodeUnit} {id : Nat} {entry : Entry}
    (h : u.functions[id]? = some entry) (limits : Limits) (depth : Nat) (args : Array Value) :
    u.openCall limits depth id args =
      if args.size ≠ entry.arity then .error (.arityMismatch entry.name entry.arity args.size)
      else if limits.callDepth ≤ depth then .error (.callOverflow limits.callDepth)
      else .ok ⟨some id, entry.start,
          args ++ Array.replicate (max entry.locals entry.arity - args.size) .void, #[]⟩ := by
  unfold openCall
  rw [h]

/-- Every way of calling a script function, by its number, by the name of a native or of a method,
with the arguments on top of the stack and the receiver of a method under them, has one outcome.
With as many arguments as the function has parameters, a call of it is open afterwards whose locals
are the arguments and then void, above the caller without the operands and after the instruction;
or, if too many calls are open, the machine stops with the error that says so. With another number
of arguments it stops with an error that has both numbers. Script globals and host stay as they
were in each case. -/
theorem exec_dispatches {m : Machine} {host : Host σ} {handle : ScriptHandle} {entry : Entry}
    (hhandle : handle.RefersTo m.unit entry) {args operands : Array Value} {i : Instruction}
    {blamed : String} (hcall : m.unit.Dispatches host handle args i operands blamed)
    {function : Option Nat} {pc : Nat} {locals stack : Array Value}
    {callers : List Frame} (hcode : m.unit.code[pc]? = some i)
    (hstatus : m.status = .running ⟨function, pc, locals, stack ++ operands⟩ callers) :
    (args.size = entry.arity → callers.length + 1 < m.limits.callDepth →
      m.exec host =
        ({ m with
            status := .running
              ⟨some handle.id, entry.start,
                args ++ Array.replicate (max entry.locals entry.arity - entry.arity) .void, #[]⟩
              (⟨function, pc + 1, locals, stack⟩ :: callers) },
          host)) ∧
    (args.size = entry.arity → m.limits.callDepth ≤ callers.length + 1 →
      m.exec host =
        ({ m with
            status := .faulted
              { fault := .callOverflow m.limits.callDepth
                pc := some pc
                trace := m.unit.trace pc function callers } },
          host)) ∧
    (args.size ≠ entry.arity →
      m.exec host =
        ({ m with
            status := .faulted
              { fault := .arityMismatch blamed entry.arity args.size
                pc := some pc
                trace := m.unit.trace pc function callers } },
          host)) := by
  have hopen := CodeUnit.openCall_of_function hhandle.function_eq m.limits (callers.length + 1) args
  have hexec := exec_eq_settle hstatus hcode host
  simp only [Frame.goto] at hexec
  rw [← hhandle.arity_eq] at hopen ⊢
  rcases hcall.act_cases m.limits.operands m.globals function (pc + 1) locals stack with
    ⟨hact, hblamed⟩ | ⟨hsize, hact⟩
  · simp only [hact, settle, follow, assigned, hopen] at hexec
    refine ⟨fun hsize hdepth => ?_, fun hsize hdepth => ?_, fun hsize => ?_⟩
    · rw [hexec, if_neg (not_not_intro hsize), if_neg (Nat.not_le_of_lt hdepth), hsize]
    · rw [hexec, if_neg (not_not_intro hsize), if_pos hdepth]
    · rw [hexec, if_pos hsize, hblamed hsize, hhandle.name_eq]
  · refine ⟨fun heq => absurd heq hsize, fun heq => absurd heq hsize, fun _ => ?_⟩
    rw [hexec, hact]
    rfl

/-- A unit with a function of one parameter and one more local, which is called by a
method and by a native. -/
def twiceUnit : CodeUnit where
  code := #[.callMethod 0 1, .callNative 0 2, .returnVoid, .returnVoid]
  strings := #["twice"]
  top := ⟨topLevelName, 0, 0, 0⟩
  functions := #[⟨"Twice", 3, 1, 2⟩]

/-- A host that holds the handle of that function as a method of each object, and
calls it in a native. -/
def twiceHost : Host Unit where
  state := ()
  natives := ({} : Std.TreeMap String (Callable Unit)).insert "twice"
    (.native none fun args state => (.ok (.invoke 0 args), state))
  method? _ _ _ := some (.script ⟨0, "Twice", 1⟩)

/-- The method opens the call with the argument and void as locals. The native has one argument too
many, which the function notices. -/
theorem twiceUnit_dispatches :
    twiceUnit.handle? "Twice" = some ⟨0, "Twice", 1⟩ ∧
    (⟨twiceUnit, {}, #[],
          .running ⟨none, 0, #[], #[.void, .object ⟨7⟩, .boolean true]⟩ []⟩ : Machine).exec
        twiceHost =
      (⟨twiceUnit, {}, #[],
          .running ⟨some 0, 3, #[.boolean true, .void], #[]⟩ [⟨none, 1, #[], #[.void]⟩]⟩,
        twiceHost) ∧
    (⟨twiceUnit, {}, #[], .running ⟨none, 1, #[], #[.boolean true, .void]⟩ []⟩ : Machine).exec
      twiceHost =
      (⟨twiceUnit, {}, #[],
          .faulted
            { fault := .arityMismatch "Twice" 1 2, pc := some 1, trace := [⟨topLevelName, 1⟩] }⟩,
        twiceHost) := by
  have hhandle : twiceUnit.handle? "Twice" = some ⟨0, "Twice", 1⟩ := by decide +kernel
  obtain ⟨entry, hrefers⟩ := CodeUnit.handle?_refersTo hhandle
  obtain rfl : (⟨"Twice", 3, 1, 2⟩ : Entry) = entry := Option.some.inj hrefers.function_eq
  have hmethod : twiceUnit.Dispatches twiceHost ⟨0, "Twice", 1⟩ #[.boolean true] (.callMethod 0 1)
      (#[.object ⟨7⟩] ++ #[.boolean true]) "twice" := .method rfl rfl .handle
  have hnative : twiceUnit.Dispatches twiceHost ⟨0, "Twice", 1⟩ #[.boolean true, .void]
      (.callNative 0 2) #[.boolean true, .void] "Twice" := .native rfl rfl (.variadic .invoke)
  have hopens := exec_dispatches (m := ⟨twiceUnit, {}, #[],
    .running ⟨none, 0, #[], #[.void] ++ (#[.object ⟨7⟩] ++ #[.boolean true])⟩ []⟩) hrefers
    hmethod rfl rfl
  have hrefuses := exec_dispatches (m := ⟨twiceUnit, {}, #[],
    .running ⟨none, 1, #[], #[] ++ #[.boolean true, .void]⟩ []⟩) hrefers hnative rfl rfl
  exact ⟨hhandle, hopens.1 rfl (by decide), hrefuses.2.2 (by decide)⟩

end HostScript
