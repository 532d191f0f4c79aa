import HostScript.Proofs.Machine.Lifecycle
import HostScript.Proofs.Machine.Visibility

/-!
# What an instruction stores

The script globals change where a store into one of them succeeds, and nowhere else; there are
always as many of them. An instruction that fails has stored nothing, neither in the machine
nor in the host. What a host may have changed by then it has changed itself: a computed global
that was read, or a callable that was called. Storing into a global of the host that fails runs
no code of the host.
-/

namespace HostScript

open Machine

variable {σ : Type}

/-- Whether an action leaves the script globals alone. -/
def Action.StoresNothing : Action → Prop
  | .assign _ _ _ => False
  | .proceed _ | .call _ _ _ | .leave _ => True

theorem Action.StoresNothing.assigned_eq {action : Action} (h : action.StoresNothing)
    (globals : Array Value) : assigned globals action = globals := by
  cases action with
  | assign frame id value => exact h.elim
  | _ => rfl

namespace Frame

theorem deliver_storesNothing (f : Frame) (limit : Nat) (value : Value) :
    Gives Action.StoresNothing (f.deliver limit value) := by
  unfold deliver push
  split <;> trivial

theorem deliverResult_storesNothing (f : Frame) (limit : Nat) (result : Except Fault Value) :
    Gives Action.StoresNothing (f.deliverResult limit result) := by
  cases result with
  | ok value => exact f.deliver_storesNothing limit value
  | error fault => trivial

theorem branch_storesNothing (f : Frame) (when : Bool) (target : Nat) :
    Gives Action.StoresNothing (f.branch when target) :=
  Gives.bind_right fun _ => trivial

theorem advance_storesNothing (f : Frame) (limit array cursor exit : Nat) :
    Gives Action.StoresNothing (f.advance limit array cursor exit) := by
  unfold advance
  apply Gives.bind_right
  intro position
  cases position with
  | number n =>
    apply Gives.bind_right
    intro source
    cases source with
    | array items =>
      dsimp only
      cases items[Number.count n]? with
      | none => trivial
      | some item => exact Gives.bind_right fun f => f.deliver_storesNothing limit item
    | _ => trivial
  | _ => trivial

end Frame

namespace Instruction

variable {i : Instruction} {u : CodeUnit} {limit : Nat} {globals : Array Value} {f : Frame}
  {host : Host σ}

theorem actCall_storesNothing (callable : Callable σ) (name : String) (args : Array Value) :
    Gives Action.StoresNothing (actCall limit f host callable name args).1 := by
  unfold actCall
  split
  · trivial
  next outcome host' _ =>
    apply quietly_gives
    cases outcome with
    | immediate value => exact f.deliver_storesNothing limit value
    | invoke function args => trivial

/-- An instruction that is not there to store into a script global asks for no such store. -/
theorem act_storesNothing (hi : ∀ id, i ≠ .storeGlobal id) :
    Gives Action.StoresNothing (i.act u limit globals f host).1 := by
  cases i with
  | pushNumber n => exact quietly_gives (f.deliver_storesNothing limit _)
  | pushString id => exact quietly_gives (f.deliverResult_storesNothing limit _)
  | pushBool b => exact quietly_gives (f.deliver_storesNothing limit _)
  | pushVoid => exact quietly_gives (f.deliver_storesNothing limit _)
  | pop => exact quietly_gives (f.pop_gives.map fun _ _ => trivial)
  | loadLocal slot => exact quietly_gives (f.deliverResult_storesNothing limit _)
  | storeLocal slot =>
    exact quietly_gives (Gives.bind_right fun _ => Gives.bind_right fun _ => trivial)
  | loadGlobal id =>
    apply quietly_gives
    split
    · exact f.deliver_storesNothing limit _
    · trivial
  | storeGlobal id => exact absurd rfl (hi id)
  | loadHost name =>
    simp only [act, actLoadHost]
    split
    · trivial
    · exact quietly_gives (f.deliverResult_storesNothing limit _)
  | storeHost name =>
    simp only [act, actStoreHost]
    split
    · trivial
    · split
      · trivial
      · split <;> trivial
  | makeArray count =>
    exact quietly_gives (Gives.bind_right fun r => r.2.deliver_storesNothing limit _)
  | loadIndex =>
    exact quietly_gives (Gives.bind_right fun _ => Gives.bind_right fun r =>
      r.2.deliverResult_storesNothing limit _)
  | storeIndex =>
    exact quietly_gives (Gives.bind_right fun _ => Gives.bind_right fun _ =>
      Gives.bind_right fun r => r.2.deliverResult_storesNothing limit _)
  | unary op =>
    exact quietly_gives (Gives.bind_right fun r => r.2.deliverResult_storesNothing limit _)
  | binary op =>
    exact quietly_gives (Gives.bind_right fun _ => Gives.bind_right fun r =>
      r.2.deliverResult_storesNothing limit _)
  | jump target => trivial
  | jumpIfFalse target => exact quietly_gives (f.branch_storesNothing false target)
  | jumpIfTrue target => exact quietly_gives (f.branch_storesNothing true target)
  | iterNext array cursor exit =>
    exact quietly_gives (f.advance_storesNothing limit array cursor exit)
  | callScript function argc => exact quietly_gives (Gives.bind_right fun _ => trivial)
  | callNative name argc =>
    simp only [act, actCallNative]
    split
    · trivial
    · split
      · trivial
      · split
        · trivial
        · exact actCall_storesNothing _ _ _
  | callMethod name argc =>
    simp only [act, actCallMethod]
    split
    · trivial
    · split
      · trivial
      · split
        · trivial
        · split
          · trivial
          · exact actCall_storesNothing _ _ _
      · trivial
  | returnValue => exact quietly_gives (f.pop_gives.map fun _ _ => trivial)
  | returnVoid => trivial

/-- A store into a script global fails, or stores the topmost operand into the global that it
names. -/
theorem act_storeGlobal_cases (u : CodeUnit) (limit : Nat) (globals : Array Value) (f : Frame)
    (host : Host σ) (id : Nat) :
    (∃ error, act u limit globals f host (.storeGlobal id) = (.error error, host)) ∨
      ∃ value g, id < globals.size ∧ f.stack.back? = some value ∧
        act u limit globals f host (.storeGlobal id) = (.ok (.assign g id value), host) := by
  have hpop := f.pop_gives
  simp only [act, quietly]
  cases hresult : f.pop with
  | error fault => exact .inl ⟨_, rfl⟩
  | ok r =>
    rw [hresult] at hpop
    by_cases hid : id < globals.size
    · exact .inr ⟨r.1, r.2, hid, hpop.1,
        by simp [bind, Except.bind, hid, Except.mapError, pure, Except.pure]⟩
    · exact .inl ⟨{ fault := .noGlobal id }, by simp [bind, Except.bind, hid, Except.mapError]⟩

end Instruction

section Host

/-- Whether an instruction may run code of the host: it reads a global that is computed, or calls a
native or a method. -/
def CodeUnit.RunsHost (u : CodeUnit) (host : Host σ) : Instruction → Prop
  | .loadHost id =>
    ∃ name get set, u.strings[id]? = some name ∧ host.globals[name]? = some (.computed get set)
  | .callNative _ _ | .callMethod _ _ => True
  | _ => False

/-- Why a store into a global of the host is refused: there is no operand, no name, no global of
that name, which may be the name of a native, or the global is read-only. -/
inductive CodeUnit.RefusesStore (u : CodeUnit) (host : Host σ) (stack : Array Value)
    (id : Nat) : Fault → Prop
  | empty (hstack : stack = #[]) : RefusesStore u host stack id .stackUnderflow
  | noString (hstack : stack ≠ #[]) (hname : u.strings[id]? = none) :
      RefusesStore u host stack id (.noString id)
  | missing {name : String} (hstack : stack ≠ #[]) (hname : u.strings[id]? = some name)
      (hglobal : host.globals[name]? = none) : RefusesStore u host stack id (host.missing name)
  | readOnly {name : String} {get : σ → Value × σ}
      (hstack : stack ≠ #[]) (hname : u.strings[id]? = some name)
      (hglobal : host.globals[name]? = some (.computed get none)) :
      RefusesStore u host stack id (.readOnlyGlobal name)

/-- The global with another setter, if it has one. -/
def Global.withSetter (set : Value → σ → σ) : Global σ → Global σ
  | .computed get (some _) => .computed get (some set)
  | global => global

/-- The host with another setter for each global that has one. -/
def Host.withSetters (host : Host σ) (set : String → Value → σ → σ) : Host σ :=
  { host with globals := host.globals.map fun name global => global.withSetter (set name) }

variable {u : CodeUnit} {limit : Nat} {globals : Array Value} {f : Frame} {host : Host σ} {id : Nat}
  {fault : Fault}

theorem Host.globals_withSetters (host : Host σ) (set : String → Value → σ → σ) (name : String) :
    (host.withSetters set).globals[name]? =
      host.globals[name]?.map (Global.withSetter (set name)) :=
  Std.TreeMap.getElem?_map

/-- A store is refused whatever the setters are. -/
theorem CodeUnit.RefusesStore.withSetters {stack : Array Value}
    (h : u.RefusesStore host stack id fault) (set : String → Value → σ → σ) :
    u.RefusesStore (host.withSetters set) stack id fault := by
  cases h with
  | empty hstack => exact .empty hstack
  | noString hstack hname => exact .noString hstack hname
  | @missing name hstack hname hglobal =>
    have hnone : (host.withSetters set).globals[name]? = none := by
      rw [Host.globals_withSetters, hglobal]
      rfl
    exact .missing hstack hname hnone
  | @readOnly name get hstack hname hglobal =>
    have hsame : (host.withSetters set).globals[name]? = some (.computed get none) := by
      rw [Host.globals_withSetters, hglobal]
      rfl
    exact .readOnly hstack hname hsame

theorem Frame.pop_of_ne_empty (h : f.stack ≠ #[]) :
    ∃ value, f.pop = .ok (value, { f with stack := f.stack.pop }) := by
  cases hback : f.stack.back? with
  | none => exact absurd (Array.back?_eq_none_iff.mp hback) h
  | some value => exact ⟨value, by rw [Frame.pop, hback]⟩

namespace Instruction

/-- A store into a global of the host that is refused fails, and the host is as it was. -/
theorem act_storeHost_of_refuses (h : u.RefusesStore host f.stack id fault) :
    act u limit globals f host (.storeHost id) = (.error { fault }, host) := by
  cases h with
  | empty hstack =>
    have hpop : f.pop = .error .stackUnderflow := by
      rw [Frame.pop, hstack]
      rfl
    simp only [act, actStoreHost, hpop]
    rfl
  | noString hstack hname =>
    obtain ⟨value, hpop⟩ := Frame.pop_of_ne_empty hstack
    simp only [act, actStoreHost, hpop, CodeUnit.string, hname]
    rfl
  | missing hstack hname hglobal =>
    obtain ⟨value, hpop⟩ := Frame.pop_of_ne_empty hstack
    simp only [act, actStoreHost, hpop, CodeUnit.string, hname, Host.write, hglobal]
    rfl
  | readOnly hstack hname hglobal =>
    obtain ⟨value, hpop⟩ := Frame.pop_of_ne_empty hstack
    simp only [act, actStoreHost, hpop, CodeUnit.string, hname, Host.write, hglobal]
    rfl

/-- A store into a global of the host is refused, or the frame goes on without the topmost
operand. -/
theorem act_storeHost_cases (u : CodeUnit) (limit : Nat) (globals : Array Value) (f : Frame)
    (host : Host σ) (id : Nat) :
    (∃ fault, u.RefusesStore host f.stack id fault) ∨
      ∃ g host', act u limit globals f host (.storeHost id) = (.ok (.proceed g), host') := by
  by_cases hstack : f.stack = #[]
  · exact .inl ⟨_, .empty hstack⟩
  · obtain ⟨value, hpop⟩ := Frame.pop_of_ne_empty hstack
    cases hname : u.strings[id]? with
    | none => exact .inl ⟨_, .noString hstack hname⟩
    | some name =>
      simp only [act, actStoreHost, hpop, CodeUnit.string, hname, Host.write]
      cases hglobal : host.globals[name]? with
      | none => exact .inl ⟨_, .missing hstack hname hglobal⟩
      | some global =>
        cases global with
        | plain old => exact .inr ⟨_, _, rfl⟩
        | computed get set =>
          cases set with
          | some set => exact .inr ⟨_, _, rfl⟩
          | none => exact .inl ⟨_, .readOnly hstack hname hglobal⟩

theorem actCall_host (callable : Callable σ) (name : String) (args : Array Value) :
    ∃ state, (actCall limit f host callable name args).2 = { host with state } := by
  unfold actCall Host.call
  rcases callable.callAs name args host.state with ⟨result, state⟩
  cases result with
  | ok outcome => exact ⟨state, rfl⟩
  | error error => exact ⟨state, rfl⟩

/-- An instruction that is not there to store into a global of the host changes the state of the
host at most, and that only by code of the host. -/
theorem act_host (u : CodeUnit) (limit : Nat) (globals : Array Value) (f : Frame) (host : Host σ)
    {i : Instruction} (hi : ∀ id, i ≠ .storeHost id) :
    ∃ state, (i.act u limit globals f host).2 = { host with state } ∧
      (state = host.state ∨ u.RunsHost host i) := by
  cases i with
  | storeHost id => exact absurd rfl (hi id)
  | loadHost id =>
    simp only [act, actLoadHost, CodeUnit.string]
    cases hname : u.strings[id]? with
    | none => exact ⟨host.state, rfl, .inl rfl⟩
    | some name =>
      simp only [Host.read, Host.global?]
      cases hglobal : host.globals[name]? with
      | none => exact ⟨host.state, rfl, .inl rfl⟩
      | some global =>
        cases global with
        | plain value => exact ⟨host.state, rfl, .inl rfl⟩
        | computed get set => exact ⟨(get host.state).2, rfl, .inr ⟨name, get, set, hname, hglobal⟩⟩
  | callNative id argc =>
    have hsame : ∃ state, host = { host with state } := ⟨host.state, rfl⟩
    have hstate :
        ∃ state, (act u limit globals f host (.callNative id argc)).2 = { host with state } := by
      simp only [act, actCallNative]
      split
      · exact hsame
      · split
        · exact hsame
        · split
          · exact hsame
          · exact actCall_host _ _ _
    obtain ⟨state, hstate⟩ := hstate
    exact ⟨state, hstate, .inr trivial⟩
  | callMethod id argc =>
    have hsame : ∃ state, host = { host with state } := ⟨host.state, rfl⟩
    have hstate :
        ∃ state, (act u limit globals f host (.callMethod id argc)).2 = { host with state } := by
      simp only [act, actCallMethod]
      split
      · exact hsame
      · split
        · exact hsame
        · split
          · exact hsame
          · split
            · exact hsame
            · exact actCall_host _ _ _
        · exact hsame
    obtain ⟨state, hstate⟩ := hstate
    exact ⟨state, hstate, .inr trivial⟩
  | _ => exact ⟨host.state, rfl, .inl rfl⟩

end Instruction

end Host

namespace Machine

variable {m : Machine} {f : Frame} {callers : List Frame}

/-- A machine that has left the code faults. -/
theorem exec_of_no_instruction (hstatus : m.status = .running f callers)
    (hcode : m.unit.code[f.pc]? = none) (host : Host σ) :
    ∃ error, m.exec host = ({ m with status := .faulted error }, host) := by
  obtain ⟨u, limits, globals, status⟩ := m
  obtain rfl : status = .running f callers := hstatus
  simp only [exec, hcode]
  exact ⟨_, rfl⟩

/-- An instruction stores into a script global that it names, and goes on, or leaves the
script globals alone. -/
theorem exec_globals (m : Machine) (host : Host σ) :
    (m.exec host).1.globals = m.globals ∨
      ∃ f callers id value, m.status = .running f callers ∧
        m.unit.code[f.pc]? = some (.storeGlobal id) ∧
        f.stack.back? = some value ∧ id < m.globals.size ∧ (m.exec host).1.isRunning ∧
        (m.exec host).1.globals = m.globals.setIfInBounds id value := by
  cases hstatus : m.status with
  | done => exact .inl (by rw [exec_of_not_running host (by rw [isRunning, hstatus])])
  | faulted error => exact .inl (by rw [exec_of_not_running host (by rw [isRunning, hstatus])])
  | running f callers =>
    cases hcode : m.unit.code[f.pc]? with
    | none =>
      obtain ⟨error, hexec⟩ := exec_of_no_instruction hstatus hcode host
      exact .inl (by rw [hexec])
    | some i =>
      rw [exec_eq_settle hstatus hcode]
      by_cases hi : ∃ id, i = .storeGlobal id
      · obtain ⟨id, rfl⟩ := hi
        rcases Instruction.act_storeGlobal_cases m.unit m.limits.operands m.globals
          (f.goto (f.pc + 1)) host id with ⟨error, hact⟩ | ⟨value, g, hid, hvalue, hact⟩
        · rw [hact]
          exact .inl rfl
        · rw [hact]
          exact .inr ⟨f, callers, id, value, rfl, hcode, hvalue, hid, rfl, rfl⟩
      · have hnothing : Gives Action.StoresNothing
            (i.act m.unit m.limits.operands m.globals (f.goto (f.pc + 1)) host).1 :=
          Instruction.act_storesNothing fun id hid => hi ⟨id, hid⟩
        refine .inl ?_
        cases hact : (i.act m.unit m.limits.operands m.globals (f.goto (f.pc + 1)) host).1 with
        | error error => rfl
        | ok action =>
          rw [hact] at hnothing
          exact hnothing.assigned_eq m.globals

/-- A run keeps the number of script globals. -/
theorem size_globals_execMany (m : Machine) (host : Host σ) (n : Nat) :
    (m.execMany host n).1.globals.size = m.globals.size := by
  induction n generalizing m host with
  | zero => rfl
  | succ n ih =>
    have hfirst : (m.exec host).1.globals.size = m.globals.size := by
      rcases m.exec_globals host with heq | ⟨f, callers, id, value, -, -, -, -, -, heq⟩
      · rw [heq]
      · rw [heq, Array.size_setIfInBounds]
    exact (ih (m.exec host).1 (m.exec host).2).trans hfirst

/-- A store into a global of the host that is refused stops the machine, and the host is as it
was. -/
theorem exec_storeHost_of_refuses (hstatus : m.status = .running f callers) {id : Nat}
    (hcode : m.unit.code[f.pc]? = some (.storeHost id)) {host : Host σ} {fault : Fault}
    (h : m.unit.RefusesStore host f.stack id fault) :
    m.exec host =
      ({ m with
          status := .faulted
            { fault, pc := some f.pc, trace := m.unit.trace f.pc f.function callers } },
        host) := by
  rw [exec_eq_settle hstatus hcode, Instruction.act_storeHost_of_refuses (f := f.goto (f.pc + 1)) h]
  rfl

/-- A machine that faults has changed the state of the host at most, and that only by code of the
host. -/
theorem exec_host_of_fault {host : Host σ} {error : RuntimeError}
    (h : (m.exec host).1.fault? = some error) :
    ∃ state, (m.exec host).2 = { host with state } ∧
      (state = host.state ∨ ∃ f callers i, m.status = .running f callers ∧
        m.unit.code[f.pc]? = some i ∧
        m.unit.RunsHost host i) := by
  cases hstatus : m.status with
  | done =>
    exact ⟨host.state, by rw [exec_of_not_running host (by rw [isRunning, hstatus])], .inl rfl⟩
  | faulted error =>
    exact ⟨host.state, by rw [exec_of_not_running host (by rw [isRunning, hstatus])], .inl rfl⟩
  | running f callers =>
    cases hcode : m.unit.code[f.pc]? with
    | none =>
      obtain ⟨error, hexec⟩ := exec_of_no_instruction hstatus hcode host
      exact ⟨host.state, by rw [hexec], .inl rfl⟩
    | some i =>
      by_cases hi : ∃ id, i = .storeHost id
      · obtain ⟨id, rfl⟩ := hi
        rw [exec_eq_settle hstatus hcode] at h ⊢
        rcases Instruction.act_storeHost_cases m.unit m.limits.operands m.globals
          (f.goto (f.pc + 1)) host id with ⟨fault, hrefuses⟩ | ⟨g, host', hact⟩
        · rw [Instruction.act_storeHost_of_refuses hrefuses]
          exact ⟨host.state, rfl, .inl rfl⟩
        · rw [hact] at h
          cases h
      · rw [exec_eq_settle hstatus hcode]
        obtain ⟨state, hhost, hruns⟩ := Instruction.act_host m.unit m.limits.operands m.globals
          (f.goto (f.pc + 1)) host fun id hid => hi ⟨id, hid⟩
        exact ⟨state, hhost, hruns.imp_right fun h => ⟨f, callers, i, rfl, hcode, h⟩⟩

end Machine

/-- Whatever the unit, the host and the state of the machine: an instruction changes the script
globals only where it stores the topmost operand into one of them and the machine runs on, and
their number is the same all along a run. An instruction that fails leaves the script globals as
they were, no call is open afterwards, and of the host at most the state has changed, by a
computed global that was read or by a callable. A store into a global of the host that fails has
one of the known causes and leaves the host as it was; it runs no setter, as it does the same
whatever the setters are. -/
theorem exec_stores_atomically (m : Machine) (host : Host σ) :
    ((m.exec host).1.globals = m.globals ∨
      ∃ f callers id value, m.status = .running f callers ∧
        m.unit.code[f.pc]? = some (.storeGlobal id) ∧
        f.stack.back? = some value ∧ id < m.globals.size ∧ (m.exec host).1.isRunning ∧
        (m.exec host).1.globals = m.globals.setIfInBounds id value) ∧
    (∀ n, (m.execMany host n).1.globals.size = m.globals.size) ∧
    ∀ error, (m.exec host).1.fault? = some error →
      (m.exec host).1.globals = m.globals ∧ (m.exec host).1.status.frames = [] ∧
      (∃ state, (m.exec host).2 = { host with state } ∧
        (state = host.state ∨ ∃ f callers i, m.status = .running f callers ∧
          m.unit.code[f.pc]? = some i ∧
          m.unit.RunsHost host i)) ∧
      ∀ f callers id, m.status = .running f callers → m.unit.code[f.pc]? = some (.storeHost id) →
        m.unit.RefusesStore host f.stack id error.fault ∧ (m.exec host).2 = host ∧
          ∀ set, m.exec (host.withSetters set) = ((m.exec host).1, host.withSetters set) := by
  refine ⟨m.exec_globals host, m.size_globals_execMany host, fun error herror => ?_⟩
  have hstatus := fault?_eq_some.mp herror
  refine ⟨?_, by rw [hstatus]; rfl, exec_host_of_fault herror,
    fun f callers id hrunning hcode => ?_⟩
  · rcases m.exec_globals host with heq | ⟨f, callers, id, value, -, -, -, -, hrunning, -⟩
    · exact heq
    · rw [isRunning, hstatus] at hrunning
      cases hrunning
  · rcases Instruction.act_storeHost_cases m.unit m.limits.operands m.globals
      (f.goto (f.pc + 1)) host id with ⟨fault, hrefuses⟩ | ⟨g, host', hact⟩
    · have hexec := exec_storeHost_of_refuses hrunning hcode hrefuses
      have hfault : fault = error.fault := by
        rw [hexec] at herror
        exact congrArg RuntimeError.fault (Option.some.inj herror)
      refine ⟨hfault ▸ hrefuses, by rw [hexec], fun set => ?_⟩
      rw [hexec]
      exact exec_storeHost_of_refuses hrunning hcode (hrefuses.withSetters set)
    · rw [exec_eq_settle hrunning hcode, hact] at herror
      cases herror

/-- Code that stores into a script global, and then into a global of the host. -/
def clockUnit : CodeUnit where
  code := #[.pushNumber 1.0, .storeGlobal 0, .pushNumber 2.0, .storeHost 0, .returnVoid]
  strings := #["now"]
  top := ⟨topLevelName, 0, 0, 0⟩
  globals := #["a"]

/-- A host with a clock, which is read-only, and a volume, which is not. -/
def clockHost : Host Nat where
  state := 5
  globals := (({} : Std.TreeMap String (Global Nat)).insert "now"
    (.computed (fun ticks => (.number (Float.ofNat ticks), ticks + 1)) none)).insert "volume"
    (.computed (fun ticks => (.number 11.0, ticks)) (some fun _ _ => 0))

/-- The first store changes the only script global. The second one fails, since a clock
cannot be set: the script global and the host are as they were, and would be so with any
setter of the volume. -/
theorem clockUnit_stores_atomically :
    ((after (start clockUnit {}, clockHost) 3).1.globals == #[.number 1.0]) = true ∧
    ∃ error, (after (start clockUnit {}, clockHost) 4).1.fault? = some error ∧
      error.fault = .readOnlyGlobal "now" ∧
      (after (start clockUnit {}, clockHost) 4).1.globals =
        (after (start clockUnit {}, clockHost) 3).1.globals ∧
      (after (start clockUnit {}, clockHost) 4).2 = (after (start clockUnit {}, clockHost) 3).2 ∧
      ∀ set, (after (start clockUnit {}, clockHost) 3).1.exec
          ((after (start clockUnit {}, clockHost) 3).2.withSetters set) =
        ((after (start clockUnit {}, clockHost) 4).1,
          (after (start clockUnit {}, clockHost) 3).2.withSetters set) := by
  have hfault : (after (start clockUnit {}, clockHost) 4).1.fault?.map (·.fault) =
      some (.readOnlyGlobal "now") := by
    decide +kernel
  obtain ⟨error, herror, hreadOnly⟩ := Option.map_eq_some_iff.mp hfault
  obtain ⟨-, -, hfaults⟩ := exec_stores_atomically (after (start clockUnit {}, clockHost) 3).1
    (after (start clockUnit {}, clockHost) 3).2
  rw [after_succ_last] at herror ⊢
  obtain ⟨hglobals, -, -, hstore⟩ := hfaults error herror
  obtain ⟨-, hhost, hsetters⟩ := hstore _ [] 0 rfl rfl
  exact ⟨by decide +kernel, error, herror, hreadOnly, hglobals, hhost, hsetters⟩

end HostScript
