import HostScript.Proofs.Compile.HostFree
import HostScript.Proofs.Machine.Actions
import HostScript.Proofs.Machine.Calls

/-!
# What a script sees of the host

An instruction turns to the host under a name from the pool of strings only. Hosts that have
the same under these names therefore cannot be told apart by a run: the machines stay equal,
and so do the states of the hosts. All that a run changes in a host is its state and the
globals under names of the pool. If no instruction turns to the host, neither the machine nor
the host depends on the other.
-/

namespace HostScript

variable {σ : Type}

namespace Host

/-- Whether two hosts have the same state, and the same natives, globals and methods under some
names. -/
structure AgreesOn (names : Array String) (host host' : Host σ) : Prop where
  state_eq : host'.state = host.state
  natives_eq : ∀ name ∈ names, host'.natives[name]? = host.natives[name]?
  globals_eq : ∀ name ∈ names, host'.globals[name]? = host.globals[name]?
  methods_eq : ∀ name ∈ names, ∀ id state, host'.method? id name state = host.method? id name state

/-- Whether a host comes from another that has kept its natives, its methods and, but for some
names, its globals. -/
structure KeepsBut (names : Array String) (host host' : Host σ) :
    Prop extends host.SameCallables host' where
  globals_eq : ∀ name ∉ names, host'.globals[name]? = host.globals[name]?

variable {names : Array String} {host host' : Host σ} {name : String}

theorem KeepsBut.refl (names : Array String) (host : Host σ) : host.KeepsBut names host :=
  ⟨SameCallables.refl host, fun _ _ => rfl⟩

theorem KeepsBut.trans {host'' : Host σ} (h : host.KeepsBut names host')
    (h' : host'.KeepsBut names host'') : host.KeepsBut names host'' :=
  ⟨⟨h'.natives_eq.trans h.natives_eq, h'.method_eq.trans h.method_eq⟩,
    fun name hname => (h'.globals_eq name hname).trans (h.globals_eq name hname)⟩

/-- Hosts that agree go on to agree in another state. -/
theorem AgreesOn.withState (h : host.AgreesOn names host') (state : σ) :
    AgreesOn names { host with state } { host' with state } :=
  ⟨rfl, h.natives_eq, h.globals_eq, h.methods_eq⟩

/-- The fault of a missing global depends on the natives under its name. -/
theorem AgreesOn.missing_eq (h : host.AgreesOn names host') (hname : name ∈ names) :
    host'.missing name = host.missing name := by
  unfold missing
  rw [Std.TreeMap.contains_eq_isSome_getElem?, Std.TreeMap.contains_eq_isSome_getElem?,
    h.natives_eq name hname]

theorem AgreesOn.read (h : host.AgreesOn names host') (hname : name ∈ names) :
    (host'.read name).1 = (host.read name).1 ∧
      (host.read name).2.AgreesOn names (host'.read name).2 := by
  unfold Host.read global?
  rw [h.globals_eq name hname, h.state_eq]
  cases host.globals[name]? with
  | none => exact ⟨congrArg Except.error (h.missing_eq hname), h⟩
  | some global =>
    cases global with
    | plain value => exact ⟨rfl, h⟩
    | computed get set => exact ⟨rfl, h.withState _⟩

/-- A global that is written is the same in both hosts afterwards. -/
theorem AgreesOn.insert (h : host.AgreesOn names host') (name : String) (global : Global σ) :
    AgreesOn names { host with globals := host.globals.insert name global }
      { host' with globals := host'.globals.insert name global } := by
  refine ⟨h.state_eq, h.natives_eq, fun other hother => ?_, h.methods_eq⟩
  simp only [Std.TreeMap.getElem?_insert, h.globals_eq other hother]

/-- Writing a global fails in both hosts or in none. -/
theorem AgreesOn.write (h : host.AgreesOn names host') (hname : name ∈ names) (value : Value) :
    (∃ fault, host.write name value = .error fault ∧ host'.write name value = .error fault) ∨
      ∃ g g', host.write name value = .ok g ∧ host'.write name value = .ok g' ∧
        g.AgreesOn names g' := by
  unfold Host.write
  rw [h.globals_eq name hname, h.missing_eq hname]
  cases host.globals[name]? with
  | none => exact .inl ⟨_, rfl, rfl⟩
  | some global =>
    cases global with
    | plain old => exact .inr ⟨_, _, rfl, rfl, h.insert name (.plain value)⟩
    | computed get set =>
      cases set with
      | some set =>
        refine .inr ⟨_, _, rfl, rfl, ?_⟩
        rw [h.state_eq]
        exact h.withState _
      | none => exact .inl ⟨_, rfl, rfl⟩

/-- Writing a global changes no other. -/
theorem write_keepsBut (hname : name ∈ names) {value : Value}
    (h : host.write name value = .ok host') : host.KeepsBut names host' := by
  refine ⟨Instruction.write_same h, fun other hother => ?_⟩
  have hne : name ≠ other := fun heq => hother (heq ▸ hname)
  unfold Host.write at h
  split at h
  · cases h
  · obtain rfl := Except.ok.inj h
    simp [Std.TreeMap.getElem?_insert, hne]
  · obtain rfl := Except.ok.inj h
    rfl
  · cases h

/-- Reading a global changes no global. -/
theorem read_keepsBut (names : Array String) (host : Host σ) (name : String) :
    host.KeepsBut names (host.read name).2 := by
  refine ⟨Instruction.read_same host name, fun other _ => ?_⟩
  unfold Host.read global?
  cases host.globals[name]? with
  | none => rfl
  | some global => cases global <;> rfl

end Host

/-- A string of a unit is in its pool. -/
theorem CodeUnit.mem_strings {u : CodeUnit} {id : Nat} {name : String}
    (h : u.string id = .ok name) : name ∈ u.strings := by
  unfold CodeUnit.string at h
  split at h
  next s hs =>
    obtain rfl := Except.ok.inj h
    exact Array.mem_of_getElem? hs
  next => cases h

namespace Instruction

/-- Whether two results are the same, and their hosts agree on some names. -/
structure Alike (names : Array String) (r r' : Except RuntimeError Action × Host σ) : Prop where
  result_eq : r'.1 = r.1
  host : r.2.AgreesOn names r'.2

variable {u : CodeUnit} {limit : Nat} {globals : Array Value} {frame : Frame} {host host' : Host σ}

theorem alike_quietly {names : Array String} (h : host.AgreesOn names host')
    (result : Except Fault Action) : Alike names (quietly host result) (quietly host' result) :=
  ⟨rfl, h⟩

theorem alike_actCall {names : Array String} (h : host.AgreesOn names host') (callable : Callable σ)
    (name : String) (args : Array Value) :
    Alike names (actCall limit frame host callable name args)
      (actCall limit frame host' callable name args) := by
  unfold actCall Host.call
  rw [h.state_eq]
  rcases callable.callAs name args host.state with ⟨result, state⟩
  cases result with
  | ok outcome => exact alike_quietly (h.withState state) _
  | error error => exact ⟨rfl, h.withState state⟩

theorem alike_actLoadHost (h : host.AgreesOn u.strings host') (id : Nat) :
    Alike u.strings (actLoadHost u limit frame host id) (actLoadHost u limit frame host' id) := by
  unfold actLoadHost
  cases hname : u.string id with
  | error fault => exact alike_quietly h _
  | ok name =>
    obtain ⟨hresult, hhost⟩ := h.read (CodeUnit.mem_strings hname)
    dsimp only
    rw [hresult]
    exact alike_quietly hhost _

theorem alike_actStoreHost (h : host.AgreesOn u.strings host') (id : Nat) :
    Alike u.strings (actStoreHost u frame host id) (actStoreHost u frame host' id) := by
  unfold actStoreHost
  cases frame.pop with
  | error fault => exact alike_quietly h _
  | ok popped =>
    cases hname : u.string id with
    | error fault => exact alike_quietly h _
    | ok name =>
      dsimp only
      rcases h.write (CodeUnit.mem_strings hname) popped.1 with
        ⟨fault, hwrite, hwrite'⟩ | ⟨g, g', hwrite, hwrite', hagrees⟩
      · rw [hwrite, hwrite']
        exact alike_quietly h _
      · rw [hwrite, hwrite']
        exact alike_quietly hagrees _

theorem alike_actCallNative (h : host.AgreesOn u.strings host') (id argc : Nat) :
    Alike u.strings (actCallNative u limit frame host id argc)
      (actCallNative u limit frame host' id argc) := by
  unfold actCallNative
  cases frame.popMany argc with
  | error fault => exact alike_quietly h _
  | ok popped =>
    cases hname : u.string id with
    | error fault => exact alike_quietly h _
    | ok name =>
      dsimp only
      rw [h.natives_eq name (CodeUnit.mem_strings hname)]
      cases host.natives[name]? with
      | none => exact alike_quietly h _
      | some callable => exact alike_actCall h callable name popped.1

theorem alike_actCallMethod (h : host.AgreesOn u.strings host') (id argc : Nat) :
    Alike u.strings (actCallMethod u limit frame host id argc)
      (actCallMethod u limit frame host' id argc) := by
  unfold actCallMethod
  cases frame.popMany argc with
  | error fault => exact alike_quietly h _
  | ok popped =>
    dsimp only
    cases popped.2.pop with
    | error fault => exact alike_quietly h _
    | ok object =>
      obtain ⟨value, rest⟩ := object
      cases value with
      | object object =>
        cases hname : u.string id with
        | error fault => exact alike_quietly h _
        | ok name =>
          dsimp only
          rw [h.methods_eq name (CodeUnit.mem_strings hname), h.state_eq]
          cases host.method? object name host.state with
          | none => exact alike_quietly h _
          | some callable => exact alike_actCall h callable name popped.1
      | _ => exact alike_quietly h _

/-- An instruction does the same with hosts that agree on the pool, and they agree afterwards. -/
theorem alike_act (h : host.AgreesOn u.strings host') (i : Instruction) :
    Alike u.strings (i.act u limit globals frame host) (i.act u limit globals frame host') := by
  cases i with
  | loadHost id => exact alike_actLoadHost h id
  | storeHost id => exact alike_actStoreHost h id
  | callNative id argc => exact alike_actCallNative h id argc
  | callMethod id argc => exact alike_actCallMethod h id argc
  | _ => exact alike_quietly h _

/-- A call keeps all but the state of the host. -/
theorem actCall_keepsBut (names : Array String) (callable : Callable σ) (name : String)
    (args : Array Value) : host.KeepsBut names (actCall limit frame host callable name args).2 := by
  unfold actCall Host.call
  rcases callable.callAs name args host.state with ⟨result, state⟩
  cases result with
  | ok outcome => exact ⟨⟨rfl, rfl⟩, fun _ _ => rfl⟩
  | error error => exact ⟨⟨rfl, rfl⟩, fun _ _ => rfl⟩

/-- An instruction keeps all that a host has, but for its state and the globals under
names of the pool. -/
theorem act_keepsBut (i : Instruction) :
    host.KeepsBut u.strings (i.act u limit globals frame host).2 := by
  have hsame := Host.KeepsBut.refl u.strings host
  cases i with
  | loadHost id =>
    change host.KeepsBut u.strings (actLoadHost u limit frame host id).2
    unfold actLoadHost
    split
    · exact hsame
    · exact Host.read_keepsBut u.strings host _
  | storeHost id =>
    change host.KeepsBut u.strings (actStoreHost u frame host id).2
    unfold actStoreHost
    split
    · exact hsame
    · split
      · exact hsame
      next name hname =>
        split
        · exact hsame
        next hwrite => exact Host.write_keepsBut (CodeUnit.mem_strings hname) hwrite
  | callNative id argc =>
    change host.KeepsBut u.strings (actCallNative u limit frame host id argc).2
    unfold actCallNative
    split
    · exact hsame
    · split
      · exact hsame
      · split
        · exact hsame
        · exact actCall_keepsBut u.strings _ _ _
  | callMethod id argc =>
    change host.KeepsBut u.strings (actCallMethod u limit frame host id argc).2
    unfold actCallMethod
    split
    · exact hsame
    · split
      · exact hsame
      · split
        · exact hsame
        · split
          · exact hsame
          · exact actCall_keepsBut u.strings _ _ _
      · exact hsame
  | _ => exact hsame

/-- What an instruction does that does not turn to the host is the same for all hosts. -/
theorem act_eq_quietly {i : Instruction} (h : i.asksHost = false) (u : CodeUnit) (limit : Nat)
    (globals : Array Value) (frame : Frame) :
    ∃ result, ∀ {σ : Type} (host : Host σ), i.act u limit globals frame host =
      quietly host result := by
  cases i with
  | loadHost id => cases h
  | storeHost id => cases h
  | callNative id argc => cases h
  | callMethod id argc => cases h
  | _ => exact ⟨_, fun _ => rfl⟩

end Instruction

namespace Machine

section Step

variable {m : Machine} {host host' : Host σ}

/-- An instruction changes machines with hosts that agree on the pool in the same way. -/
theorem exec_of_agreesOn (h : host.AgreesOn m.unit.strings host') :
    (m.exec host').1 = (m.exec host).1 ∧
      (m.exec host).2.AgreesOn m.unit.strings (m.exec host').2 := by
  obtain ⟨u, limits, globals, status⟩ := m
  cases status with
  | done => exact ⟨rfl, h⟩
  | faulted error => exact ⟨rfl, h⟩
  | running f callers =>
    cases hcode : u.code[f.pc]? with
    | none =>
      simp only [exec, hcode]
      exact ⟨trivial, h⟩
    | some i =>
      obtain ⟨hresult, hhost⟩ : Instruction.Alike u.strings
          (i.act u limits.operands globals (f.goto (f.pc + 1)) host)
          (i.act u limits.operands globals (f.goto (f.pc + 1)) host') := i.alike_act h
      rw [exec_eq_settle rfl hcode, exec_eq_settle rfl hcode]
      exact ⟨congrArg (settle _ f callers) hresult, hhost⟩

/-- An instruction keeps all that a host has, but for its state and the globals under
names of the pool. -/
theorem exec_keepsBut (m : Machine) (host : Host σ) :
    host.KeepsBut m.unit.strings (m.exec host).2 := by
  obtain ⟨u, limits, globals, status⟩ := m
  have hsame := Host.KeepsBut.refl u.strings host
  cases status with
  | done => exact hsame
  | faulted error => exact hsame
  | running f callers =>
    cases hcode : u.code[f.pc]? with
    | none =>
      simp only [exec, hcode]
      exact hsame
    | some i =>
      rw [exec_eq_settle rfl hcode]
      exact i.act_keepsBut

/-- If no instruction turns to the host, then each does the same with every host, and
leaves it as it is. -/
theorem exec_of_inward (h : m.unit.Inward) :
    ∃ next, ∀ {σ : Type} (host : Host σ), m.exec host = (next, host) := by
  obtain ⟨u, limits, globals, status⟩ := m
  cases status with
  | done => exact ⟨_, fun _ => rfl⟩
  | faulted error => exact ⟨_, fun _ => rfl⟩
  | running f callers =>
    cases hcode : u.code[f.pc]? with
    | none =>
      simp only [exec, hcode]
      exact ⟨_, fun _ => rfl⟩
    | some i =>
      obtain ⟨result, hact⟩ := i.act_eq_quietly (h f.pc i hcode) u limits.operands globals
        (f.goto (f.pc + 1))
      refine ⟨settle ⟨u, limits, globals, .running f callers⟩ f callers
          (result.mapError fun fault => { fault }), ?_⟩
      intro σ host
      rw [exec_eq_settle rfl hcode, hact]
      rfl

end Step

section Run

variable {m : Machine}

/-- Instructions change machines with hosts that agree on the pool in the same way. -/
theorem execMany_of_agreesOn {host host' : Host σ}
    (h : host.AgreesOn m.unit.strings host') (n : Nat) :
    (m.execMany host' n).1 = (m.execMany host n).1 ∧
      (m.execMany host n).2.AgreesOn m.unit.strings (m.execMany host' n).2 := by
  induction n generalizing m host host' with
  | zero => exact ⟨rfl, h⟩
  | succ n ih =>
    obtain ⟨hmachine, hhost⟩ := exec_of_agreesOn h
    have hunit := (m.exec_same host).1
    change (execMany (m.exec host').1 (m.exec host').2 n).1 =
      (execMany (m.exec host).1 (m.exec host).2 n).1 ∧
      (execMany (m.exec host).1 (m.exec host).2 n).2.AgreesOn m.unit.strings
        (execMany (m.exec host').1 (m.exec host').2 n).2
    rw [hmachine, ← hunit]
    apply ih
    rwa [hunit]

/-- Instructions keep all that a host has, but for its state and the globals under
names of the pool. -/
theorem execMany_keepsBut (m : Machine) (host : Host σ) (n : Nat) :
    host.KeepsBut m.unit.strings (m.execMany host n).2 := by
  induction n generalizing m host with
  | zero => exact Host.KeepsBut.refl _ host
  | succ n ih =>
    have hrest := ih (m.exec host).1 (m.exec host).2
    rw [(m.exec_same host).1] at hrest
    exact (m.exec_keepsBut host).trans hrest

/-- If no instruction turns to the host, then a run is the same with every host, and
leaves it as it is. -/
theorem execMany_of_inward (h : m.unit.Inward) (n : Nat) :
    ∃ last, ∀ {σ : Type} (host : Host σ), m.execMany host n = (last, host) := by
  induction n generalizing m with
  | zero => exact ⟨m, fun _ => rfl⟩
  | succ n ih =>
    obtain ⟨next, hnext⟩ := exec_of_inward h
    have hunit : next.unit = m.unit := by
      have hsame := (m.exec_same ({ state := () } : Host Unit)).1
      rwa [hnext] at hsame
    rw [← hunit] at h
    obtain ⟨last, hlast⟩ := ih h
    refine ⟨last, fun host => ?_⟩
    change execMany (m.exec host).1 (m.exec host).2 n = (last, host)
    rw [hnext host]
    exact hlast host

end Run

end Machine

open Machine

/-- A script sees the host only through its pool of strings. With hosts that have the same state,
and the same under every name of the pool, a run is the same after every number of instructions,
machine and state alike. What a host has under other names stays there, and so do its natives and
methods. A program that does without the host runs in the same way with all hosts, of whichever
states, and leaves them as they are. -/
theorem run_sees_pool_only (u : CodeUnit) (limits : Limits) :
    (∀ host host' : Host σ, host.AgreesOn u.strings host' → ∀ n,
      ((start u limits).execMany host' n).1 = ((start u limits).execMany host n).1 ∧
        ((start u limits).execMany host n).2.AgreesOn u.strings
          ((start u limits).execMany host' n).2) ∧
    (∀ (host : Host σ) n, host.KeepsBut u.strings ((start u limits).execMany host n).2) ∧
    ∀ p, compile p = .ok u → p.HostFree → ∀ {τ : Type} (host : Host σ) (host' : Host τ) n,
      ((start u limits).execMany host' n).1 = ((start u limits).execMany host n).1 ∧
        ((start u limits).execMany host n).2 = host ∧
        ((start u limits).execMany host' n).2 = host' := by
  refine ⟨fun host host' h n => execMany_of_agreesOn h n,
    fun host n => (start u limits).execMany_keepsBut host n,
    fun p hcompile hfree τ host host' n => ?_⟩
  obtain ⟨last, hlast⟩ := execMany_of_inward (m := start u limits) (hfree.inward hcompile) n
  rw [hlast host, hlast host']
  exact ⟨rfl, rfl, rfl⟩

/-- A host with the global that the search asks for. -/
def enabledHost : Host Unit where
  state := ()
  globals := ({} : Std.TreeMap String (Global Unit)).insert "enabled" (.plain (.boolean true))

/-- The same host with a native that is called as a function of the search, and with another
global. -/
def crowdedHost : Host Unit :=
  { enabledHost with
    natives := ({} : Std.TreeMap String (Callable Unit)).insert "find" (.script ⟨0, "find", 2⟩)
    globals := enabledHost.globals.insert "hits" (.plain (.number 7.0)) }

/-- A program that does without the host, though one of its strings is the name of a native. -/
def echoProgram : Program where
  functions :=
    [{ name := "twice"
       params := ["text"]
       body := .returnValue (.binary .plus (.var "text") (.var "text")) }]
  statements := [.declare "echo" (some (.call "twice" [.string "print"]))]

/-- A host with a native that the program could print with. -/
def printingHost : Host Nat where
  state := 0
  natives := ({} : Std.TreeMap String (Callable Nat)).insert "print"
    (.native none fun _ state => (.ok (.immediate .void), state + 1))

/-- The search does not see what a host has besides the global that it asks for, and a program that
does without the host runs as it does with a host that has nothing. -/
theorem searchProgram_sees_pool_only :
    (∃ u, compile searchProgram = .ok u ∧ enabledHost.AgreesOn u.strings crowdedHost ∧
      ∀ n, ((start u {}).execMany crowdedHost n).1 = ((start u {}).execMany enabledHost n).1) ∧
    ∃ u, compile echoProgram = .ok u ∧ u.strings = #["print"] ∧ echoProgram.HostFree ∧
      ∀ n, ((start u {}).execMany printingHost n).1 =
        ((start u {}).execMany ({ state := () } : Host Unit) n).1 := by
  constructor
  · obtain ⟨u, hu, hstrings⟩ := exists_compile_eq_ok (p := searchProgram) (f := (·.strings))
      (a := #["enabled"]) (by decide +kernel)
    have hagrees : enabledHost.AgreesOn u.strings crowdedHost := by
      rw [hstrings]
      refine ⟨rfl, ?_, ?_, fun _ _ _ _ => rfl⟩
      · intro name hname
        obtain rfl : name = "enabled" := by simpa using hname
        rfl
      · intro name hname
        obtain rfl : name = "enabled" := by simpa using hname
        rfl
    exact ⟨u, hu, hagrees,
      fun n => ((run_sees_pool_only u {}).1 enabledHost crowdedHost hagrees n).1⟩
  · obtain ⟨u, hu, hstrings⟩ := exists_compile_eq_ok (p := echoProgram) (f := (·.strings))
      (a := #["print"]) (by decide +kernel)
    have hfree : echoProgram.HostFree := by
      constructor
      · intro withheld
        simp [echoProgram, Stmt.TopReadAll, Stmt.TopReads, InitialReads, Expr.Reads, Expr.parts,
          Expr.partsOf, Stmt.Reads, Context.Names, Context.Means, Context.declareAll,
          Context.declare]
      · simp [echoProgram, Program.exprs, Stmt.exprsOf, Stmt.exprs, initialParts, Expr.parts,
          Expr.partsOf, Expr.CallsAmong]
    exact ⟨u, hu, hstrings, hfree, fun n =>
      ((run_sees_pool_only u {}).2.2 echoProgram hu hfree { state := () } printingHost n).1⟩

end HostScript
