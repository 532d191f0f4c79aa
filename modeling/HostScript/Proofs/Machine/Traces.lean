import HostScript.Proofs.Machine.Calls
import HostScript.Proofs.Machine.Heights

/-!
# Traces of faults

When an instruction of a compiled unit fails, the error gets the offset of that instruction, and a
trace with one entry for each open call: the current call at that offset, and every call that waits
at the offset of the call instruction which it executed last. The exception is a return to a caller
that has no room for the result. The call has been closed by then, so that its entry is missing, and
the caller stands in its place, with the offset of the return.
-/

namespace HostScript

variable {σ : Type}

/-- Whether an entry of a trace shows where a call is: at its offset, which lies in the region of
its function, under the name of that function. -/
structure TraceEntry.Shows (u : CodeUnit) (f : Frame) (entry : TraceEntry) : Prop where
  pc_eq : entry.pc = f.pc
  name : (f.function = none ∧ entry.function = topLevelName) ∨
    ∃ id e, f.function = some id ∧ u.functions[id]? = some e ∧ entry.function = e.name
  region : ∃ r, u.region? f.function = some r ∧ f.pc ∈ r

namespace Machine

/-- Whether entries show calls that wait after `n` instructions, innermost first: each shows
where the call was when it executed the call instruction for which it waits, on top of the calls
that wait below it. -/
inductive ShowsCallers (c : Machine × Host σ) (n : Nat) : List Frame → List TraceEntry → Prop
  | nil : ShowsCallers c n [] []
  | cons {f : Frame} {below : List Frame} {i : Instruction} {entry : TraceEntry}
      {rest : List TraceEntry} {k : Nat} (hk : k < n)
      (hstatus : (after c k).1.status = .running f below) (hcode : c.1.unit.code[f.pc]? = some i)
      (hcall : i.isCall) (hentry : entry.Shows c.1.unit f) (hrest : ShowsCallers c n below rest) :
      ShowsCallers c n (f.waiting i :: below) (entry :: rest)

/-- Whether the next instruction fails with an error that has a location of its own. -/
def FailsElsewhere (m : Machine) (host : Host σ) : Prop :=
  ∃ f callers i error, m.status = .running f callers ∧ m.unit.code[f.pc]? = some i ∧
    (i.act m.unit m.limits.operands m.globals (f.goto (f.pc + 1)) host).1 = .error error ∧
    error.pc ≠ none

/-- Whether the next instruction returns to a caller that has no room for the result. -/
def ReturnsToFull (m : Machine) : Prop :=
  ∃ f caller below i value, m.status = .running f (caller :: below) ∧ m.unit.code[f.pc]? = some i ∧
    i.Returns f.stack value ∧ m.limits.operands ≤ caller.stack.size

end Machine

/-- The entry of a call that waits, at the offset before the one where it goes on. -/
def CodeUnit.callerEntry (u : CodeUnit) (f : Frame) : TraceEntry :=
  ⟨u.functionName f.function, f.pc - 1⟩

open Machine

section Faults

variable {m : Machine} {f : Frame} {callers : List Frame} {host : Host σ} {error : RuntimeError}

/-- An error without a location gets the one that it is given. -/
theorem RuntimeError.locate_of_none (error : RuntimeError) (h : error.pc = none) (pc : Nat)
    (trace : List TraceEntry) : error.locate pc trace = { error with pc := some pc, trace } := by
  rw [locate, h]

/-- An instruction that returns closes the current call with its value. -/
theorem Instruction.Returns.act_eq {i : Instruction} {value : Value} (h : i.Returns f.stack value)
    (u : CodeUnit) (limit : Nat) (globals : Array Value) (pc : Nat) (host : Host σ) :
    i.act u limit globals (f.goto pc) host = (.ok (.leave value), host) := by
  cases i with
  | returnValue =>
    have hback : (f.goto pc).stack.back? = some value := h
    simp only [act, Frame.pop, hback]
    rfl
  | returnVoid =>
    obtain rfl : value = .void := h
    rfl
  | _ => exact absurd h id

/-- A return to a caller without room fails, with the trace of the caller at the
offset of the return. -/
theorem exec_returnsToFull {caller : Frame} {below : List Frame} {i : Instruction} {value : Value}
    (hstatus : m.status = .running f (caller :: below)) (hcode : m.unit.code[f.pc]? = some i)
    (hreturn : i.Returns f.stack value) (hfull : m.limits.operands ≤ caller.stack.size) :
    (m.exec host).1.status = .faulted
      { fault := .operandOverflow m.limits.operands
        pc := some f.pc
        trace := m.unit.trace f.pc caller.function below } := by
  rw [exec_eq_settle hstatus hcode, hreturn.act_eq]
  simp only [settle, follow, Frame.push, if_neg (Nat.not_lt.mpr hfull)]

/-- Any other instruction that fails, without a location of its own, gives the open
calls as they were. -/
theorem exec_faulted (hstatus : m.status = .running f callers)
    (hfault : (m.exec host).1.status = .faulted error)
    (hown : ¬m.FailsElsewhere host) (hfull : ¬m.ReturnsToFull) :
    error.pc = some f.pc ∧ error.trace = m.unit.trace f.pc f.function callers := by
  obtain ⟨u, limits, globals, status⟩ := m
  obtain rfl : status = .running f callers := hstatus
  cases hcode : u.code[f.pc]? with
  | none =>
    simp only [exec, hcode, Status.faulted.injEq] at hfault
    subst hfault
    exact ⟨rfl, rfl⟩
  | some i =>
    have hstems : Gives (Action.Stems i (f.goto (f.pc + 1)))
        (i.act u limits.operands globals (f.goto (f.pc + 1)) host).1 := i.act_gives u globals
    rw [exec_eq_settle rfl hcode] at hfault
    cases hact : (i.act u limits.operands globals (f.goto (f.pc + 1)) host).1 with
    | error raised =>
      have hnone : raised.pc = none := by
        by_contra hne
        exact hown ⟨f, callers, i, raised, rfl, hcode, hact, hne⟩
      rw [hact] at hfault
      obtain rfl := Status.faulted.inj hfault
      rw [raised.locate_of_none hnone]
      exact ⟨rfl, rfl⟩
    | ok action =>
      rw [hact] at hfault hstems
      cases action with
      | proceed g => cases hfault
      | assign g id value => cases hfault
      | call g function args =>
        simp only [settle, follow] at hfault
        split at hfault
        · cases hfault
        · obtain rfl := Status.faulted.inj hfault
          exact ⟨rfl, rfl⟩
      | leave value =>
        cases callers with
        | nil => cases hfault
        | cons caller below =>
          have hroom : caller.stack.size < limits.operands := by
            by_contra hnot
            exact hfull ⟨f, caller, below, i, value, rfl, hcode, hstems.2, Nat.le_of_not_lt hnot⟩
          simp only [settle, follow, Frame.push, if_pos hroom] at hfault
          cases hfault

/-- A run that has failed has a last instruction that failed. -/
theorem exists_failing {c : Machine × Host σ} (hrunning : c.1.isRunning) {n : Nat}
    (h : (after c n).1.fault? = some error) :
    ∃ k f callers, k < n ∧ (after c k).1.status = .running f callers ∧
      (after c (k + 1)).1.status = .faulted error := by
  induction n with
  | zero =>
    have hstatus : c.1.status = .faulted error := fault?_eq_some.mp h
    rw [isRunning, hstatus] at hrunning
    cases hrunning
  | succ n ih =>
    cases hstatus : (after c n).1.status with
    | running f callers => exact ⟨n, f, callers, Nat.lt_succ_self n, hstatus, fault?_eq_some.mp h⟩
    | done =>
      rw [after_succ_last, exec_of_not_running _ (by rw [isRunning, hstatus]), fault?, hstatus] at h
      cases h
    | faulted earlier =>
      rw [after_succ_last, exec_of_not_running _ (by rw [isRunning, hstatus])] at h
      obtain ⟨k, f, callers, hk, hrest⟩ := ih h
      exact ⟨k, f, callers, Nat.lt_succ_of_lt hk, hrest⟩

end Faults

section Callers

variable {c : Machine × Host σ} {n : Nat}

/-- The outermost call of a machine that runs is the top-level code, all others are functions. -/
def Status.Rooted : Status → Prop
  | .running f callers => ∃ ids : List Nat, (f :: callers).map (·.function) = ids.map some ++ [none]
  | .done | .faulted _ => True

theorem Successor.rooted {u : CodeUnit} {limits : Limits} {f : Frame} {callers : List Frame}
    {status : Status} (h : Successor u limits f callers status)
    (hrooted : (Status.running f callers).Rooted) : status.Rooted := by
  obtain ⟨ids, hids⟩ := hrooted
  cases h with
  | fault error => trivial
  | done hcode hreturn hcallers => trivial
  | proceed hcode hpops hg =>
    refine ⟨ids, ?_⟩
    rw [← hids, List.map_cons, List.map_cons, hg.function_eq]
    rfl
  | @call i function args callee hcode hpops hcall hopen =>
    obtain ⟨entry, -, -, -, rfl⟩ := CodeUnit.openCall_eq_ok hopen
    refine ⟨function :: ids, ?_⟩
    exact congrArg (some function :: ·) hids
  | resume hcode hreturn hcallers hroom =>
    subst hcallers
    cases ids with
    | nil => simp at hids
    | cons id ids => exact ⟨ids, (List.cons.inj hids).2⟩

theorem Machine.ShowsCallers.mono {callers : List Frame} {entries : List TraceEntry}
    (h : ShowsCallers c n callers entries) {k : Nat} (hle : n ≤ k) :
    ShowsCallers c k callers entries := by
  induction h with
  | nil => exact .nil
  | cons hk hstatus hcode hcall hentry _ ih =>
    exact .cons (Nat.lt_of_lt_of_le hk hle) hstatus hcode hcall hentry ih

/-- The calls that wait after an instruction are shown where they executed their calls. -/
theorem Successor.showsCallers {limits : Limits} {f : Frame} {callers : List Frame}
    {status : Status} (h : Successor c.1.unit limits f callers status)
    (hstatus : (after c n).1.status = .running f callers)
    (hentry : TraceEntry.Shows c.1.unit f ⟨c.1.unit.functionName f.function, f.pc⟩)
    (hcallers : ShowsCallers c n callers (callers.map c.1.unit.callerEntry))
    {g : Frame} {waiting : List Frame} (hnext : status = .running g waiting) :
    ShowsCallers c (n + 1) waiting (waiting.map c.1.unit.callerEntry) := by
  have hmono := hcallers.mono (Nat.le_succ n)
  cases h with
  | fault error => cases hnext
  | done hcode hreturn hcallers' => cases hnext
  | proceed hcode hpops hg =>
    obtain ⟨rfl, rfl⟩ := Status.running.inj hnext
    exact hmono
  | call hcode hpops hcall hopen =>
    obtain ⟨rfl, rfl⟩ := Status.running.inj hnext
    exact .cons (Nat.lt_succ_self n) hstatus hcode hcall hentry hmono
  | resume hcode hreturn hcallers' hroom =>
    obtain ⟨rfl, rfl⟩ := Status.running.inj hnext
    subst hcallers'
    cases hmono with
    | cons hk hstatus hcode hcall hentry hrest => exact hrest

/-- All along a run that starts without callers, the calls that wait are shown where they executed
their calls, if the current call is always shown where it is. -/
theorem showsCallers_after (hstart : ∀ f callers, c.1.status = .running f callers → callers = [])
    (hentry : ∀ k f callers, (after c k).1.status = .running f callers →
      TraceEntry.Shows c.1.unit f ⟨c.1.unit.functionName f.function, f.pc⟩)
    {f : Frame} {callers : List Frame} (hstatus : (after c n).1.status = .running f callers) :
    ShowsCallers c n callers (callers.map c.1.unit.callerEntry) := by
  induction n generalizing f callers with
  | zero =>
    obtain rfl := hstart f callers hstatus
    exact .nil
  | succ n ih =>
    cases hbefore : (after c n).1.status with
    | running g waiting =>
      have hnext := exec_successor hbefore (after c n).2
      rw [unit_after, ← after_succ_last] at hnext
      exact hnext.showsCallers hbefore (hentry n g waiting hbefore) (ih hbefore) hstatus
    | done =>
      rw [after_succ_last, exec_of_not_running _ (by rw [isRunning, hbefore]), hbefore] at hstatus
      cases hstatus
    | faulted error =>
      rw [after_succ_last, exec_of_not_running _ (by rw [isRunning, hbefore]), hbefore] at hstatus
      cases hstatus

end Callers

section Compiled

variable {p : Program} {program : Bound.Program}

@[simp] theorem Region.length_ofEntries (size : Nat) (entries : List Entry) :
    (Region.ofEntries size entries).length = entries.length := by
  induction entries with
  | nil => rfl
  | cons entry rest ih => rw [Region.ofEntries, List.length_cons, List.length_cons, ih]

/-- A function with a region is in the table. -/
theorem CodeUnit.exists_function {u : CodeUnit} {id : Nat} {r : Region}
    (h : u.region? (some id) = some r) : ∃ entry, u.functions[id]? = some entry := by
  have hlt : id + 1 < u.regions.length := (List.getElem?_eq_some_iff.mp h).1
  rw [CodeUnit.regions, Region.length_ofEntries, CodeUnit.entries, List.length_cons,
    Array.length_toList] at hlt
  exact ⟨_, Array.getElem?_eq_getElem (Nat.lt_of_succ_lt_succ hlt)⟩

/-- A call at its place is shown by its name and its offset. -/
theorem Frame.Placed.shows {f : Frame} {owed : Nat} (h : f.Placed program owed) :
    TraceEntry.Shows program.toUnit f ⟨program.toUnit.functionName f.function, f.pc⟩ := by
  obtain ⟨r, hr, hpc, -⟩ := h.region
  refine ⟨rfl, ?_, r, hr, hpc⟩
  cases hfunction : f.function with
  | none => exact .inl ⟨rfl, rfl⟩
  | some id =>
    rw [hfunction] at hr
    obtain ⟨entry, hentry⟩ := CodeUnit.exists_function hr
    refine .inr ⟨id, entry, rfl, hentry, ?_⟩
    simp only [CodeUnit.functionName, Option.bind_some, hentry]

/-- All along a run of a compiled unit the current call is shown where it is. -/
theorem shows_after (hbind : p.bind = .ok program) (limits : Limits) (host : Host σ)
    {n : Nat} {f : Frame} {callers : List Frame}
    (hstatus : (after (start program.toUnit limits, host) n).1.status = .running f callers) :
    TraceEntry.Shows program.toUnit f ⟨program.toUnit.functionName f.function, f.pc⟩ := by
  have hplaced := execMany_placed hbind limits host n
  change (after (start program.toUnit limits, host) n).1.status.Placed program at hplaced
  rw [hstatus] at hplaced
  exact hplaced.1.shows

end Compiled

/-- In every run of a compiled unit that fails, whatever the limits and the host, there is an
instruction that fails. The outermost call is then the top-level code and all others are functions.
Unless the error has a location of its own, it gets the offset of that instruction, and a trace
that shows the current call at that offset and every call that waits at the call instruction which
it has executed. Only for a return to a caller without room the trace starts with the caller, at
the offset of the return. -/
theorem compiled_fault_trace {p : Program} {u : CodeUnit} (hcompile : compile p = .ok u)
    (limits : Limits) (host : Host σ) {n : Nat} {error : RuntimeError}
    (hfault : (after (start u limits, host) n).1.fault? = some error) :
    ∃ k f callers, k < n ∧ (after (start u limits, host) k).1.status = .running f callers ∧
      (after (start u limits, host) (k + 1)).1.status = .faulted error ∧
      (∃ ids : List Nat, (f :: callers).map (·.function) = ids.map some ++ [none]) ∧
      (¬(after (start u limits, host) k).1.FailsElsewhere (after (start u limits, host) k).2 →
        error.pc = some f.pc ∧
        (¬(after (start u limits, host) k).1.ReturnsToFull →
          ∃ entry rest, error.trace = entry :: rest ∧ entry.Shows u f ∧
            ShowsCallers (start u limits, host) k callers rest) ∧
        ((after (start u limits, host) k).1.ReturnsToFull →
          ∃ caller below rest, callers = caller :: below ∧
            error.fault = .operandOverflow limits.operands ∧
            error.trace = ⟨u.functionName caller.function, f.pc⟩ :: rest ∧
            ShowsCallers (start u limits, host) k below rest)) := by
  obtain ⟨program, hbind, rfl⟩ := compile_eq_ok_iff.mp hcompile
  obtain ⟨k, f, callers, hk, hstatus, hnext⟩ := exists_failing rfl hfault
  have hstart : (start program.toUnit limits).status.Rooted := ⟨[], rfl⟩
  have hrooted : (after (start program.toUnit limits, host) k).1.status.Rooted :=
    status_induction (fun _ _ _ hrooted h => h.rooted hrooted) rfl rfl hstart host k
  rw [hstatus] at hrooted
  have hcallers : ShowsCallers (start program.toUnit limits, host) k callers
      (callers.map program.toUnit.callerEntry) := by
    apply showsCallers_after _ _ hstatus
    · intro g waiting hg
      exact (Status.running.inj hg).2.symm
    · intro j g waiting hg
      exact shows_after hbind limits host hg
  have hunit : (after (start program.toUnit limits, host) k).1.unit = program.toUnit :=
    unit_after _ k
  have hlimits : (after (start program.toUnit limits, host) k).1.limits = limits := limits_after _ k
  refine ⟨k, f, callers, hk, hstatus, hnext, hrooted, fun hown => ?_⟩
  rw [after_succ_last] at hnext
  by_cases hfull : (after (start program.toUnit limits, host) k).1.ReturnsToFull
  · have hreturns := hfull
    obtain ⟨g, caller, below, i, value, hstatus', hcode, hreturn, hroom⟩ := hreturns
    obtain ⟨rfl, rfl⟩ := Status.running.inj (hstatus.symm.trans hstatus')
    obtain rfl :=
      Status.faulted.inj (hnext.symm.trans (exec_returnsToFull hstatus' hcode hreturn hroom))
    rw [hunit, hlimits]
    cases hcallers with
    | cons _ _ _ _ _ hbelow =>
      exact ⟨rfl, fun hnot => absurd hfull hnot, fun _ => ⟨_, _, _, rfl, rfl, rfl, hbelow⟩⟩
  · obtain ⟨hpc, htrace⟩ := exec_faulted hstatus hnext hown hfull
    rw [hunit] at htrace
    exact ⟨hpc, fun _ => ⟨_, _, htrace, shows_after hbind limits host hstatus, hcallers⟩,
      fun hreturns => absurd hreturns hfull⟩

/-- A program that asks a function for an item that is not there, while it holds an operand. -/
def pickProgram : Program where
  functions :=
    [{ name := "pick"
       params := ["items"]
       body := .returnValue (.index (.var "items") (.number 5.0)) }]
  statements := [.discard (.binary .plus (.number 1.0) (.call "pick" [.array [.number 2.0]]))]

/-- The unit of the program that asks for an item that is not there. -/
def pickUnit : CodeUnit where
  code := #[.pushNumber 1.0, .pushNumber 2.0, .makeArray 1, .callScript 0 1, .binary .plus, .pop,
    .returnVoid, .loadLocal 0, .pushNumber 5.0, .loadIndex, .returnValue, .returnVoid]
  functions := #[⟨"pick", 7, 1, 1⟩]
  top := ⟨topLevelName, 0, 0, 0⟩

/-- The item that is not there is looked up at the offset 9 by the function, which the top-level
code has called at the offset 3. -/
theorem pickProgram_fault_trace :
    ∃ error f callers, compile pickProgram = .ok pickUnit ∧
      (after (start pickUnit {}, ({ state := () } : Host Unit)) 7).1.fault? = some error ∧
      (after (start pickUnit {}, ({ state := () } : Host Unit)) 6).1.status = .running f callers ∧
      error.pc = some 9 ∧ error.trace = [⟨"pick", 9⟩, ⟨topLevelName, 3⟩] ∧
      TraceEntry.Shows pickUnit f ⟨"pick", 9⟩ ∧
      ShowsCallers (start pickUnit {}, ({ state := () } : Host Unit)) 6 callers
        [⟨topLevelName, 3⟩] := by
  have hcompile : compile pickProgram = .ok pickUnit := rfl
  have hfault : (after (start pickUnit {}, ({ state := () } : Host Unit)) 7).1.fault? =
      some
        { fault := .indexOutOfRange 5.0 1
          pc := some 9
          trace := [⟨"pick", 9⟩, ⟨topLevelName, 3⟩] } := rfl
  have hearlier : ∀ k < 6,
      (after (start pickUnit {}, ({ state := () } : Host Unit)) (k + 1)).1.fault? = none := by
    decide +kernel
  obtain ⟨k, f, callers, hk, hstatus, hnext, -, hrest⟩ :=
    compiled_fault_trace hcompile {} { state := () } hfault
  have hlast : k = 6 := by
    by_contra hne
    have hnone := hearlier k (by omega)
    rw [fault?_eq_some.mpr hnext] at hnone
    cases hnone
  subst hlast
  have hown : ¬(after (start pickUnit {}, ({ state := () } : Host Unit)) 6).1.FailsElsewhere
      (after (start pickUnit {}, ({ state := () } : Host Unit)) 6).2 := by
    rintro ⟨g, waiting, i, raised, hg, hi, hact, hpc⟩
    cases hg
    cases hi
    cases hact
    exact hpc rfl
  have hfull : ¬(after (start pickUnit {}, ({ state := () } : Host Unit)) 6).1.ReturnsToFull := by
    rintro ⟨g, caller, below, i, value, hg, hi, hreturn, -⟩
    cases hg
    cases hi
    exact hreturn
  obtain ⟨-, hshown, -⟩ := hrest hown
  obtain ⟨entry, rest, htrace, hentry, hcallers⟩ := hshown hfull
  obtain ⟨rfl, rfl⟩ := List.cons.inj htrace
  exact ⟨_, f, callers, hcompile, hfault, hstatus, rfl, rfl, hentry, hcallers⟩

/-- A program that calls a function while it holds an operand. -/
def fullCallerProgram : Program where
  functions := [{ name := "f", params := [], body := .returnVoid }]
  statements := [.discard (.binary .plus (.number 1.0) (.call "f" []))]

/-- The unit of the program that calls a function while it holds an operand. -/
def fullCallerUnit : CodeUnit where
  code := #[.pushNumber 1.0, .callScript 0 0, .binary .plus, .pop, .returnVoid,
    .returnVoid, .returnVoid]
  functions := #[⟨"f", 5, 0, 0⟩]
  top := ⟨topLevelName, 0, 0, 0⟩

/-- With room for one operand the return of the function fails. The function is open at the offset 5
then, and the top-level code waits at the offset 1; but the trace shows the top-level code only, at
an offset of the function. -/
theorem fullCallerProgram_trace_untrue :
    compile fullCallerProgram = .ok fullCallerUnit ∧
      (after (start fullCallerUnit ⟨8, 1⟩, ({ state := () } : Host Unit)) 2).1.status =
        .running ⟨some 0, 5, #[], #[]⟩ [⟨none, 2, #[], #[.number 1.0]⟩] ∧
      (after (start fullCallerUnit ⟨8, 1⟩, ({ state := () } : Host Unit)) 3).1.fault? =
        some { fault := .operandOverflow 1, pc := some 5, trace := [⟨topLevelName, 5⟩] } ∧
      fullCallerUnit.code[1]? = some (.callScript 0 0) ∧
      fullCallerUnit.region? none = some ⟨0, 5, 0⟩ :=
  ⟨rfl, rfl, rfl, rfl, rfl⟩

end HostScript
