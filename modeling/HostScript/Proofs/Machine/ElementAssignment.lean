import HostScript.Proofs.Compile.Assignments
import HostScript.Proofs.Execution.Walks
import HostScript.Proofs.Machine.Deliveries
import HostScript.Proofs.Machine.Stores

/-!
# Assignments to elements replace one element

When the value of an assignment has been evaluated, the rest of its code reads the place that holds
the target and the indices over and over. If the indices are quiet then none of this changes
anything, so that at the end the place holds the same array but for the one element, and all other
places hold what they held. If there is no such element, then the machine faults as it would have
done reading it, and nothing has been written.
-/

namespace HostScript

open Machine

variable {σ : Type}

section Room

variable {p : Program} {program : Bound.Program} {limits : Limits} {c : Machine × Host σ}
  {f g : Frame} {callers : List Frame}

/-- An action after which the call above the same callers goes on opens no call and closes none, and
so it does not depend on the limits. -/
theorem follow_eq_of_running {u : CodeUnit} {pc : Nat} {function : Option Nat} {action : Action}
    (h : follow u limits pc function callers action = .running g callers) (other : Limits) :
    follow u other pc function callers action = .running g callers := by
  cases action with
  | proceed next => exact h
  | assign next id value => exact h
  | call caller id args =>
    rw [follow] at h
    cases hopen : u.openCall limits (callers.length + 1) id args with
    | ok callee =>
      rw [hopen] at h
      exact absurd (Status.running.inj h).2.symm (ne_append_cons callers [] caller)
    | error fault =>
      rw [hopen] at h
      cases h
  | leave value =>
    cases callers with
    | nil => cases h
    | cons caller rest =>
      rw [follow] at h
      cases hpush : caller.push limits.operands value with
      | ok caller' =>
        rw [hpush] at h
        exact absurd (Status.running.inj h).2 (ne_append_cons rest [] caller)
      | error fault =>
        rw [hpush] at h
        cases h

/-- An instruction after which the same call goes on, under some limits, does not fail if the frame
that goes on fits. -/
theorem fault?_exec_eq_none {m : Machine} {larger : Limits} {host : Host σ}
    (hstatus : m.status = .running f callers)
    (hlarger : ({ m with limits := larger }.exec host).1.status = .running g callers)
    (hfits : g.stack.size ≤ m.limits.operands) : (m.exec host).1.fault? = none := by
  obtain ⟨u, limits, globals, status⟩ := m
  obtain rfl : status = .running f callers := hstatus
  cases hcode : u.code[f.pc]? with
  | none =>
    simp only [exec, hcode] at hlarger
    cases hlarger
  | some i =>
    rw [exec_eq_settle rfl hcode] at hlarger ⊢
    rcases i.act_eq_or_push u globals (f.goto (f.pc + 1)) host with
      ⟨⟨result, host'⟩, hsame⟩ | ⟨next, value, host', hpush⟩
    · rw [hsame] at hlarger ⊢
      cases result with
      | error error => cases hlarger
      | ok action =>
        have hfollow := follow_eq_of_running hlarger limits
        simp only [settle, fault?, hfollow]
    · rw [hpush] at hlarger ⊢
      by_cases hroom : next.stack.size < larger.operands
      · rw [Frame.deliver_of_lt hroom] at hlarger
        obtain ⟨rfl, -⟩ := Status.running.inj hlarger
        rw [Frame.deliver_of_lt (by simpa using hfits)]
        rfl
      · rw [Frame.deliver_of_le (Nat.not_lt.mp hroom)] at hlarger
        cases hlarger

/-- Where heights are within the limit no instruction of a run lacks room. -/
theorem Machine.Reachable.not_cramped (hbind : p.bind = .ok program)
    (hc : Reachable program.toUnit limits c) {lo hi : Nat}
    (hheights : ∀ pc, lo ≤ pc → pc < hi → program.height pc ≤ limits.operands) :
    ¬Cramped lo hi c := by
  rintro ⟨f, g, callers, larger, hstatus, hfault, hlarger, hlo, hhi⟩
  have hplaced := hc.status_placed hbind
  rw [hstatus] at hplaced
  have hstatus' : { c.1 with limits := larger }.status = .running f callers := hstatus
  have hsuccessor :
      Successor c.1.unit larger f callers ({ c.1 with limits := larger }.exec c.2).1.status :=
    exec_successor hstatus' c.2
  rw [hlarger, hc.unit_eq] at hsuccessor
  -- Heights do not depend on the limits, so they hold of the frame that would go on
  -- under the larger ones.
  have hsize : g.stack.size = program.height g.pc := (hsuccessor.placed hbind hplaced).1.height
  have hfits : g.stack.size ≤ c.1.limits.operands := by
    rw [hsize, hc.limits_eq]
    exact hheights g.pc hlo hhi
  rw [fault?_exec_eq_none hstatus hlarger hfits] at hfault
  cases hfault

end Room

section Root

variable {p : Program} {program : Bound.Program} {limits : Limits} {c : Machine × Host σ}
  {f : Frame} {callers : List Frame} {place : Place} {n : Nat}

/-- A machine of a run is that of the unit with its limits, in a world of its own. -/
theorem Machine.Reachable.eq_state {u : CodeUnit} {status : Status} (hc : Reachable u limits c)
    (hstatus : c.1.status = status) : c = state u limits status ⟨c.1.globals, c.2⟩ := by
  obtain ⟨⟨u', limits', globals, status'⟩, host⟩ := c
  obtain rfl : u' = u := hc.unit_eq
  obtain rfl : limits' = limits := hc.limits_eq
  obtain rfl : status' = status := hstatus
  rfl

/-- A run has as many script globals as the unit has names for them. -/
theorem Machine.Reachable.size_globals {u : CodeUnit} (hc : Reachable u limits c) :
    c.1.globals.size = u.globals.size := by
  obtain ⟨host, n, rfl⟩ := hc
  have hsize := size_globals_execMany (start u limits) host n
  rwa [show (start u limits).globals.size = u.globals.size by simp [start]] at hsize

/-- A place of the frame or of the script that the next instruction reads or writes holds
something. -/
theorem Machine.Reachable.exists_held (hbind : p.bind = .ok program)
    (hc : Reachable program.toUnit limits c)
    (hstatus : c.1.status = .running f callers) (hplace : place.isHost = false)
    (h : program.toUnit.Has f.pc (place.loadOp n) ∨ program.toUnit.Has f.pc (place.storeOp n)) :
    ∃ value, place.held? f.locals c.1.globals = some value := by
  cases place with
  | slot k =>
    have hlt : k < f.locals.size := by
      rcases h with hcode | hcode
      · obtain ⟨r, hlocals, hvalid, -⟩ := hc.valid hbind hstatus (i := .loadLocal k) hcode
        exact Nat.lt_of_lt_of_le hvalid hlocals
      · exact hc.slot_lt hbind hstatus hcode
    exact ⟨f.locals[k], Array.getElem?_eq_getElem hlt⟩
  | script id =>
    have hlt : id < c.1.globals.size := by
      rw [hc.size_globals]
      rcases h with hcode | hcode
      · obtain ⟨r, -, hvalid, -⟩ := hc.valid hbind hstatus (i := .loadGlobal id) hcode
        exact hvalid
      · obtain ⟨r, -, hvalid, -⟩ := hc.valid hbind hstatus (i := .storeGlobal id) hcode
        exact hvalid
    exact ⟨c.1.globals[id], Array.getElem?_eq_getElem hlt⟩
  | host name => cases hplace

end Root

namespace Assignment

variable (a : Assignment)

/-- Whether an assignment is to a variable that does not belong to the host, under indices that
contain no calls and no globals of the host. -/
def isQuiet : Bool :=
  !a.target.root.isHost && a.target.indices.all Bound.Expr.isQuiet

/-- Whether the indices of an assignment have the values of a path, in a frame with the given
locals. -/
def HasPath (program : Bound.Program) (locals : Array Value) (d : Machine × Host σ)
    (path : List Value) : Prop :=
  ∃ fuel, List.Forall₂
    (fun index value =>
      ∃ w, index.eval (program.callFunction fuel) locals ⟨d.1.globals, d.2⟩ = .ok value w)
    a.target.indices path

/-- What an assignment does once its value has been evaluated, after which the machine is `d`, where
the place that holds the target holds a value, and the indices have the values of a path. -/
structure ReplacesElement (f : Frame) (callers : List Frame) (value held : Value)
    (path : List Value) (d : Machine × Host σ) : Prop where
  /-- If there is an element at the path, the assignment comes to its end. The place then holds what
  it held with this element replaced, and no other place has changed. -/
  replaced : ∀ leaf, held.elementAt path = .ok leaf →
    ∃ n locals globals changed positions,
      after d n =
        ({ d.1 with globals, status := .running ⟨f.function, a.stop, locals, #[]⟩ callers }, d.2) ∧
      a.target.root.held? locals globals = some changed ∧ changed.elementAt path = .ok value ∧
      held.Leads path positions leaf ∧ Value.DiffersAt positions value held changed ∧
      ∀ other, other ≠ a.target.root → other.held? locals globals = other.held? f.locals d.1.globals
  /-- If there is none, the machine faults for the reason for which the path cannot be read. -/
  refused : ∀ fault, held.elementAt path = .error fault →
    ∃ n error, after d n = ({ d.1 with status := .faulted error }, d.2) ∧ error.fault = fault

end Assignment

section Main

variable {p : Program} {program : Bound.Program} {s : Signatures} {x : AssignmentSite}
  {a : Assignment} {limits : Limits} {d : Machine × Host σ} {f : Frame} {callers : List Frame}
  {value held : Value} {path : List Value}

theorem Assignment.isQuiet_iff :
    a.isQuiet ↔ a.target.root.isHost = false ∧ ∀ index ∈ a.target.indices, index.isQuiet := by
  simp [isQuiet]

/-- Once the value has been evaluated, the machine comes to where storing it into the target
says. -/
theorem Assignment.Realizes.arrives (h : a.Realizes program s x) (hbind : p.bind = .ok program)
    (hd : Reachable program.toUnit limits d)
    (hstatus : d.1.status = .running ⟨f.function, a.valued, f.locals, #[value]⟩ callers)
    (hneed : x.target.storeNeed ≤ limits.operands) (hquiet : a.isQuiet)
    (call : Calls (Array Value) σ) :
    ∃ n, Arrived program.toUnit limits 0 n (after d n)
      (fun locals => .running ⟨f.function, a.stop, locals, #[]⟩ callers)
      (a.target.store call f.locals value ⟨d.1.globals, d.2⟩) := by
  obtain ⟨hroot, hindices⟩ := isQuiet_iff.mp hquiet
  have hhas := program.each_has_toUnit.part h.codes.2
  have hwalks : Walks program.toUnit limits a.valued a.stop
      (.running ⟨f.function, a.valued, f.locals, #[].push value⟩ callers)
      (a.target.store call f.locals value)
      (fun locals => .running ⟨f.function, a.stop, locals, #[]⟩ callers) :=
    a.target.walks a.valued 0 value hroot hindices hhas (Nat.le_refl _) (Nat.le_refl _)
  have hstart : d = state program.toUnit limits
      (.running ⟨f.function, a.valued, f.locals, #[].push value⟩ callers) ⟨d.1.globals, d.2⟩ :=
    hd.eq_state hstatus
  obtain ⟨n, harrived | hcramped⟩ := hwalks ⟨d.1.globals, d.2⟩
  · rw [← hstart] at harrived
    exact ⟨n, harrived⟩
  · rw [← hstart] at hcramped
    exact absurd hcramped
      ((hd.after n).not_cramped hbind fun pc hlo hhi => Nat.le_trans (h.height_le hlo hhi) hneed)

/-- Once the value has been evaluated, the element is replaced or else the machine faults. -/
theorem Assignment.Realizes.replacesElement (h : a.Realizes program s x)
    (hbind : p.bind = .ok program) (hd : Reachable program.toUnit limits d)
    (hstatus : d.1.status = .running ⟨f.function, a.valued, f.locals, #[value]⟩ callers)
    (hneed : x.target.storeNeed ≤ limits.operands) (hquiet : a.isQuiet)
    (hheld : a.target.root.held? f.locals d.1.globals = some held)
    (hpath : a.HasPath program f.locals d path) :
    a.ReplacesElement f callers value held path d := by
  obtain ⟨fuel, hpath⟩ := hpath
  have hread := Place.read_of_held (w := ⟨d.1.globals, d.2⟩) hheld
  have hindices := Bound.Expr.eval_of_quiet (isQuiet_iff.mp hquiet).2 hpath
  obtain ⟨n, harrived⟩ := h.arrives hbind hd hstatus hneed hquiet (program.callFunction fuel)
  constructor
  · intro leaf hleaf
    obtain ⟨positions, hleads⟩ := Value.elementAt_eq_ok_iff.mp hleaf
    obtain ⟨changed, hreplace, hback, hdiffers⟩ := hleads.replaceAt value
    obtain ⟨locals, globals, hwrite, hholds, hothers⟩ :=
      Place.write_of_held (w := ⟨d.1.globals, d.2⟩) hheld changed
    have hstore := (Bound.Target.store_eq_ok_iff_of_quiet hread hindices).mpr
      ⟨changed, hreplace, hwrite⟩
    rw [hstore] at harrived
    have hafter : after d n = state program.toUnit limits _ _ := harrived
    refine ⟨n, locals, globals, changed, positions, ?_, hholds,
      Value.elementAt_eq_ok_iff.mpr ⟨positions, hback⟩, hleads, hdiffers, hothers⟩
    rw [hafter, state, ← hd.unit_eq, ← hd.limits_eq]
  · intro fault hfault
    rw [Bound.Target.store_eq_error hread hindices hfault] at harrived
    obtain ⟨pc, trace, hafter⟩ := harrived
    refine ⟨n, RuntimeError.locate { fault } pc trace, ?_, RuntimeError.fault_locate _ pc trace⟩
    rw [hafter, state, ← hd.unit_eq, ← hd.limits_eq]

end Main

/-- Every assignment of a program that compiles has a place of its own in the unit, and one to a
variable, or to an element under a path of indices from a variable, goes to the place that the name
of the variable stands for where the assignment is. If this place does not belong to the host, and
the indices are without calls and globals of the host, then the code replaces what it assigns to and
nothing else, provided that the machine may hold as many operands as the text of the target says. It
goes by what the variable and the indices are when the value has been evaluated. -/
theorem compiled_assignment_replaces_element {p : Program} {u : CodeUnit}
    (hcompile : compile p = .ok u) :
    ∃ program s as, p.bind = .ok program ∧ program.toUnit = u ∧ Signatures.ofProgram p = .ok s ∧
      LineUp (Assignment.Realizes program s) Assignment.stop 0 u.code.size p.assignments as ∧
      ∀ (a : Assignment) (here : Point) (name : String) (indices : List Expr) (value : Expr),
        a.Realizes program s ⟨here, indices.foldl .index (.var name), value⟩ →
        here.Resolves p.globalNames name a.target.root ∧
        (∃ v, v.Matches s here ∧
          List.Forall₂ (fun x b => bindExpr s v x = .ok b) indices a.target.indices ∧
          bindExpr s v value = .ok a.value) ∧
        ∀ (σ : Type) (limits : Limits) (c : Machine × Host σ) (f : Frame) (callers : List Frame),
          a.isQuiet → (indices.foldl Expr.index (.var name)).storeNeed ≤ limits.operands →
          Reachable u limits c → c.1.status = .running f callers → f.pc = a.start →
          ∀ k g, Departs a.start a.valued callers c k g →
            ∃ w held, g = ⟨f.function, a.valued, f.locals, #[w]⟩ ∧
              a.target.root.held? f.locals (after c k).1.globals = some held ∧
              ∀ path, a.HasPath program f.locals (after c k) path →
                a.ReplacesElement f callers w held path (after c k) := by
  obtain ⟨program, hbind, rfl⟩ := compile_eq_ok_iff.mp hcompile
  obtain ⟨s, as, hs, has⟩ := bind_assignments_lineUp hbind
  refine ⟨program, s, as, hbind, rfl, hs, has, fun a here name indices value ha => ?_⟩
  obtain ⟨hroot, hparts⟩ := ha.resolves hs
  refine ⟨hroot, hparts, ?_⟩
  intro σ limits c f callers hquiet hneed hc hstatus hf k g hdeparts
  have hend : program.height (a.start + a.value.size) = 0 + 1 := ha.height_valued
  obtain ⟨w, hg⟩ := hdeparts.delivers hbind hc ha.codes.1 hend hstatus hf
  have hempty : f.stack = #[] := by
    refine hc.stack_eq_empty hbind hstatus ?_
    rw [hf]
    exact (a.value.each_flows _ _ (program.each_heightAt.part ha.codes.1) hend).1
  rw [hempty] at hg
  have hd := hc.after k
  have hstatus' : (after c k).1.status = .running ⟨f.function, a.valued, f.locals, #[w]⟩ callers :=
    hdeparts.status_eq.trans (congrArg (Status.running · callers) hg)
  obtain ⟨held, hheld⟩ := hd.exists_held hbind hstatus' (Assignment.isQuiet_iff.mp hquiet).1
    (Bound.Target.each_first (program.each_has_toUnit.part ha.codes.2))
  refine ⟨w, held, hg, hheld, fun path hpath => ?_⟩
  exact ha.replacesElement hbind hd hstatus' hneed hquiet hheld hpath

/-- A program that assigns to an element of an array which another variable holds too. -/
def sharingProgram : Program where
  functions := []
  statements :=
    [.declare "a" (some (.array [.array [.number 1.0, .number 2.0]])),
     .declare "b" (some (.var "a")),
     .assign (.index (.index (.var "a") (.number 0.0)) (.number 1.0)) (.number 9.0)]

/-- The unit of the program. The assignment reads the variable twice. -/
def sharingUnit : CodeUnit where
  code := #[.pushNumber 1.0, .pushNumber 2.0, .makeArray 2, .makeArray 1, .storeGlobal 0,
    .loadGlobal 0, .storeGlobal 1, .pushNumber 9.0, .loadGlobal 0, .pushNumber 0.0, .loadIndex,
    .pushNumber 1.0, .storeIndex, .loadGlobal 0, .pushNumber 0.0, .storeIndex,
    .storeGlobal 0, .returnVoid]
  top := ⟨topLevelName, 0, 0, 0⟩
  globals := #["a", "b"]

/-- The assignment as the text has it, where both variables can be used. -/
def sharingSite : AssignmentSite where
  here := { completed := ["b", "a"] }
  target := .index (.index (.var "a") (.number 0.0)) (.number 1.0)
  value := .number 9.0

/-- The assignment of the program. -/
def sharingAssignment : Assignment where
  start := 7
  target := .element (.element (.place (.script 0)) (.number 0.0)) (.number 1.0)
  value := .number 9.0

/-- The array that both variables hold before the assignment. -/
def sharedArray : Value :=
  .array #[.array #[.number 1.0, .number 2.0]]

/-- The machine with three operands as its limit when the value of the assignment has been
evaluated. -/
def sharingMachine : Machine × Host Unit :=
  after (start sharingUnit ⟨1, 3⟩, callbackHost) 8

/-- The program, bound. -/
def sharingBound : Bound.Program where
  top :=
    { name := topLevelName
      arity := 0
      locals := 0
      statements :=
        [.store (.place (.script 0)) (.array [.array [.number 1.0, .number 2.0]]),
         .store (.place (.script 1)) (.load (.script 0)),
         .store sharingAssignment.target sharingAssignment.value] }
  functions := []
  globals := #["a", "b"]

/-- When the assignment is bound both script globals are complete. -/
theorem sharingSite_matches {s : Signatures}
    (hs : Signatures.ofProgram sharingProgram = .ok s) :
    Visible.Matches s { reached := 2 } sharingSite.here := by
  have hglobals : s.HasGlobals ["a", "b"] := (Signatures.ofProgram_table hs).2
  refine matches_start fun name => ⟨?_, fun hname => ?_⟩
  · rintro ⟨id, hid, -⟩
    have hmem := List.mem_of_getElem? ((hglobals.id_iff name id).mp hid)
    simpa [or_comm] using hmem
  · obtain rfl | rfl : name = "b" ∨ name = "a" := by simpa using hname
    · exact ⟨1, (hglobals.id_iff "b" 1).mpr rfl, by decide⟩
    · exact ⟨0, (hglobals.id_iff "a" 0).mpr rfl, by decide⟩

/-- The assignment has its code at the end of the program, before the return. -/
theorem sharingAssignment_realizes {s : Signatures}
    (hs : Signatures.ofProgram sharingProgram = .ok s) :
    sharingAssignment.Realizes sharingBound s sharingSite := by
  have hglobals : s.HasGlobals ["a", "b"] := (Signatures.ofProgram_table hs).2
  have hplace : Visible.place { reached := 2 } s "a" = .ok (.script 0) := by
    unfold Visible.place
    rw [show (Scopes.find? {} "a") = none from rfl, (hglobals.id_iff "a" 0).mpr rfl]
    rfl
  have hsplit : sharingBound.code = sharingBound.code.take 7 ++
      ((Bound.Stmt.store sharingAssignment.target sharingAssignment.value).code ⟨0, 0⟩ 7 ++
        [.plain 0 .returnVoid]) := rfl
  have hcode := Op.each_of sharingBound.code
  nth_rewrite 2 [hsplit] at hcode
  have hbase : bindTarget s { reached := 2 } (.index (.var "a") (.number 0.0)) =
      .ok (.element (.place (.script 0)) (.number 0.0)) :=
    bindTarget_index.mpr ⟨_, _, bindTarget_var.mpr ⟨_, hplace, rfl⟩, rfl, rfl⟩
  exact ⟨{ reached := 2 }, ⟨0, 0⟩, sharingSite_matches hs,
    bindTarget_index.mpr ⟨_, _, hbase, rfl, rfl⟩, rfl,
    (Op.each_append.mp (Op.each_append.mp hcode).2).1⟩

/-- Three operands suffice to replace an element of the array in one of the variables. -/
theorem sharingProgram_replaces_element :
    compile sharingProgram = .ok sharingUnit ∧ sharingProgram.assignments = [sharingSite] ∧
      sharingSite.target.storeNeed = 3 ∧
      sharingMachine.1.globals = #[sharedArray, sharedArray] ∧
      sharedArray.elementAt [.number 0.0, .number 1.0] = .ok (.number 2.0) ∧
      sharingAssignment.ReplacesElement ⟨none, 7, #[], #[]⟩ []
        (.number 9.0) sharedArray [.number 0.0, .number 1.0] sharingMachine := by
  have hcompile : compile sharingProgram = .ok sharingUnit := rfl
  have hbound : sharingProgram.bind = .ok sharingBound := rfl
  obtain ⟨program, s, as, hbind, -, hs, -, hassigns⟩ :=
    compiled_assignment_replaces_element hcompile
  obtain rfl := Except.ok.inj (hbound.symm.trans hbind)
  have hstatus : (after (start sharingUnit ⟨1, 3⟩, callbackHost) 7).1.status =
      .running ⟨none, 7, #[], #[]⟩ [] := rfl
  have hglobals : sharingMachine.1.globals = #[sharedArray, sharedArray] := rfl
  have hdeparts : Departs 7 8 [] (after (start sharingUnit ⟨1, 3⟩, callbackHost) 7) 1
      ⟨none, 8, #[], #[.number 9.0]⟩ := by
    refine ⟨fun j hj => ?_, rfl, by decide⟩
    obtain rfl : j = 0 := by omega
    exact ⟨_, .inl ⟨hstatus, by decide, by decide⟩⟩
  obtain ⟨-, -, hreplaces⟩ := hassigns sharingAssignment sharingSite.here "a"
    [.number 0.0, .number 1.0] (.number 9.0) (sharingAssignment_realizes hs)
  obtain ⟨w, held, hg, hheld, hpath⟩ :=
    hreplaces Unit ⟨1, 3⟩ _ _ [] rfl (by decide) ⟨callbackHost, 7, rfl⟩ hstatus rfl 1 _ hdeparts
  obtain rfl : .number 9.0 = w := by simpa using (Frame.mk.inj hg).2.2.2
  obtain rfl : sharedArray = held := Option.some.inj hheld
  exact ⟨hcompile, rfl, rfl, hglobals, rfl, hpath _ ⟨0, .cons ⟨_, rfl⟩ (.cons ⟨_, rfl⟩ .nil)⟩⟩

end HostScript
