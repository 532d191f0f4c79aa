import HostScript.Proofs.Compile.Tables
import HostScript.Proofs.Semantics.Statements

/-!
# Binding keeps the meaning of programs

The slots of a new frame hold the parameters of a function as its variables, so that functions are
called in step, and the script globals before anything runs are void by name and by number. So a
program and the bound program are evaluated in step, from their start to their end.
-/

namespace HostScript

variable {σ : Type}

section Functions

variable {v v' : Visible} {slots : Slots} {env : Env} {s : Signatures} {p : Program}

/-- The parameters of a function are in the first slots of its frame. -/
theorem bindParams_stored {params : List String}
    {args : List Value} {vars : Std.TreeMap String Value}
    (hbind : bindParams v params = .ok v') (hsound : v.scopes.Sound)
    (h : Stored slots v.scopes.all (vars :: env)) (hlength : args.length = params.length)
    (hargs : ∀ i value, args[i]? = some value → slots[v.scopes.next + i]? = some value) :
    Stored slots v'.scopes.all (paramVars vars params args :: env) := by
  induction params generalizing v vars args with
  | nil =>
    obtain rfl := bindParams_nil.mp hbind
    exact h
  | cons name params ih =>
    obtain ⟨-, hlimit, hrest⟩ := bindParams_cons.mp hbind
    obtain ⟨value, args, rfl⟩ := List.exists_cons_of_length_eq_add_one hlength
    have hvalue : slots[v.scopes.next]? = some value := hargs 0 value rfl
    obtain ⟨hroom, rfl⟩ := Array.getElem?_eq_some_iff.mp hvalue
    have hextend := Scopes.stored_extend hsound h name slots[v.scopes.next] hroom
    rw [Array.setIfInBounds_def, dif_pos hroom, Array.set_getElem_self] at hextend
    refine ih hrest (hsound.extend name hlimit) hextend (Nat.succ.inj hlength) fun i value hi => ?_
    have hnext : (v.scopes.extend name).next + i = v.scopes.next + (i + 1) := by
      simp only [Scopes.extend, Scopes.grow]
      omega
    rw [hnext]
    exact hargs (i + 1) value (by simpa using hi)

/-- A frame has as many slots as its body needs, the arguments first. -/
theorem Bound.Body.slots_spec (b : Body) {args : Array Value} (hsize : args.size = b.arity) :
    b.locals ≤ (b.slots args).size ∧
      ∀ (i : Nat) (value : Value), args.toList[i]? = some value →
        (b.slots args)[i]? = some value := by
  constructor
  · rw [Body.slots, Array.size_append, Array.size_replicate]
    omega
  · intro i value hvalue
    rw [Array.getElem?_toList] at hvalue
    have hlt := (Array.getElem?_eq_some_iff.mp hvalue).1
    rw [Body.slots, Array.getElem?_append_left hlt, hvalue]

/-- A single statement is evaluated as itself. -/
theorem Bound.Stmt.execAll_singleton (call : Calls (Array Value) σ) (fuel : Nat) (slots : Slots)
    (b : Bound.Stmt) : Bound.Stmt.execAll call fuel slots [b] = b.exec call fuel slots := by
  rw [Bound.Stmt.execAll]
  refine Eq.trans (bind_congr fun r => ?_) (bind_pure _)
  obtain ⟨signal, slots'⟩ := r
  cases signal with
  | next =>
    change Bound.Stmt.execAll call fuel slots' [] = _
    rw [Bound.Stmt.execAll]
  | breakLoop => rfl
  | continueLoop => rfl
  | returned value => rfl

/-- A bound body is evaluated in step with the function it was bound from. -/
theorem bindFunction_inStep {call : Calls GlobalVars σ} {call' : Calls (Array Value) σ}
    (hlinked : Linked s p call call') (fuel : Nat) {f : FunctionDecl} {b : Bound.Body}
    (hbind : bindFunction s f = .ok b) {args : Array Value} (hsize : args.size = f.params.length) :
    InStep (SameGlobals p.globalNames) (fun r r' => r.1 = r'.1)
      (f.body.exec p.functions call fuel [paramVars {} f.params args.toList])
      (Bound.Stmt.execAll call' fuel (b.slots args) b.statements) := by
  obtain ⟨v₁, bs, v₂, hparams, hstmts, rfl⟩ :=
    bindBody_eq_ok_iff.mp (bindFunction_eq_ok_iff.mp hbind)
  obtain ⟨b, v₂', bs', v₃, hbody, hnil, hr⟩ := bindStmts_cons.mp hstmts
  obtain ⟨rfl, rfl⟩ := Prod.mk.inj hr
  obtain ⟨rfl, rfl⟩ := Prod.mk.inj (bindStmts_nil.mp hnil)
  obtain ⟨hpeak, hargs⟩ := Bound.Body.slots_spec
    { name := f.name, arity := f.params.length, locals := v₂'.scopes.peak, statements := [b] } hsize
  have hlength : args.toList.length = f.params.length := by rw [Array.length_toList, hsize]
  have hstored := bindParams_stored hparams Scopes.sound_empty (Scopes.stored_empty _) hlength
    (by simpa using hargs)
  rw [Bound.Stmt.execAll_singleton]
  refine (bindStmt_inStep hlinked fuel false v₁ v₂' _ _ f.body b hbody (fun name _ => rfl)
    ((bindParams_proceeds hparams).1.sound Scopes.sound_empty) hpeak hstored).mono
    fun r r' hend => hend.1

/-- Functions of a program and of the bound program are called in step. -/
theorem callFunction_inStep (hs : Signatures.ofProgram p = .ok s) {program : Bound.Program}
    (hfunctions : bindFunctions s [] p.functions = .ok program.functions) (fuel : Nat) :
    CallsInStep (σ := σ) (SameGlobals p.globalNames) (p.callFunction fuel)
      (program.callFunction fuel) := by
  obtain ⟨hfunctionTable, hglobalTable⟩ := Signatures.ofProgram_table hs
  have hlength := (bindFunctions_eq_ok_iff.mp hfunctions).length_eq
  induction fuel using Nat.strong_induction_on with
  | _ fuel ih =>
    intro id args
    rw [Program.callFunction, Bound.Program.callFunction]
    cases hb : program.functions[id]? with
    | none =>
      have hf : p.functions[id]? = none := by
        rw [List.getElem?_eq_none_iff] at hb ⊢
        omega
      rw [hf]
      exact InStep.fail _
    | some b =>
      obtain ⟨f, hf, hbind⟩ := bindFunctions_getElem? hfunctions hb
      obtain ⟨hname, harity⟩ := bindBody_signature (bindFunction_eq_ok_iff.mp hbind)
      rw [hf]
      dsimp only
      rw [hname, harity]
      split
      · exact InStep.fail _
      next hsize =>
        cases fuel with
        | zero => exact InStep.throw _
        | succ fuel =>
          refine (bindFunction_inStep
            ⟨hfunctionTable, hglobalTable, ih fuel (Nat.lt_succ_self fuel)⟩ fuel hbind
            (not_not.mp hsize)).bind ?_
          rintro ⟨signal, env⟩ ⟨_, slots⟩ rfl
          exact InStep.pure rfl

end Functions

section TopLevel

variable {v v' : Visible} {slots : Slots} {s : Signatures} {p : Program} {call : Calls GlobalVars σ}
  {call' : Calls (Array Value) σ}

/-- A declaration of a script global is evaluated in step with the store into it. -/
theorem bindGlobal_inStep (hlinked : Linked s p call call') (fuel : Nat) {name : String} {id : Nat}
    (hid : s.globals[name]? = some id) (h : Stored slots v.scopes.all [{}]) {initial : Option Expr}
    {b : Bound.Expr} (hbind : bindInitial s v initial = .ok b) :
    InStep (SameGlobals p.globalNames) (fun signal r => signal = r.1 ∧ r.2 = slots)
      ((Stmt.declare name initial).execTop p.functions call fuel)
      ((Bound.Stmt.store (.place (.script id)) b).exec call' fuel slots) := by
  rw [Stmt.execTop, Bound.Stmt.exec]
  refine (bindInitial_inStep hlinked h hbind).bind_eq fun value => ?_
  intro vars globals host hsame
  rw [Bound.Target.store, Place.write]
  change Alike _ _ (.ok _ _) (EStateM.bind _ _ _)
  have hlt := hsame.id_lt hlinked.globals hid
  unfold EStateM.bind
  simp only [hlt, if_true]
  exact .ok (hsame.insert hlinked.globals hid value) ⟨rfl, rfl⟩

/-- Every top-level declaration is one of a script global. -/
theorem global?_topLevel (hglobals : s.HasGlobals p.globalNames) (houter : v.scopes.outer = [])
    {name : String} (hname : name ∈ p.globalNames) :
    ∃ id, s.globals[name]? = some id ∧
      Surroundings.global? { signatures := s, topLevel := true } v name = some id := by
  obtain ⟨id, hid⟩ := List.mem_iff_getElem?.mp hname
  have hid' := (hglobals.id_iff name id).mpr hid
  exact ⟨id, hid', by simp [Surroundings.global?, Scopes.isOutermost, houter, hid']⟩

/-- Top-level statements declare no slots that outlive them. -/
theorem bindStmt_topLevel_all (hglobals : s.HasGlobals p.globalNames) (houter : v.scopes.outer = [])
    {stmt : Stmt} (hdeclared : ∀ name ∈ stmt.declared?, name ∈ p.globalNames) {b : Bound.Stmt}
    {inLoop : Bool}
    (hbind : bindStmt { signatures := s, topLevel := true } inLoop v stmt = .ok (b, v')) :
    v'.scopes.all = v.scopes.all := by
  rw [(bindStmt_rises hbind).eq]
  unfold Visible.after
  cases hname : stmt.declared? with
  | none => rfl
  | some name =>
    obtain ⟨id, -, hglobal⟩ := global?_topLevel hglobals houter (hdeclared name hname)
    simp only [hglobal]
    rfl

/-- A bound top-level statement is evaluated in step with the statement it was bound from. -/
theorem bindTop_inStep (hlinked : Linked s p call call') (fuel : Nat) (houter : v.scopes.outer = [])
    {stmt : Stmt} (hdeclared : ∀ name ∈ stmt.declared?, name ∈ p.globalNames) {b : Bound.Stmt}
    (hbind : bindStmt { signatures := s, topLevel := true } false v stmt = .ok (b, v'))
    (hsound : v.scopes.Sound) (hpeak : v'.scopes.peak ≤ slots.size)
    (h : Stored slots v.scopes.all [{}]) :
    InStep (SameGlobals p.globalNames) (fun signal r => signal = r.1 ∧ r.2.size = slots.size)
      (stmt.execTop p.functions call fuel) (b.exec call' fuel slots) := by
  cases hname : stmt.declared? with
  | some name =>
    obtain ⟨initial, rfl⟩ := Stmt.eq_declare hname
    obtain ⟨id, hid, hglobal⟩ := global?_topLevel hlinked.globals houter (hdeclared name hname)
    rw [bindStmt_declare] at hbind
    obtain ⟨b, hinitial, hr⟩ := (bindDeclaration_global hglobal).mp hbind
    obtain ⟨rfl, rfl⟩ := Prod.mk.inj hr
    exact (bindGlobal_inStep hlinked fuel hid h hinitial).mono fun _ _ hend =>
      ⟨hend.1, congrArg Array.size hend.2⟩
  | none =>
    have hexec : stmt.execTop p.functions call fuel =
        stmt.exec p.functions call fuel [{}] >>= fun r => pure r.1 := by
      cases stmt with
      | declare name initial => cases hname
      | _ => rfl
    rw [hexec]
    refine (bindStmt_inStep hlinked fuel false v v' slots [{}] stmt b hbind (by simp [hname]) hsound
        hpeak h).bind_left fun r r' hend => ?_
    exact ⟨r.1, rfl, hend.1, hend.2.size_eq⟩

/-- Bound top-level statements are evaluated in step with those they were bound from. -/
theorem bindTops_inStep (hlinked : Linked s p call call') (fuel : Nat) {ss : List Stmt}
    {bs : List Bound.Stmt} (hdeclared : ∀ stmt ∈ ss, ∀ name ∈ stmt.declared?, name ∈ p.globalNames)
    (hbind : bindStmts { signatures := s, topLevel := true } false [] v ss = .ok (bs, v'))
    (houter : v.scopes.outer = []) (hunnamed : ∀ n, ¬Named v.scopes.all n) (hsound : v.scopes.Sound)
    (hpeak : v'.scopes.peak ≤ slots.size) (h : Stored slots v.scopes.all [{}]) :
    InStep (SameGlobals p.globalNames) (fun signal r => signal = r.1)
      (Stmt.execTopAll p.functions call fuel ss) (Bound.Stmt.execAll call' fuel slots bs) := by
  induction ss generalizing v slots bs with
  | nil =>
    obtain ⟨rfl, rfl⟩ := Prod.mk.inj (bindStmts_nil.mp hbind)
    rw [Stmt.execTopAll, Bound.Stmt.execAll]
    exact InStep.pure rfl
  | cons stmt rest ih =>
    obtain ⟨b, v₁, bs, v₂, hstmt, hrest, hr⟩ := bindStmts_cons.mp hbind
    obtain ⟨rfl, rfl⟩ := Prod.mk.inj hr
    have hproceeds := bindStmt_proceeds _ _ v v₁ stmt b hstmt
    have hpeak₁ := Nat.le_trans (bindStmts_proceeds _ _ v₁ v₂ rest bs hrest).inside.peak_le hpeak
    have hall := bindStmt_topLevel_all hlinked.globals houter
      (hdeclared stmt List.mem_cons_self) hstmt
    rw [Stmt.execTopAll, Bound.Stmt.execAll]
    refine (bindTop_inStep hlinked fuel houter (hdeclared stmt List.mem_cons_self) hstmt hsound
      hpeak₁ h).bind ?_
    rintro signal ⟨_, slots₁⟩ ⟨rfl, hsize⟩
    cases signal with
    | next =>
      -- No top-level variable is in a slot, so that whatever became of the slots does not matter.
      have hstored : Stored slots₁ v.scopes.all [{}] :=
        h.congr hsize fun n hn => absurd hn (hunnamed n)
      exact ih (fun other hother => hdeclared other (List.mem_cons_of_mem _ hother)) hrest
        (hproceeds.inside.outer_eq.trans houter) (hall ▸ hunnamed) (hproceeds.sound hsound)
        (hsize ▸ hpeak) (hall ▸ hstored)
    | breakLoop => exact InStep.pure rfl
    | continueLoop => exact InStep.pure rfl
    | returned value => exact InStep.pure rfl

end TopLevel

section Programs

variable {p : Program} {program : Bound.Program}

/-- The script globals before anything is evaluated are the declared ones. -/
theorem getElem?_initialGlobals (p : Program) (name : String) :
    p.initialGlobals[name]? = if name ∈ p.globalNames then some .void else none := by
  have hfold : ∀ (names : List String) (vars : GlobalVars),
      (names.foldl (fun globals name => globals.insert name .void) vars)[name]? =
        if name ∈ names then some .void else vars[name]? := by
    intro names
    induction names with
    | nil => simp
    | cons other rest ih =>
      intro vars
      rw [List.foldl_cons, ih, Std.TreeMap.getElem?_insert]
      by_cases heq : other = name
      · simp [heq]
      · simp [heq, Ne.symm heq]
  rw [Program.initialGlobals, hfold, Program.globalNames]
  simp

/-- Before anything is evaluated the script globals are void by name and by number. -/
theorem sameGlobals_initial (p : Program) :
    SameGlobals p.globalNames p.initialGlobals (Array.replicate p.globalNames.length .void) := by
  refine ⟨Array.size_replicate, fun id name hname => ?_, fun name hname => ?_⟩
  · have hlt := (List.getElem?_eq_some_iff.mp hname).1
    rw [getElem?_initialGlobals, if_pos (List.mem_of_getElem? hname),
      Array.getElem?_replicate, if_pos hlt]
  · rw [getElem?_initialGlobals, if_neg hname]

/-- A program and the bound program end in the same way. -/
theorem interpret_alike (h : p.bind = .ok program) (host : Host σ) (fuel : Nat) :
    Alike (SameGlobals p.globalNames) (fun signal r => signal = r.1) (p.interpret host fuel)
      (program.interpret host fuel) := by
  obtain ⟨s, top, functions, hs, htop, hfunctions, rfl⟩ := bind_program_eq_ok_iff.mp h
  obtain ⟨hfunctionTable, hglobalTable⟩ := Signatures.ofProgram_table hs
  obtain ⟨v₁, bs, v₂, hparams, hstmts, rfl⟩ :=
    bindBody_eq_ok_iff.mp (bindTopLevel_eq_ok_iff.mp htop)
  obtain rfl := bindParams_nil.mp hparams
  have hsize : s.globalNames.size = p.globalNames.length := by
    rw [← hglobalTable.names_eq, Array.length_toList]
  have hdeclared : ∀ stmt ∈ p.statements, ∀ name ∈ stmt.declared?, name ∈ p.globalNames :=
    fun stmt hstmt name hname => List.mem_filterMap.mpr ⟨stmt, hstmt, hname⟩
  have hunnamed : ∀ n, ¬Named ({} : Scopes).all n := by
    rintro n ⟨scope, hscope, name, hname⟩
    obtain rfl := List.mem_singleton.mp hscope
    simp at hname
  unfold Program.interpret Bound.Program.interpret
  dsimp only
  rw [hsize]
  exact bindTops_inStep ⟨hfunctionTable, hglobalTable, callFunction_inStep hs hfunctions fuel⟩ fuel
    hdeclared hstmts rfl hunnamed Scopes.sound_empty (by simp) (Scopes.stored_empty _) _ _ host
    (sameGlobals_initial p)

end Programs

end HostScript
