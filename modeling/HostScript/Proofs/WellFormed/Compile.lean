import HostScript.Proofs.Compile.Tables
import HostScript.Proofs.WellFormed.NoProblems
import HostScript.Proofs.WellFormed.Reports

/-!
# Compilation accepts the well-formed programs

The tables are checked first, then the top-level code is bound and then the functions, each of them
reporting its first problem. So a program compiles exactly when it is well-formed, and otherwise the
error is the first of its problems.
-/

namespace HostScript

section Tables

variable {s : Signatures}

/-- A table with one more name has the names seen and that one. -/
theorem mem_insert_iff_seen {β : Type} {table : Std.TreeMap String β} {seen : List String}
    (hseen : ∀ name, name ∈ table ↔ name ∈ seen) (name : String) (value : β) (other : String) :
    other ∈ table.insert name value ↔ other ∈ name :: seen := by
  rw [Std.TreeMap.mem_insert, Std.compare_eq_iff_eq, List.mem_cons, hseen, eq_comm]

/-- Entering functions reports the first problem of the table of functions. -/
theorem addFunctions_reports {seen : List String} (functions : List FunctionDecl)
    (hseen : ∀ name, name ∈ s.functions ↔ name ∈ seen) :
    Reports (s.addFunctions seen.length functions) (functionTableProblems seen functions) := by
  induction functions generalizing s seen with
  | nil => exact Reports.ok _
  | cons f rest ih =>
    have hname : s.functions.contains f.name ↔ ¬f.name ∉ seen := by
      rw [not_not, ← hseen, Std.TreeMap.mem_iff_contains]
    rw [Signatures.addFunctions, functionTableProblems, List.append_assoc, List.append_assoc]
    refine .refuse Nat.not_le.symm fun _ => .refuse Nat.not_le.symm fun _ =>
      .refuse hname fun _ => ?_
    exact @ih _ (f.name :: seen) (mem_insert_iff_seen hseen f.name ⟨seen.length, f.params.length⟩)

/-- Entering script globals reports the first problem of their table. -/
theorem addGlobals_reports {seen : List String} (statements : List Stmt)
    (hsize : s.globalNames.size = seen.length) (hseen : ∀ name, name ∈ s.globals ↔ name ∈ seen) :
    Reports (s.addGlobals statements) (globalTableProblems seen (declaredNames statements)) := by
  induction statements generalizing s seen with
  | nil => exact Reports.ok _
  | cons stmt rest ih =>
    rw [Signatures.addGlobals, declaredNames_cons]
    cases stmt.declared? with
    | none => exact ih hsize hseen
    | some name =>
      have hname : s.globals.contains name ↔ ¬name ∉ seen := by
        rw [not_not, ← hseen, Std.TreeMap.mem_iff_contains]
      rw [Option.toList_some, List.singleton_append, globalTableProblems, List.append_assoc, hsize]
      refine .refuse Nat.not_le.symm fun _ => .refuse hname fun _ => ?_
      exact ih (by simp [hsize]) (mem_insert_iff_seen hseen name _)

/-- The tables report their first problem, functions first. -/
theorem ofProgram_reports (p : Program) :
    Reports (Signatures.ofProgram p)
      (functionTableProblems [] p.functions ++ globalTableProblems [] p.globalNames) := by
  have hsplit : Signatures.ofProgram p =
      Signatures.addFunctions {} 0 p.functions >>= fun s => s.addGlobals p.statements := by
    rw [Signatures.ofProgram]
    cases Signatures.addFunctions {} 0 p.functions <;> rfl
  have hempty : ∀ name, name ∈ ({} : Signatures).functions ↔ name ∈ [] := by simp
  rw [hsplit]
  refine (addFunctions_reports p.functions hempty).bind fun s hs => ?_
  have hnone : Signatures.HasFunctions {} [] := by
    intro name signature
    simp
  obtain ⟨-, hglobals, hnames⟩ := Signatures.addFunctions_table p.functions hnone hs
  exact addGlobals_reports p.statements (by simp [hnames]) (by simp [hglobals])

end Tables

section Bodies

variable {s : Signatures} {p : Program}

theorem bindParams_cons_eq (v : Visible) (name : String) (rest : List String) :
    bindParams v (name :: rest) =
      v.declare name (.duplicateParameter name) >>= fun (_, v) => bindParams v rest := by
  rw [bindParams]
  cases v.declare name (.duplicateParameter name) <;> rfl

/-- Binding parameters reports their first problem. -/
theorem bindParams_reports {v : Visible} {c : Context} (h : v.Shows s c) (params : List String) :
    Reports (bindParams v params) (paramProblems c params) := by
  induction params generalizing v c with
  | nil => exact Reports.ok _
  | cons name rest ih =>
    rw [bindParams_cons_eq, paramProblems]
    refine (declare_reports h name _).bind fun _ hdeclare => ?_
    obtain ⟨-, -, rfl⟩ := Visible.declare_eq_ok_iff.mp hdeclare
    exact ih (h.extend name)

/-- After the parameters scopes and context still say the same. -/
theorem Visible.Shows.params {v v' : Visible} {c : Context} {params : List String} (h : v.Shows s c)
    (hbind : bindParams v params = .ok v') : v'.Shows s (c.declareAll params) := by
  induction params generalizing v c with
  | nil =>
    obtain rfl := bindParams_nil.mp hbind
    exact h
  | cons name rest ih =>
    obtain ⟨-, -, hrest⟩ := bindParams_cons.mp hbind
    exact ih (h.extend name) hrest

/-- At the start of a body nothing is declared, and as many script globals can be
used as are reached. -/
theorem shows_start {reached : Nat} {completed : List String}
    (hcompleted : ∀ name, (∃ id, s.globals[name]? = some id ∧ id < reached) ↔ name ∈ completed) :
    Visible.Shows s { reached } { completed } :=
  ⟨by simp, by simp, by simp [Scopes.isPending], by simp, hcompleted, rfl⟩

/-- At the start of a function every script global can be used. -/
theorem shows_function (hglobals : s.HasGlobals p.globalNames) :
    Visible.Shows s { reached := s.globalNames.size } p.functionContext := by
  refine shows_start fun name => ?_
  have hsize : s.globalNames.size = p.globalNames.length := by
    rw [← hglobals.names_eq, Array.length_toList]
  rw [List.mem_iff_getElem?]
  refine exists_congr fun id => ?_
  rw [hglobals.id_iff, hsize]
  exact and_iff_left_of_imp fun hid => (List.getElem?_eq_some_iff.mp hid).1

/-- Binding a function reports its first problem. -/
theorem bindFunction_reports (hfunctions : s.HasFunctions p.functions)
    (hglobals : s.HasGlobals p.globalNames) (f : FunctionDecl) : Reports (bindFunction s f)
    (located f.name (f.problems p.functions p.globalNames p.functionContext)) := by
  have hstart := shows_function hglobals
  refine Reports.mapError ?_
  rw [bindBody, FunctionDecl.problems]
  refine (bindParams_reports hstart f.params).bind fun v hparams => ?_
  let around : Surroundings := { signatures := s, topLevel := false }
  have hbody := @bindStmts_reports p around hfunctions hglobals false [] v _
    (hstart.params hparams) [f.body] fun name => rfl
  rw [Stmt.problemsOf, Stmt.problemsOf, List.append_nil] at hbody
  exact hbody.map

theorem bindFunctions_cons_eq (bound : List Bound.Body) (f : FunctionDecl)
    (rest : List FunctionDecl) :
    bindFunctions s bound (f :: rest) = bindFunction s f >>= fun b =>
      bindFunctions s (b :: bound) rest := by
  rw [bindFunctions]
  cases bindFunction s f <;> rfl

/-- Binding functions reports their first problem. -/
theorem bindFunctions_reports (hfunctions : s.HasFunctions p.functions)
    (hglobals : s.HasGlobals p.globalNames) (bound : List Bound.Body)
    (functions : List FunctionDecl) :
    Reports (bindFunctions s bound functions)
      (functions.flatMap fun f =>
        located f.name (f.problems p.functions p.globalNames p.functionContext)) := by
  induction functions generalizing bound with
  | nil => exact Reports.ok _
  | cons f rest ih =>
    rw [bindFunctions_cons_eq, List.flatMap_cons]
    exact (bindFunction_reports hfunctions hglobals f).bind fun b _ => ih (b :: bound)

/-- One more script global is complete when its declaration has been reached. -/
theorem Signatures.HasGlobals.completed_succ {completed done rest : List String} {name : String}
    (hglobals : s.HasGlobals (done ++ name :: rest))
    (hcompleted : ∀ other, (∃ id, s.globals[other]? = some id ∧ id < done.length) ↔
        other ∈ completed) (other : String) :
    (∃ id, s.globals[other]? = some id ∧ id < done.length + 1) ↔ other ∈ name :: completed := by
  have hname : ∀ id, s.globals[other]? = some id → (id = done.length ↔ other = name) := by
    intro id hid
    rw [hglobals.id_iff] at hid
    constructor
    · rintro rfl
      simpa using hid.symm
    · rintro rfl
      have hlast := (hglobals.id_iff other done.length).mpr (by simp)
      exact Option.some.inj (((hglobals.id_iff other id).mpr hid).symm.trans hlast)
  rw [List.mem_cons, ← hcompleted other]
  constructor
  · rintro ⟨id, hid, hlt⟩
    rcases Nat.lt_succ_iff_lt_or_eq.mp hlt with hlt | heq
    · exact .inr ⟨id, hid, hlt⟩
    · exact .inl ((hname id hid).mp heq)
  · rintro (rfl | ⟨id, hid, hlt⟩)
    · exact ⟨done.length, (hglobals.id_iff other done.length).mpr (by simp), Nat.lt_succ_self _⟩
    · exact ⟨id, hid, Nat.lt_succ_of_lt hlt⟩

/-- The script globals before a statement are complete when the statement is reached. -/
theorem Visible.Shows.complete {v : Visible} {c : Context} {done rest : List String} {name : String}
    (h : v.Shows s c) (hglobals : s.HasGlobals (done ++ name :: rest))
    (hreached : v.reached = done.length) :
    Visible.Shows s { v with reached := done.length + 1 }
      { c with completed := name :: c.completed } :=
  ⟨h.inner, h.outer, h.announced, h.pending,
    hglobals.completed_succ (hreached ▸ h.completed), h.next⟩

/-- A declaration at the top level is one of a script global, which gets the next number. -/
theorem global?_top {v : Visible} {done rest : List String} {name : String}
    (hglobals : s.HasGlobals (done ++ name :: rest)) (houter : v.scopes.outer = []) :
    Surroundings.global? { signatures := s, topLevel := true } v name = some done.length := by
  have hid : s.globals[name]? = some done.length := (hglobals.id_iff _ _).mpr (by simp)
  simp [Surroundings.global?, Scopes.isOutermost, houter, hid]

/-- After a top-level statement scopes and context still say the same, and one more script global is
complete if the statement declares one. -/
theorem Visible.Shows.afterTop {v v' : Visible} {c : Context} {done : List String} {stmt : Stmt}
    {rest : List Stmt} {b : Bound.Stmt} (h : v.Shows s c)
    (hglobals : s.HasGlobals (done ++ declaredNames (stmt :: rest)))
    (hreached : v.reached = done.length) (houter : v.scopes.outer = [])
    (hbind : bindStmt { signatures := s, topLevel := true } false v stmt = .ok (b, v')) :
    v'.Shows s (c.afterTop stmt) ∧ v'.reached = (done ++ stmt.declared?.toList).length ∧
      v'.scopes.outer = [] := by
  rw [declaredNames_cons] at hglobals
  cases hdeclared : stmt.declared? with
  | none =>
    have hrises : v.Rises v' := by simpa [Visible.after, hdeclared] using bindStmt_rises hbind
    have hafter : c.afterTop stmt = c := by simp [Context.afterTop, hdeclared]
    rw [hafter]
    refine ⟨h.rises hrises, ?_, ?_⟩
    · rw [hrises.eq]
      simpa using hreached
    · rw [hrises.eq]
      exact houter
  | some name =>
    obtain ⟨initial, rfl⟩ := Stmt.eq_declare hdeclared
    rw [hdeclared, Option.toList_some, List.singleton_append] at hglobals
    rw [bindStmt_declare] at hbind
    obtain ⟨value, -, hr⟩ := (bindDeclaration_global (global?_top hglobals houter)).mp hbind
    obtain ⟨-, rfl⟩ := Prod.mk.inj hr
    exact ⟨h.complete hglobals hreached, by simp, houter⟩

/-- Binding top-level statements reports their first problem. -/
theorem bindStmts_topReports (hfunctions : s.HasFunctions p.functions)
    (hglobals : s.HasGlobals p.globalNames) (bound : List Bound.Stmt) {v : Visible} {c : Context}
    (done : List String) (statements : List Stmt)
    (h : v.Shows s c) (hdone : p.globalNames = done ++ declaredNames statements)
    (hreached : v.reached = done.length) (houter : v.scopes.outer = []) :
    Reports (bindStmts { signatures := s, topLevel := true } false bound v statements)
      (Stmt.topProblemsOf p.functions p.globalNames c statements) := by
  induction statements generalizing bound v c done with
  | nil =>
    rw [bindStmts]
    exact Reports.ok _
  | cons stmt rest ih =>
    have hstmt : Reports (bindStmt { signatures := s, topLevel := true } false v stmt)
        (stmt.topProblems p.functions p.globalNames c) := by
      cases hdeclared : stmt.declared? with
      | none =>
        rw [Stmt.topProblems_eq_problems hdeclared]
        exact bindStmt_reports hfunctions hglobals false v c h stmt (by simp [hdeclared])
      | some name =>
        obtain ⟨initial, rfl⟩ := Stmt.eq_declare hdeclared
        rw [declaredNames_cons, hdeclared, Option.toList_some, List.singleton_append] at hdone
        rw [Stmt.topProblems, bindStmt, bindDeclaration, global?_top (hdone ▸ hglobals) houter]
        exact (bindInitial_reports hfunctions hglobals h initial).map
    rw [bindStmts_cons_eq, Stmt.topProblemsOf]
    refine hstmt.bind fun r hbind => ?_
    obtain ⟨b, v'⟩ := r
    obtain ⟨hshows, hreached', houter'⟩ := h.afterTop (hdone ▸ hglobals) hreached houter hbind
    refine ih (b :: bound) (done ++ stmt.declared?.toList) hshows ?_ hreached' houter'
    rw [hdone, declaredNames_cons, List.append_assoc]

/-- Binding the top-level code reports its first problem. -/
theorem bindTopLevel_reports (hfunctions : s.HasFunctions p.functions)
    (hglobals : s.HasGlobals p.globalNames) :
    Reports (bindTopLevel s p.statements)
      (located none (Stmt.topProblemsOf p.functions p.globalNames {} p.statements)) := by
  have hstart : Visible.Shows s {} {} := shows_start (by simp)
  refine Reports.mapError ?_
  rw [bindBody, bindParams]
  exact (bindStmts_topReports hfunctions hglobals [] [] p.statements hstart rfl rfl rfl).map

/-- Binding a program reports its first problem. -/
theorem bind_reports (p : Program) : Reports p.bind p.problems := by
  rw [Program.bind, Program.problems, List.append_assoc]
  refine (ofProgram_reports p).bind fun s hs => ?_
  obtain ⟨hfunctions, hglobals⟩ := Signatures.ofProgram_table hs
  exact (bindTopLevel_reports hfunctions hglobals).bind fun _ _ =>
    (bindFunctions_reports hfunctions hglobals [] p.functions).map

end Bodies

/-- A program compiles exactly when it is well-formed, and otherwise the error is the
first of its problems. -/
theorem compile_ok_iff_wellFormed (p : Program) :
    ((∃ u, compile p = .ok u) ↔ p.WellFormed) ∧
      ∀ error, compile p = .error error ↔ p.problems.head? = some error := by
  have hreports : Reports (compile p) p.problems := (bind_reports p).map
  rw [← Program.problems_eq_nil]
  exact ⟨hreports.exists_ok_iff, fun error => hreports.eq_error_iff⟩

end HostScript
