import HostScript.Proofs.WellFormed.NoProblems

/-!
# Frames that are too large

A program can follow every rule but the one about the size of frames. All its problems are then of
one kind, in each body whose frame is too large and nowhere else. The rules on a statement are taken
apart as for a statement without problems, but slots are not counted on the way.
-/

namespace HostScript

/-- Whether problems are all about slots. -/
def OnlySlots (faults : List CompileFault) : Prop :=
  ∀ fault ∈ faults, fault = .tooMany "local slots"

namespace OnlySlots

variable {faults others : List CompileFault}

theorem of_eq_nil (h : faults = []) : OnlySlots faults := by
  rw [h]
  exact List.forall_mem_nil _

theorem append (h : OnlySlots faults) (h' : OnlySlots others) : OnlySlots (faults ++ others) :=
  List.forall_mem_append.mpr ⟨h, h'⟩

theorem ofSlotProblem (n : Nat) : OnlySlots (slotProblem n) := by
  unfold slotProblem reportUnless
  split
  · exact List.forall_mem_nil _
  · exact fun fault hfault => List.mem_singleton.mp hfault

/-- Of problems that are all about slots the first one tells whether there are enough. -/
theorem head?_eq (h : OnlySlots faults) {needed : Nat} (hnil : faults = [] ↔ needed ≤ countLimit) :
    faults.head? = (slotProblem needed).head? := by
  unfold slotProblem reportUnless
  split
  next hroom => rw [hnil.mpr hroom]
  next hroom =>
    cases faults with
    | nil => exact absurd (hnil.mp rfl) hroom
    | cons fault rest => exact congrArg some (h fault List.mem_cons_self)

end OnlySlots

/-- Whether a statement follows the rules in a context, whatever slots it needs. -/
structure Stmt.Orderly (functions : List FunctionDecl) (globals : List String) (inLoop : Bool)
    (c : Context) (stmt : Stmt) : Prop where
  exprs : ∀ expr ∈ stmt.exprs, expr.FitsArity functions ∧ expr.FitsCount
  stmts : ∀ part ∈ stmt.parts, part.Assigns ∧ part.DeclaresOnce
  loops : stmt.StaysInLoop inLoop
  reads : stmt.Reads globals c
  fresh : ∀ name ∈ stmt.declared?, name ∉ c.inner

/-- Whether the statements of one scope follow the rules in a context, whatever slots they need. -/
structure Stmt.AllOrderly (functions : List FunctionDecl) (globals : List String) (inLoop : Bool)
    (c : Context) (statements : List Stmt) : Prop where
  exprs : ∀ expr ∈ Stmt.exprsOf statements, expr.FitsArity functions ∧ expr.FitsCount
  stmts : ∀ part ∈ Stmt.partsOf statements, part.Assigns ∧ part.DeclaresOnce
  loops : Stmt.StayInLoop inLoop statements
  reads : Stmt.ReadAll globals c statements
  fresh : NewNames c.inner (declaredNames statements)

section Orderly

variable {functions : List FunctionDecl} {globals : List String} {inLoop inBody : Bool}
  {c c' : Context}

/-- A statement that needs no slots and is orderly has no problems. -/
theorem Stmt.Orderly.problems_eq_nil {stmt : Stmt} (h : stmt.Orderly functions globals inLoop c)
    (hnodup : (functions.map (·.name)).Nodup) (hslots : stmt.slots = 0) :
    stmt.problems functions globals inLoop c = [] :=
  (Stmt.problems_eq_nil hnodup inLoop c stmt).mpr
    ⟨h.exprs, h.stmts, h.loops, .inl hslots, h.reads, h.fresh⟩

/-- A statement inside an orderly one is orderly in a scope of its own. -/
theorem Stmt.Orderly.body {stmt body : Stmt} (h : stmt.Orderly functions globals inLoop c)
    (hexprs : body.exprs ⊆ stmt.exprs) (hparts : body.parts ⊆ stmt.parts)
    (hloops : body.StaysInLoop inBody) (hreads : body.Reads globals c') (hinner : c'.inner = []) :
    body.Orderly functions globals inBody c' where
  exprs expr hexpr := h.exprs expr (hexprs hexpr)
  stmts part hpart := h.stmts part (hparts hpart)
  loops := hloops
  reads := hreads
  fresh name _ := by simp [hinner]

/-- An expression of an orderly statement has no problems where its variables mean something. -/
theorem Stmt.Orderly.expr_problems_eq_nil {stmt : Stmt} {expr : Expr}
    (h : stmt.Orderly functions globals inLoop c) (hnodup : (functions.map (·.name)).Nodup)
    (hparts : expr.parts ⊆ stmt.exprs) (hreads : expr.Reads globals c) :
    expr.problems functions globals c = [] :=
  (Expr.problems_eq_nil_iff hnodup).mpr ⟨fun part hpart => h.exprs part (hparts hpart), hreads⟩

/-- The first statement of orderly ones is orderly, and so are the others after it. -/
theorem Stmt.AllOrderly.of_cons {stmt : Stmt} {rest : List Stmt}
    (h : Stmt.AllOrderly functions globals inLoop c (stmt :: rest)) :
    stmt.Orderly functions globals inLoop c ∧
      Stmt.AllOrderly functions globals inLoop (c.after stmt) rest := by
  obtain ⟨hexprs, hothers⟩ := List.forall_mem_append.mp h.exprs
  obtain ⟨hstmts, hrest⟩ := List.forall_mem_append.mp h.stmts
  obtain ⟨hfresh, hlater⟩ := (Stmt.newNames_declaredNames_cons c stmt rest).mp h.fresh
  exact ⟨⟨hexprs, hstmts, h.loops.1, h.reads.1, hfresh⟩, hothers, hrest, h.loops.2,
    h.reads.2, hlater⟩

mutual

/-- All problems of an orderly statement are about slots. -/
theorem Stmt.Orderly.onlySlots (hnodup : (functions.map (·.name)).Nodup) :
    (inLoop : Bool) → (c : Context) → (stmt : Stmt) → stmt.Orderly functions globals inLoop c →
      OnlySlots (stmt.problems functions globals inLoop c)
  | _, _, .assign .., h | _, _, .returnVoid, h | _, _, .returnValue _, h | _, _, .discard _, h
  | _, _, .breakLoop, h | _, _, .continueLoop, h => .of_eq_nil (h.problems_eq_nil hnodup rfl)
  | inLoop, c, .whileLoop condition body, h => by
    have hcondition := h.expr_problems_eq_nil hnodup (List.subset_append_left _ _) h.reads.1
    have hbody := Stmt.Orderly.onlySlots hnodup true c.enter body
      (h.body (List.subset_append_right _ _) (List.subset_cons_self _ _) h.loops h.reads.2 rfl)
    exact (OnlySlots.of_eq_nil hcondition).append hbody
  | inLoop, c, .ifThen condition body, h => by
    have hcondition := h.expr_problems_eq_nil hnodup (List.subset_append_left _ _) h.reads.1
    have hbody := Stmt.Orderly.onlySlots hnodup inLoop c.enter body
      (h.body (List.subset_append_right _ _) (List.subset_cons_self _ _) h.loops h.reads.2 rfl)
    exact (OnlySlots.of_eq_nil hcondition).append hbody
  | inLoop, c, .forLoop name source body, h => by
    have hsource := h.expr_problems_eq_nil hnodup (List.subset_append_left _ _) h.reads.1
    have hbody := Stmt.Orderly.onlySlots hnodup true (c.forHeader name).enter body
      (h.body (List.subset_append_right _ _) (List.subset_cons_self _ _) h.loops h.reads.2 rfl)
    exact ((OnlySlots.of_eq_nil hsource).append (.ofSlotProblem _)).append hbody
  | inLoop, c, .ifElse condition body otherwise, h => by
    have hbefore : condition.parts ++ body.exprs ⊆ (Stmt.ifElse condition body otherwise).exprs :=
      List.subset_append_left _ _
    have hparts : body.parts ++ otherwise.parts ⊆ (Stmt.ifElse condition body otherwise).parts :=
      List.subset_cons_self _ _
    have hcondition := h.expr_problems_eq_nil hnodup
      (List.Subset.trans (List.subset_append_left _ _) hbefore) h.reads.1
    have hbody := Stmt.Orderly.onlySlots hnodup inLoop c.enter body
      (h.body (List.Subset.trans (List.subset_append_right _ _) hbefore)
        (List.Subset.trans (List.subset_append_left _ _) hparts) h.loops.1 h.reads.2.1 rfl)
    have hotherwise := Stmt.Orderly.onlySlots hnodup inLoop c.enter otherwise
      (h.body (List.subset_append_right _ _)
        (List.Subset.trans (List.subset_append_right _ _) hparts) h.loops.2 h.reads.2.2 rfl)
    exact ((OnlySlots.of_eq_nil hcondition).append hbody).append hotherwise
  | inLoop, c, .declare name initial, h => by
    have hinitial := (initialProblems_eq_nil hnodup).mpr ⟨h.exprs, h.reads⟩
    have hname : reportUnless (name ∉ c.inner) (CompileFault.duplicateDeclaration name) = [] :=
      reportUnless_eq_nil.mpr (h.fresh name rfl)
    exact ((OnlySlots.of_eq_nil hinitial).append (.of_eq_nil hname)).append (.ofSlotProblem _)
  | inLoop, c, .block statements, h => by
    obtain ⟨hown, hstmts⟩ := List.forall_mem_cons.mp h.stmts
    exact Stmt.AllOrderly.onlySlots hnodup inLoop _ statements
      ⟨h.exprs, hstmts, h.loops, h.reads, newNames_empty.mpr hown.2⟩

/-- All problems of orderly statements are about slots. -/
theorem Stmt.AllOrderly.onlySlots (hnodup : (functions.map (·.name)).Nodup) :
    (inLoop : Bool) → (c : Context) → (statements : List Stmt) →
      Stmt.AllOrderly functions globals inLoop c statements →
      OnlySlots (Stmt.problemsOf functions globals inLoop c statements)
  | _, _, [], _ => .of_eq_nil rfl
  | inLoop, c, stmt :: rest, h => by
    obtain ⟨hstmt, hrest⟩ := h.of_cons
    exact (Stmt.Orderly.onlySlots hnodup inLoop c stmt hstmt).append
      (Stmt.AllOrderly.onlySlots hnodup inLoop (c.after stmt) rest hrest)

end

/-- Whether top-level statements follow the rules in a context, whatever slots they need. -/
structure Stmt.TopOrderly (functions : List FunctionDecl) (globals : List String) (c : Context)
    (statements : List Stmt) : Prop where
  exprs : ∀ expr ∈ Stmt.exprsOf statements, expr.FitsArity functions ∧ expr.FitsCount
  stmts : ∀ part ∈ Stmt.partsOf statements, part.Assigns ∧ part.DeclaresOnce
  loops : Stmt.StayInLoop false statements
  reads : Stmt.TopReadAll globals c statements

/-- All problems of orderly top-level statements are about slots. -/
theorem Stmt.TopOrderly.onlySlots (hnodup : (functions.map (·.name)).Nodup) {statements : List Stmt}
    (h : Stmt.TopOrderly functions globals c statements) :
    OnlySlots (Stmt.topProblemsOf functions globals c statements) := by
  induction statements generalizing c with
  | nil => exact .of_eq_nil rfl
  | cons stmt rest ih =>
    obtain ⟨hexprs, hothers⟩ := List.forall_mem_append.mp h.exprs
    obtain ⟨hstmts, hrest⟩ := List.forall_mem_append.mp h.stmts
    refine OnlySlots.append ?_ (ih ⟨hothers, hrest, h.loops.2, h.reads.2⟩)
    have hreads := h.reads.1
    cases hdeclared : stmt.declared? with
    | none =>
      have hplain : stmt.Reads globals c := by
        cases stmt with
        | declare name initial => cases hdeclared
        | _ => exact hreads
      rw [Stmt.topProblems_eq_problems hdeclared]
      exact Stmt.Orderly.onlySlots hnodup false c stmt
        ⟨hexprs, hstmts, h.loops.1, hplain, by simp [hdeclared]⟩
    | some name =>
      obtain ⟨initial, rfl⟩ := Stmt.eq_declare hdeclared
      exact .of_eq_nil ((initialProblems_eq_nil hnodup).mpr ⟨hexprs, hreads⟩)

/-- The first problem of orderly top-level statements is that their frame is too large, if it is. -/
theorem Stmt.TopOrderly.head?_problems (hnodup : (functions.map (·.name)).Nodup)
    {statements : List Stmt} (h : Stmt.TopOrderly functions globals {} statements) :
    (Stmt.topProblemsOf functions globals {} statements).head? =
      (slotProblem (Stmt.topSlots statements)).head? := by
  refine (h.onlySlots hnodup).head?_eq ?_
  rw [Stmt.topProblemsOf_eq_nil hnodup]
  constructor
  · intro hfine
    have hslots := hfine.slots
    dsimp only at hslots
    omega
  · intro hslots
    exact ⟨h.exprs, h.stmts, h.loops, .inr (by simpa using hslots), h.reads⟩

/-- The first problem of a function with different parameters and an orderly body is that its frames
are too large, if they are. -/
theorem FunctionDecl.head?_problems (hnodup : (functions.map (·.name)).Nodup) {f : FunctionDecl}
    (hinner : c.inner = []) (hslots : c.slots = 0) (hparams : f.params.Nodup)
    (hcount : f.params.length ≤ countLimit)
    (hbody : f.body.Orderly functions globals false (c.declareAll f.params)) :
    (f.problems functions globals c).head? =
      (slotProblem (f.params.length + f.body.slots)).head? := by
  have hnone : paramProblems c f.params = [] := by
    rw [paramProblems_eq_nil, hinner, hslots]
    exact ⟨newNames_empty.mpr hparams, .inr (by simpa using hcount)⟩
  have honly : OnlySlots (f.problems functions globals c) :=
    (OnlySlots.of_eq_nil hnone).append (Stmt.Orderly.onlySlots hnodup false _ f.body hbody)
  have hused : (c.declareAll f.params).slots = f.params.length := by simp [hslots]
  refine honly.head?_eq ?_
  rw [FunctionDecl.problems_eq_nil hnodup f hinner hslots]
  constructor
  · rintro ⟨-, hfine⟩
    have hroom := hfine.slots
    omega
  · intro hroom
    exact ⟨⟨hparams, hcount⟩, hbody.exprs, hbody.stmts, hbody.loops, .inr (hused ▸ hroom),
      hbody.reads, hbody.fresh⟩

end Orderly

namespace Program

/-- Whether a program follows the rules, whatever slots its bodies need. -/
structure Orderly (p : Program) : Prop where
  functions_count : p.functions.length ≤ countLimit + 1
  functions_nodup : (p.functions.map (·.name)).Nodup
  params_count : ∀ f ∈ p.functions, f.params.length ≤ countLimit
  globals_count : p.globalNames.length ≤ countLimit + 1
  globals_nodup : p.globalNames.Nodup
  scopes_nodup : ∀ f ∈ p.functions, f.scopeNames.Nodup
  blocks_nodup : ∀ stmt ∈ p.stmts, stmt.DeclaresOnce
  loops : Stmt.StayInLoop false p.statements ∧ ∀ f ∈ p.functions, f.body.StaysInLoop false
  assignments : ∀ stmt ∈ p.stmts, stmt.Assigns
  arities : ∀ expr ∈ p.exprs, expr.FitsArity p.functions
  counts : ∀ expr ∈ p.exprs, expr.FitsCount
  reads : Stmt.TopReadAll p.globalNames {} p.statements ∧
    ∀ f ∈ p.functions, f.body.Reads p.globalNames (p.functionContext.declareAll f.params)

variable {p : Program}

/-- A program is well-formed when it is orderly and no body needs too many slots. -/
theorem wellFormed_iff_orderly :
    p.WellFormed ↔ p.Orderly ∧ Stmt.topSlots p.statements ≤ countLimit ∧
      ∀ f ∈ p.functions, f.params.length + f.body.slots ≤ countLimit := by
  constructor
  · intro h
    exact ⟨⟨h.functions_count, h.functions_nodup, h.params_count, h.globals_count, h.globals_nodup,
        h.scopes_nodup, h.blocks_nodup, h.loops, h.assignments, h.arities, h.counts, h.reads⟩,
      h.slots⟩
  · rintro ⟨h, hslots⟩
    exact ⟨h.functions_count, h.functions_nodup, h.params_count, h.globals_count, h.globals_nodup,
      h.scopes_nodup, h.blocks_nodup, h.loops, h.assignments, h.arities, h.counts, hslots, h.reads⟩

namespace Orderly

theorem top (h : p.Orderly) : Stmt.TopOrderly p.functions p.globalNames {} p.statements where
  exprs expr hexpr :=
    ⟨(forall_mem_exprs.mp h.arities).1 expr hexpr, (forall_mem_exprs.mp h.counts).1 expr hexpr⟩
  stmts stmt hstmt :=
    ⟨(forall_mem_stmts.mp h.assignments).1 stmt hstmt,
      (forall_mem_stmts.mp h.blocks_nodup).1 stmt hstmt⟩
  loops := h.loops.1
  reads := h.reads.1

theorem body (h : p.Orderly) {f : FunctionDecl} (hf : f ∈ p.functions) :
    f.body.Orderly p.functions p.globalNames false (p.functionContext.declareAll f.params) where
  exprs expr hexpr :=
    ⟨(forall_mem_exprs.mp h.arities).2 f hf expr hexpr,
      (forall_mem_exprs.mp h.counts).2 f hf expr hexpr⟩
  stmts stmt hstmt :=
    ⟨(forall_mem_stmts.mp h.assignments).2 f hf stmt hstmt,
      (forall_mem_stmts.mp h.blocks_nodup).2 f hf stmt hstmt⟩
  loops := h.loops.2 f hf
  reads := h.reads.2 f hf
  fresh := by
    simpa [functionContext] using (FunctionDecl.scopeNames_nodup.mp (h.scopes_nodup f hf)).2

/-- The tables of an orderly program have no problems. -/
theorem tables (h : p.Orderly) :
    functionTableProblems [] p.functions = [] ∧ globalTableProblems [] p.globalNames = [] := by
  rw [functionTableProblems_eq_nil, globalTableProblems_eq_nil, newNames_empty, newNames_empty]
  simp only [List.length_nil, Nat.zero_add]
  exact ⟨⟨.inr h.functions_count, h.params_count, h.functions_nodup⟩, .inr h.globals_count,
    h.globals_nodup⟩

end Orderly

end Program

end HostScript
