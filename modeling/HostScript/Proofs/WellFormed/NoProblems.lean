import HostScript.Proofs.WellFormed.Problems

/-!
# Programs without problems

A program has no problems exactly when it is well-formed. The rules are said one at a time for the
whole program, while problems are found where they stand, so the proof goes through what it means
for an expression, a statement and a list of statements to follow all the rules at once.
-/

namespace HostScript

section Fine

variable {functions : List FunctionDecl} {globals : List String}

/-- A call has no problem when it fits every function of its name, of which there is at most one. -/
theorem arityProblem_eq_nil (hnodup : (functions.map (·.name)).Nodup) {name : String}
    {args : List Expr} :
    arityProblem functions name args = [] ↔
      ∀ f ∈ functions, f.name = name → f.params.length = args.length := by
  unfold arityProblem
  split
  next f hfind =>
    have hmem := List.mem_of_find?_eq_some hfind
    have hname : f.name = name := by simpa using List.find?_some hfind
    rw [reportUnless_eq_nil]
    constructor
    · intro hfits g hg hgname
      obtain rfl : g = f := List.inj_on_of_nodup_map hnodup hg hmem (hgname.trans hname.symm)
      exact hfits
    · intro hall
      exact hall f hmem hname
  next hfind =>
    have hnone : ∀ f ∈ functions, f.name ≠ name := by simpa using List.find?_eq_none.mp hfind
    simpa using fun f hf hname => absurd hname (hnone f hf)

/-- Whether an expression follows the rules, its parts apart. -/
def Expr.Fine (functions : List FunctionDecl) (globals : List String) (c : Context)
    (expr : Expr) : Prop :=
  expr.FitsArity functions ∧ expr.FitsCount ∧ c.Names globals expr

section Constructors

variable {c : Context}

@[simp] theorem Expr.fine_var {name : String} :
    (Expr.var name).Fine functions globals c ↔ c.Means globals name := by
  simp [Expr.Fine, Expr.FitsArity, Expr.FitsCount, Context.Names]

@[simp] theorem Expr.fine_array {items : List Expr} :
    (Expr.array items).Fine functions globals c ↔ items.length ≤ countLimit := by
  simp [Expr.Fine, Expr.FitsArity, Expr.FitsCount, Context.Names]

@[simp] theorem Expr.fine_call {name : String} {args : List Expr} :
    (Expr.call name args).Fine functions globals c ↔
      (∀ f ∈ functions, f.name = name → f.params.length = args.length) ∧
      args.length ≤ countLimit := by
  simp [Expr.Fine, Expr.FitsArity, Expr.FitsCount, Context.Names]

@[simp] theorem Expr.fine_method {object : Expr} {name : String} {args : List Expr} :
    (Expr.method object name args).Fine functions globals c ↔ args.length ≤ countLimit := by
  simp [Expr.Fine, Expr.FitsArity, Expr.FitsCount, Context.Names]

@[simp] theorem Expr.fine_number {value : Float} : (Expr.number value).Fine functions globals c :=
  ⟨trivial, trivial, trivial⟩

@[simp] theorem Expr.fine_string {value : String} : (Expr.string value).Fine functions globals c :=
  ⟨trivial, trivial, trivial⟩

@[simp] theorem Expr.fine_index {base position : Expr} :
    (Expr.index base position).Fine functions globals c :=
  ⟨trivial, trivial, trivial⟩

@[simp] theorem Expr.fine_unary {op : UnaryOp} {operand : Expr} :
    (Expr.unary op operand).Fine functions globals c :=
  ⟨trivial, trivial, trivial⟩

@[simp] theorem Expr.fine_binary {op : BinaryOp} {lhs rhs : Expr} :
    (Expr.binary op lhs rhs).Fine functions globals c :=
  ⟨trivial, trivial, trivial⟩

end Constructors

mutual

/-- An expression has no problems when all its parts follow the rules. -/
theorem Expr.problems_eq_nil (hnodup : (functions.map (·.name)).Nodup) (c : Context) :
    (x : Expr) → (x.problems functions globals c = [] ↔
        ∀ part ∈ x.parts, part.Fine functions globals c)
  | .var name => by simp [Expr.problems, Expr.parts]
  | .number _ => by simp [Expr.problems, Expr.parts]
  | .string _ => by simp [Expr.problems, Expr.parts]
  | .array items => by
    simp [Expr.problems, Expr.parts, countProblem, Expr.problemsOf_eq_nil hnodup c items]
  | .index base position => by
    simp only [Expr.problems, Expr.parts, List.append_eq_nil_iff, List.forall_mem_cons,
      List.forall_mem_append, Expr.problems_eq_nil hnodup c base,
      Expr.problems_eq_nil hnodup c position, Expr.fine_index, true_and]
  | .call function args => by
    simp [Expr.problems, Expr.parts, countProblem, arityProblem_eq_nil hnodup,
      Expr.problemsOf_eq_nil hnodup c args, and_assoc]
  | .method object _ args => by
    simp only [Expr.problems, Expr.parts, countProblem, reportUnless_eq_nil, List.append_eq_nil_iff,
      List.forall_mem_cons, List.forall_mem_append, Expr.problems_eq_nil hnodup c object,
      Expr.problemsOf_eq_nil hnodup c args, Expr.fine_method]
    exact ⟨fun ⟨⟨hobject, hcount⟩, hargs⟩ => ⟨hcount, hobject, hargs⟩,
      fun ⟨hcount, hobject, hargs⟩ => ⟨⟨hobject, hcount⟩, hargs⟩⟩
  | .unary _ operand => by simp [Expr.problems, Expr.parts, Expr.problems_eq_nil hnodup c operand]
  | .binary _ lhs rhs => by
    simp only [Expr.problems, Expr.parts, List.append_eq_nil_iff, List.forall_mem_cons,
      List.forall_mem_append, Expr.problems_eq_nil hnodup c lhs, Expr.problems_eq_nil hnodup c rhs,
      Expr.fine_binary, true_and]

/-- Expressions have no problems when all their parts follow the rules. -/
theorem Expr.problemsOf_eq_nil (hnodup : (functions.map (·.name)).Nodup) (c : Context) :
    (xs : List Expr) →
      (Expr.problemsOf functions globals c xs = [] ↔
        ∀ part ∈ Expr.partsOf xs, part.Fine functions globals c)
  | [] => by simp [Expr.problemsOf, Expr.partsOf]
  | x :: xs => by
    simp only [Expr.problemsOf, Expr.partsOf, List.append_eq_nil_iff, List.forall_mem_append,
      Expr.problems_eq_nil hnodup c x, Expr.problemsOf_eq_nil hnodup c xs]

end

/-- Whether the lists in an expression can be counted and its calls fit. -/
def Expr.Fits (functions : List FunctionDecl) (expr : Expr) : Prop :=
  ∀ part ∈ expr.parts, part.FitsArity functions ∧ part.FitsCount

/-- An expression has no problems when it fits and its variables mean something. -/
theorem Expr.problems_eq_nil_iff (hnodup : (functions.map (·.name)).Nodup) {c : Context}
    {x : Expr} : x.problems functions globals c = [] ↔ x.Fits functions ∧ x.Reads globals c := by
  rw [Expr.problems_eq_nil hnodup]
  constructor
  · exact fun h =>
      ⟨fun part hpart => ⟨(h part hpart).1, (h part hpart).2.1⟩,
        fun part hpart => (h part hpart).2.2⟩
  · exact fun ⟨hfits, hreads⟩ part hpart =>
      ⟨(hfits part hpart).1, (hfits part hpart).2, hreads part hpart⟩

/-- The initial value of a declaration has no problems when it fits and its variables mean
something. -/
theorem initialProblems_eq_nil (hnodup : (functions.map (·.name)).Nodup) {c : Context}
    {initial : Option Expr} :
    initialProblems functions globals c initial = [] ↔
      (∀ part ∈ initialParts initial, part.FitsArity functions ∧ part.FitsCount) ∧
        InitialReads globals c initial := by
  cases initial with
  | none => simp [initialProblems, initialParts, InitialReads]
  | some value => exact Expr.problems_eq_nil_iff hnodup

@[simp] theorem Context.inner_after (c : Context) (stmt : Stmt) :
    (c.after stmt).inner = stmt.declared?.toList ++ c.inner := by
  unfold Context.after
  split <;> simp [Context.declare, *]

@[simp] theorem Context.slots_after (c : Context) (stmt : Stmt) :
    (c.after stmt).slots = c.slots + stmt.kept := by
  unfold Context.after Stmt.kept
  split <;> simp [Context.declare, *]

theorem Stmt.kept_le_slots (stmt : Stmt) : stmt.kept ≤ stmt.slots := by
  cases stmt <;> simp [Stmt.kept, Stmt.declared?, Stmt.slots]

/-- Whether names are distinct and none of them was seen before. -/
def NewNames (seen names : List String) : Prop :=
  names.Nodup ∧ names.Disjoint seen

@[simp] theorem newNames_nil {seen : List String} : NewNames seen [] :=
  ⟨List.nodup_nil, List.disjoint_nil_left seen⟩

theorem newNames_cons {seen rest : List String} {name : String} :
    NewNames seen (name :: rest) ↔ name ∉ seen ∧ NewNames (name :: seen) rest := by
  rw [NewNames, NewNames, List.nodup_cons, List.disjoint_cons_left, List.disjoint_cons_right]
  exact ⟨fun ⟨⟨hname, hnodup⟩, hseen, hrest⟩ => ⟨hseen, hnodup, hname, hrest⟩,
    fun ⟨hseen, hnodup, hname, hrest⟩ => ⟨⟨hname, hnodup⟩, hseen, hrest⟩⟩

theorem newNames_empty {names : List String} : NewNames [] names ↔ names.Nodup :=
  and_iff_left (List.disjoint_nil_right names)

/-- Statements declare new names when the first one does and the others do after it. -/
theorem Stmt.newNames_declaredNames_cons (c : Context) (stmt : Stmt) (rest : List Stmt) :
    NewNames c.inner (declaredNames (stmt :: rest)) ↔
      (∀ name ∈ stmt.declared?, name ∉ c.inner) ∧
      NewNames (c.after stmt).inner (declaredNames rest) := by
  rw [declaredNames_cons, Context.inner_after]
  cases stmt.declared? with
  | none => simp
  | some name => simpa using newNames_cons

/-- Whether a statement follows the rules in a context. -/
structure Stmt.Fine (functions : List FunctionDecl) (globals : List String) (inLoop : Bool)
    (c : Context) (stmt : Stmt) : Prop where
  exprs : ∀ expr ∈ stmt.exprs, expr.FitsArity functions ∧ expr.FitsCount
  stmts : ∀ part ∈ stmt.parts, part.Assigns ∧ part.DeclaresOnce
  loops : stmt.StaysInLoop inLoop
  slots : stmt.slots = 0 ∨ c.slots + stmt.slots ≤ countLimit
  reads : stmt.Reads globals c
  fresh : ∀ name ∈ stmt.declared?, name ∉ c.inner

/-- Whether the statements of one scope follow the rules in a context. -/
structure Stmt.AllFine (functions : List FunctionDecl) (globals : List String) (inLoop : Bool)
    (c : Context) (statements : List Stmt) : Prop where
  exprs : ∀ expr ∈ Stmt.exprsOf statements, expr.FitsArity functions ∧ expr.FitsCount
  stmts : ∀ part ∈ Stmt.partsOf statements, part.Assigns ∧ part.DeclaresOnce
  loops : Stmt.StayInLoop inLoop statements
  slots : Stmt.slotsOf statements = 0 ∨ c.slots + Stmt.slotsOf statements ≤ countLimit
  reads : Stmt.ReadAll globals c statements
  fresh : NewNames c.inner (declaredNames statements)

section Constructors

variable {inLoop : Bool} {c : Context}

/-- A statement that holds no other statements has to follow only its own rules. -/
theorem Stmt.fine_leaf {stmt : Stmt} (hparts : stmt.parts = [stmt])
    (hslots : stmt.slots = stmt.kept) :
    stmt.Fine functions globals inLoop c ↔
      (∀ expr ∈ stmt.exprs, expr.FitsArity functions ∧ expr.FitsCount) ∧
        (stmt.Assigns ∧ stmt.DeclaresOnce) ∧
        stmt.StaysInLoop inLoop ∧ stmt.Reads globals c ∧
        ∀ name ∈ stmt.declared?, name ∉ c.inner ∧ c.slots + 1 ≤ countLimit := by
  have hroom : (stmt.slots = 0 ∨ c.slots + stmt.slots ≤ countLimit) ↔
      ∀ name ∈ stmt.declared?, c.slots + 1 ≤ countLimit := by
    rw [hslots, Stmt.kept]
    cases stmt.declared? <;> simp
  constructor
  · intro h
    refine ⟨h.exprs, h.stmts stmt (by simp [hparts]), h.loops, h.reads, fun name hname => ?_⟩
    exact ⟨h.fresh name hname, hroom.mp h.slots name hname⟩
  · rintro ⟨hexprs, hown, hloops, hreads, hdeclared⟩
    exact ⟨hexprs, by simpa [hparts] using hown, hloops, hroom.mpr fun name hname =>
        (hdeclared name hname).2, hreads, fun name hname => (hdeclared name hname).1⟩

/-- A statement that runs its body under a condition has to follow the rules of both. -/
theorem Stmt.fine_guarded {stmt body : Stmt} {condition : Expr} {inBody : Bool}
    (hexprs : stmt.exprs = condition.parts ++ body.exprs) (hparts : stmt.parts = stmt :: body.parts)
    (hown : stmt.Assigns ∧ stmt.DeclaresOnce)
    (hloops : stmt.StaysInLoop inLoop ↔ body.StaysInLoop inBody) (hslots : stmt.slots = body.slots)
    (hreads : stmt.Reads globals c ↔ condition.Reads globals c ∧ body.Reads globals c.enter)
    (hdeclared : stmt.declared? = none) :
    stmt.Fine functions globals inLoop c ↔
      (condition.Fits functions ∧ condition.Reads globals c) ∧
      body.Fine functions globals inBody c.enter := by
  constructor
  · intro h
    obtain ⟨hfits, hrest⟩ := List.forall_mem_append.mp (hexprs ▸ h.exprs)
    obtain ⟨hcondition, hbody⟩ := hreads.mp h.reads
    exact ⟨⟨hfits, hcondition⟩, hrest, (List.forall_mem_cons.mp (hparts ▸ h.stmts)).2,
      hloops.mp h.loops, hslots ▸ h.slots, hbody, fun _ _ => List.not_mem_nil⟩
  · rintro ⟨⟨hfits, hcondition⟩, hbody⟩
    exact ⟨hexprs ▸ List.forall_mem_append.mpr ⟨hfits, hbody.exprs⟩,
      hparts ▸ List.forall_mem_cons.mpr ⟨hown, hbody.stmts⟩, hloops.mpr hbody.loops,
      hslots ▸ hbody.slots, hreads.mpr ⟨hcondition, hbody.reads⟩, by simp [hdeclared]⟩

theorem Stmt.fine_whileLoop {condition : Expr} {body : Stmt} :
    (Stmt.whileLoop condition body).Fine functions globals inLoop c ↔
      (condition.Fits functions ∧ condition.Reads globals c) ∧
      body.Fine functions globals true c.enter :=
  Stmt.fine_guarded rfl rfl ⟨trivial, trivial⟩ Iff.rfl rfl Iff.rfl rfl

theorem Stmt.fine_ifThen {condition : Expr} {body : Stmt} :
    (Stmt.ifThen condition body).Fine functions globals inLoop c ↔
      (condition.Fits functions ∧ condition.Reads globals c) ∧
        body.Fine functions globals inLoop c.enter :=
  Stmt.fine_guarded rfl rfl ⟨trivial, trivial⟩ Iff.rfl rfl Iff.rfl rfl

theorem Stmt.fine_forLoop {name : String} {source : Expr} {body : Stmt} :
    (Stmt.forLoop name source body).Fine functions globals inLoop c ↔
      ((source.Fits functions ∧ source.Reads globals c) ∧ c.slots + 3 ≤ countLimit) ∧
        body.Fine functions globals true (c.forHeader name).enter := by
  have hheader : (c.forHeader name).enter.slots = c.slots + 3 := rfl
  constructor
  · intro h
    obtain ⟨hfits, hexprs⟩ := List.forall_mem_append.mp h.exprs
    have hslots := h.slots
    rw [Stmt.slots] at hslots
    exact ⟨⟨⟨hfits, h.reads.1⟩, by omega⟩, hexprs, (List.forall_mem_cons.mp h.stmts).2, h.loops,
      by rw [hheader]; omega, h.reads.2, fun _ _ => List.not_mem_nil⟩
  · rintro ⟨⟨⟨hfits, hreads⟩, hroom⟩, hbody⟩
    have hslots := hbody.slots
    rw [hheader] at hslots
    exact ⟨List.forall_mem_append.mpr ⟨hfits, hbody.exprs⟩,
      List.forall_mem_cons.mpr ⟨⟨trivial, trivial⟩, hbody.stmts⟩, hbody.loops,
      by rw [Stmt.slots]; omega, ⟨hreads, hbody.reads⟩,
      fun name hname => absurd hname (Option.not_mem_none name)⟩

theorem Stmt.fine_ifElse {condition : Expr} {body otherwise : Stmt} :
    (Stmt.ifElse condition body otherwise).Fine functions globals inLoop c ↔
      ((condition.Fits functions ∧ condition.Reads globals c) ∧
        body.Fine functions globals inLoop c.enter) ∧
        otherwise.Fine functions globals inLoop c.enter := by
  have henter : c.enter.slots = c.slots := rfl
  constructor
  · intro h
    obtain ⟨hbefore, hothers⟩ := List.forall_mem_append.mp h.exprs
    obtain ⟨hfits, hexprs⟩ := List.forall_mem_append.mp hbefore
    obtain ⟨hstmts, hrest⟩ := List.forall_mem_append.mp (List.forall_mem_cons.mp h.stmts).2
    have hslots := h.slots
    rw [Stmt.slots] at hslots
    exact ⟨
      ⟨⟨hfits, h.reads.1⟩, hexprs, hstmts, h.loops.1, by omega,
      h.reads.2.1, fun _ _ => List.not_mem_nil⟩,
      hothers, hrest, h.loops.2, by omega, h.reads.2.2, fun _ _ => List.not_mem_nil⟩
  · rintro ⟨⟨⟨hfits, hreads⟩, hbody⟩, hotherwise⟩
    have hslots := hbody.slots
    have hrest := hotherwise.slots
    exact ⟨List.forall_mem_append.mpr
        ⟨List.forall_mem_append.mpr ⟨hfits, hbody.exprs⟩, hotherwise.exprs⟩,
      List.forall_mem_cons.mpr
        ⟨⟨trivial, trivial⟩, List.forall_mem_append.mpr ⟨hbody.stmts, hotherwise.stmts⟩⟩,
      ⟨hbody.loops, hotherwise.loops⟩, by rw [Stmt.slots]; omega,
      ⟨hreads, hbody.reads, hotherwise.reads⟩,
      fun name hname => absurd hname (Option.not_mem_none name)⟩

theorem Stmt.fine_block {statements : List Stmt} :
    (Stmt.block statements).Fine functions globals inLoop c ↔
      Stmt.AllFine functions globals inLoop (c.enter.announce (declaredNames statements))
        statements := by
  constructor
  · intro h
    obtain ⟨hown, hstmts⟩ := List.forall_mem_cons.mp h.stmts
    exact ⟨h.exprs, hstmts, h.loops, h.slots, h.reads, newNames_empty.mpr hown.2⟩
  · intro h
    exact ⟨h.exprs, List.forall_mem_cons.mpr ⟨⟨trivial, newNames_empty.mp h.fresh⟩, h.stmts⟩,
      h.loops, h.slots, h.reads, nofun⟩

theorem Stmt.allFine_nil : Stmt.AllFine functions globals inLoop c [] :=
  ⟨nofun, nofun, trivial, .inl rfl, trivial, newNames_nil⟩

theorem Stmt.allFine_cons {stmt : Stmt} {rest : List Stmt} :
    Stmt.AllFine functions globals inLoop c (stmt :: rest) ↔
      stmt.Fine functions globals inLoop c ∧
      Stmt.AllFine functions globals inLoop (c.after stmt) rest := by
  have hkept := stmt.kept_le_slots
  have hnames := Stmt.newNames_declaredNames_cons c stmt rest
  constructor
  · intro h
    obtain ⟨hexprs, hothers⟩ := List.forall_mem_append.mp h.exprs
    obtain ⟨hstmts, hrest⟩ := List.forall_mem_append.mp h.stmts
    obtain ⟨hfresh, hlater⟩ := hnames.mp h.fresh
    have hslots := h.slots
    rw [Stmt.slotsOf] at hslots
    exact ⟨⟨hexprs, hstmts, h.loops.1, by omega, h.reads.1, hfresh⟩,
      hothers, hrest, h.loops.2, by rw [Context.slots_after]; omega, h.reads.2, hlater⟩
  · rintro ⟨hstmt, hrest⟩
    have hslots := hstmt.slots
    have hothers := hrest.slots
    rw [Context.slots_after] at hothers
    exact ⟨List.forall_mem_append.mpr ⟨hstmt.exprs, hrest.exprs⟩,
      List.forall_mem_append.mpr ⟨hstmt.stmts, hrest.stmts⟩, ⟨hstmt.loops, hrest.loops⟩,
      by rw [Stmt.slotsOf]; omega, ⟨hstmt.reads, hrest.reads⟩,
      hnames.mpr ⟨hstmt.fresh, hrest.fresh⟩⟩

end Constructors

mutual

/-- A statement has no problems when it follows the rules. -/
theorem Stmt.problems_eq_nil (hnodup : (functions.map (·.name)).Nodup) (inLoop : Bool)
    (c : Context) :
    (stmt : Stmt) →
      (stmt.problems functions globals inLoop c = [] ↔ stmt.Fine functions globals inLoop c)
  | .assign target value => by
    rw [Stmt.fine_leaf rfl rfl, Stmt.problems, List.append_eq_nil_iff, List.append_eq_nil_iff,
      reportUnless_eq_nil, Expr.problems_eq_nil_iff hnodup, Expr.problems_eq_nil_iff hnodup]
    constructor
    · rintro ⟨⟨hassigns, hvalue, hreads⟩, htarget, hplaces⟩
      exact ⟨List.forall_mem_append.mpr ⟨hvalue, htarget⟩, ⟨hassigns, trivial⟩, trivial,
        ⟨hreads, hplaces⟩, nofun⟩
    · rintro ⟨hexprs, ⟨hassigns, -⟩, -, ⟨hreads, hplaces⟩, -⟩
      obtain ⟨hvalue, htarget⟩ := List.forall_mem_append.mp hexprs
      exact ⟨⟨hassigns, hvalue, hreads⟩, htarget, hplaces⟩
  | .returnVoid => by
    rw [Stmt.fine_leaf rfl rfl]
    exact iff_of_true rfl ⟨nofun, ⟨trivial, trivial⟩, trivial, trivial, nofun⟩
  | .returnValue value => by
    rw [Stmt.fine_leaf rfl rfl, Stmt.problems, Expr.problems_eq_nil_iff hnodup]
    exact ⟨fun ⟨hfits, hreads⟩ => ⟨hfits, ⟨trivial, trivial⟩, trivial, hreads, nofun⟩,
      fun ⟨hfits, _, _, hreads, _⟩ => ⟨hfits, hreads⟩⟩
  | .discard value => by
    rw [Stmt.fine_leaf rfl rfl, Stmt.problems, Expr.problems_eq_nil_iff hnodup]
    exact ⟨fun ⟨hfits, hreads⟩ => ⟨hfits, ⟨trivial, trivial⟩, trivial, hreads, nofun⟩,
      fun ⟨hfits, _, _, hreads, _⟩ => ⟨hfits, hreads⟩⟩
  | .whileLoop condition body => by
    rw [Stmt.problems, List.append_eq_nil_iff, Expr.problems_eq_nil_iff hnodup,
      Stmt.problems_eq_nil hnodup true c.enter body, Stmt.fine_whileLoop]
  | .forLoop name source body => by
    rw [Stmt.problems, List.append_eq_nil_iff, List.append_eq_nil_iff,
      Expr.problems_eq_nil_iff hnodup, slotProblem, reportUnless_eq_nil,
      Stmt.problems_eq_nil hnodup true (c.forHeader name).enter body, Stmt.fine_forLoop]
  | .ifThen condition body => by
    rw [Stmt.problems, List.append_eq_nil_iff, Expr.problems_eq_nil_iff hnodup,
      Stmt.problems_eq_nil hnodup inLoop c.enter body, Stmt.fine_ifThen]
  | .ifElse condition body otherwise => by
    rw [Stmt.problems, List.append_eq_nil_iff, List.append_eq_nil_iff,
      Expr.problems_eq_nil_iff hnodup, Stmt.problems_eq_nil hnodup inLoop c.enter body,
      Stmt.problems_eq_nil hnodup inLoop c.enter otherwise, Stmt.fine_ifElse]
  | .declare name initial => by
    rw [Stmt.fine_leaf rfl rfl, Stmt.problems, List.append_eq_nil_iff, List.append_eq_nil_iff,
      initialProblems_eq_nil hnodup, reportUnless_eq_nil, slotProblem, reportUnless_eq_nil]
    constructor
    · rintro ⟨⟨⟨hfits, hreads⟩, hfresh⟩, hroom⟩
      refine ⟨hfits, ⟨trivial, trivial⟩, trivial, hreads, fun declared hdeclared => ?_⟩
      obtain rfl := Option.some.inj hdeclared
      exact ⟨hfresh, hroom⟩
    · rintro ⟨hfits, -, -, hreads, hdeclared⟩
      exact ⟨⟨⟨hfits, hreads⟩, (hdeclared name rfl).1⟩, (hdeclared name rfl).2⟩
  | .block statements => by
    rw [Stmt.problems, Stmt.problemsOf_eq_nil hnodup inLoop _ statements, Stmt.fine_block]
  | .breakLoop => by
    rw [Stmt.fine_leaf rfl rfl, Stmt.problems, reportUnless_eq_nil]
    exact ⟨fun hloop => ⟨nofun, ⟨trivial, trivial⟩, hloop, trivial, nofun⟩,
      fun ⟨_, _, hloop, _⟩ => hloop⟩
  | .continueLoop => by
    rw [Stmt.fine_leaf rfl rfl, Stmt.problems, reportUnless_eq_nil]
    exact ⟨fun hloop => ⟨nofun, ⟨trivial, trivial⟩, hloop, trivial, nofun⟩,
      fun ⟨_, _, hloop, _⟩ => hloop⟩

/-- The statements of one scope have no problems when they follow the rules. -/
theorem Stmt.problemsOf_eq_nil (hnodup : (functions.map (·.name)).Nodup) (inLoop : Bool)
    (c : Context) :
    (statements : List Stmt) →
      (Stmt.problemsOf functions globals inLoop c statements = [] ↔
        Stmt.AllFine functions globals inLoop c statements)
  | [] => by simp [Stmt.problemsOf, Stmt.allFine_nil]
  | stmt :: rest => by
    rw [Stmt.problemsOf, List.append_eq_nil_iff, Stmt.problems_eq_nil hnodup inLoop c stmt,
      Stmt.problemsOf_eq_nil hnodup inLoop (c.after stmt) rest, Stmt.allFine_cons]

end

/-- Whether top-level statements follow the rules in a context. -/
structure Stmt.TopFine (functions : List FunctionDecl) (globals : List String) (c : Context)
    (statements : List Stmt) : Prop where
  exprs : ∀ expr ∈ Stmt.exprsOf statements, expr.FitsArity functions ∧ expr.FitsCount
  stmts : ∀ part ∈ Stmt.partsOf statements, part.Assigns ∧ part.DeclaresOnce
  loops : Stmt.StayInLoop false statements
  slots : Stmt.topSlots statements = 0 ∨ c.slots + Stmt.topSlots statements ≤ countLimit
  reads : Stmt.TopReadAll globals c statements

@[simp] theorem Context.slots_afterTop (c : Context) (stmt : Stmt) :
    (c.afterTop stmt).slots = c.slots := by
  unfold Context.afterTop
  split <;> rfl

theorem Stmt.topFine_cons {c : Context} {stmt : Stmt} {rest : List Stmt} :
    Stmt.TopFine functions globals c (stmt :: rest) ↔
      Stmt.TopFine functions globals c [stmt] ∧
      Stmt.TopFine functions globals (c.afterTop stmt) rest := by
  constructor
  · intro h
    obtain ⟨hexprs, hothers⟩ := List.forall_mem_append.mp h.exprs
    obtain ⟨hstmts, hrest⟩ := List.forall_mem_append.mp h.stmts
    have hslots := h.slots
    rw [Stmt.topSlots] at hslots
    exact ⟨⟨by simpa [Stmt.exprsOf] using hexprs, by simpa [Stmt.partsOf] using hstmts,
        ⟨h.loops.1, trivial⟩,
      by rw [Stmt.topSlots, Stmt.topSlots]; omega, h.reads.1, trivial⟩,
      hothers, hrest, h.loops.2, by rw [Context.slots_afterTop]; omega, h.reads.2⟩
  · rintro ⟨hstmt, hrest⟩
    have hslots := hstmt.slots
    have hothers := hrest.slots
    rw [Stmt.topSlots, Stmt.topSlots] at hslots
    rw [Context.slots_afterTop] at hothers
    exact ⟨List.forall_mem_append.mpr ⟨by simpa [Stmt.exprsOf] using hstmt.exprs, hrest.exprs⟩,
      List.forall_mem_append.mpr ⟨by simpa [Stmt.partsOf] using hstmt.stmts, hrest.stmts⟩,
      ⟨hstmt.loops.1, hrest.loops⟩, by rw [Stmt.topSlots]; omega, hstmt.reads.1, hrest.reads⟩

/-- A declaration of a script global follows the rules when its initial value does. -/
theorem Stmt.topFine_declare {c : Context} {name : String} {initial : Option Expr} :
    Stmt.TopFine functions globals c [.declare name initial] ↔
      (∀ part ∈ initialParts initial, part.FitsArity functions ∧ part.FitsCount) ∧
        InitialReads globals c initial := by
  constructor
  · intro h
    exact ⟨by simpa [Stmt.exprsOf, Stmt.exprs] using h.exprs, h.reads.1⟩
  · rintro ⟨hfits, hreads⟩
    exact ⟨by simpa [Stmt.exprsOf, Stmt.exprs] using hfits,
      by simp [Stmt.partsOf, Stmt.parts, Stmt.Assigns, Stmt.DeclaresOnce], ⟨trivial, trivial⟩,
      .inl rfl, hreads, trivial⟩

/-- Any other top-level statement follows the rules as it would elsewhere. -/
theorem Stmt.topFine_other {c : Context} {stmt : Stmt} (hdeclared : stmt.declared? = none) :
    Stmt.TopFine functions globals c [stmt] ↔ stmt.Fine functions globals false c := by
  have hreads : stmt.TopReads globals c ↔ stmt.Reads globals c := by
    unfold Stmt.TopReads
    split
    · cases hdeclared
    · exact Iff.rfl
  have hslots : Stmt.topSlots [stmt] = stmt.slots := by simp [Stmt.topSlots, hdeclared]
  constructor
  · intro h
    exact ⟨by simpa [Stmt.exprsOf] using h.exprs, by simpa [Stmt.partsOf] using h.stmts, h.loops.1,
      by simpa [hslots] using h.slots, hreads.mp h.reads.1, by simp [hdeclared]⟩
  · intro h
    exact ⟨by simpa [Stmt.exprsOf] using h.exprs, by simpa [Stmt.partsOf] using h.stmts,
      ⟨h.loops, trivial⟩,
      by simpa [hslots] using h.slots, hreads.mpr h.reads, trivial⟩

/-- A top-level statement has no problems when it follows the rules. -/
theorem Stmt.topProblems_eq_nil (hnodup : (functions.map (·.name)).Nodup) (c : Context)
    (stmt : Stmt) :
    stmt.topProblems functions globals c = [] ↔ Stmt.TopFine functions globals c [stmt] := by
  cases hdeclared : stmt.declared? with
  | some name =>
    obtain ⟨initial, rfl⟩ := Stmt.eq_declare hdeclared
    rw [Stmt.topProblems, initialProblems_eq_nil hnodup, Stmt.topFine_declare]
  | none =>
    rw [Stmt.topProblems_eq_problems hdeclared, Stmt.problems_eq_nil hnodup,
      Stmt.topFine_other hdeclared]

/-- Top-level statements have no problems when they follow the rules. -/
theorem Stmt.topProblemsOf_eq_nil (hnodup : (functions.map (·.name)).Nodup) (c : Context)
    (statements : List Stmt) :
    Stmt.topProblemsOf functions globals c statements = [] ↔
      Stmt.TopFine functions globals c statements := by
  induction statements generalizing c with
  | nil => exact iff_of_true rfl ⟨nofun, nofun, trivial, .inl rfl, trivial⟩
  | cons stmt rest ih =>
    rw [Stmt.topProblemsOf, List.append_eq_nil_iff, Stmt.topProblems_eq_nil hnodup, ih,
      ← Stmt.topFine_cons]

/-- Parameters have no problems when they have new names and slots for them. -/
theorem paramProblems_eq_nil (c : Context) (params : List String) :
    paramProblems c params = [] ↔
      NewNames c.inner params ∧ (params.length = 0 ∨ c.slots + params.length ≤ countLimit) := by
  induction params generalizing c with
  | nil => simp [paramProblems]
  | cons name rest ih =>
    rw [paramProblems, List.append_eq_nil_iff, List.append_eq_nil_iff, reportUnless_eq_nil,
      slotProblem, reportUnless_eq_nil, ih, newNames_cons, List.length_cons, Context.declare]
    constructor
    · rintro ⟨⟨hname, hroom⟩, hrest, hslots⟩
      exact ⟨⟨hname, hrest⟩, .inr (by dsimp only at hslots; omega)⟩
    · rintro ⟨⟨hname, hrest⟩, hslots⟩
      exact ⟨⟨hname, by omega⟩, hrest, by dsimp only; omega⟩

@[simp] theorem Context.inner_declareAll (c : Context) (names : List String) :
    (c.declareAll names).inner = names.reverse ++ c.inner := by
  induction names generalizing c with
  | nil => rfl
  | cons name rest ih =>
    rw [Context.declareAll, List.foldl_cons, ← Context.declareAll, ih]
    simp [Context.declare]

@[simp] theorem Context.slots_declareAll (c : Context) (names : List String) :
    (c.declareAll names).slots = c.slots + names.length := by
  induction names generalizing c with
  | nil => rfl
  | cons name rest ih =>
    rw [Context.declareAll, List.foldl_cons, ← Context.declareAll, ih]
    simp only [Context.declare, List.length_cons]
    omega

/-- A function has no problems when its parameters and its body follow the rules. -/
theorem FunctionDecl.problems_eq_nil (hnodup : (functions.map (·.name)).Nodup) {c : Context}
    (f : FunctionDecl) (hinner : c.inner = []) (hslots : c.slots = 0) :
    f.problems functions globals c = [] ↔
      (f.params.Nodup ∧ f.params.length ≤ countLimit) ∧
        f.body.Fine functions globals false (c.declareAll f.params) := by
  have hroom :
      (f.params.length = 0 ∨ 0 + f.params.length ≤ countLimit) ↔ f.params.length ≤ countLimit := by
    omega
  rw [FunctionDecl.problems, List.append_eq_nil_iff, paramProblems_eq_nil,
    Stmt.problems_eq_nil hnodup, hinner, hslots, newNames_empty, hroom]

end Fine

section Tables

/-- The table of functions has no problems when there are not too many functions and parameters and
every name is new. -/
theorem functionTableProblems_eq_nil (seen : List String) (functions : List FunctionDecl) :
    functionTableProblems seen functions = [] ↔
      (functions.length = 0 ∨ seen.length + functions.length ≤ countLimit + 1) ∧
        (∀ f ∈ functions, f.params.length ≤ countLimit) ∧
        NewNames seen (functions.map (·.name)) := by
  induction functions generalizing seen with
  | nil => simp [functionTableProblems]
  | cons f rest ih =>
    rw [functionTableProblems, List.append_eq_nil_iff, List.append_eq_nil_iff,
      List.append_eq_nil_iff, reportUnless_eq_nil, reportUnless_eq_nil, reportUnless_eq_nil, ih,
      List.forall_mem_cons, List.map_cons, newNames_cons, List.length_cons, List.length_cons]
    constructor
    · rintro ⟨⟨⟨hcount, hparams⟩, hname⟩, hrest, hothers, hnames⟩
      exact ⟨by omega, ⟨hparams, hothers⟩, hname, hnames⟩
    · rintro ⟨hcount, ⟨hparams, hothers⟩, hname, hnames⟩
      exact ⟨⟨⟨by omega, hparams⟩, hname⟩, by omega, hothers, hnames⟩

/-- The table of script globals has no problems when there are not too many and every name is
new. -/
theorem globalTableProblems_eq_nil (seen names : List String) :
    globalTableProblems seen names = [] ↔
      (names.length = 0 ∨ seen.length + names.length ≤ countLimit + 1) ∧ NewNames seen names := by
  induction names generalizing seen with
  | nil => simp [globalTableProblems]
  | cons name rest ih =>
    rw [globalTableProblems, List.append_eq_nil_iff, List.append_eq_nil_iff, reportUnless_eq_nil,
      reportUnless_eq_nil, ih, newNames_cons, List.length_cons, List.length_cons]
    constructor
    · rintro ⟨⟨hcount, hname⟩, hrest, hnames⟩
      exact ⟨by omega, hname, hnames⟩
    · rintro ⟨hcount, hname, hnames⟩
      exact ⟨⟨by omega, hname⟩, by omega, hnames⟩

end Tables

theorem FunctionDecl.scopeNames_nodup {f : FunctionDecl} :
    f.scopeNames.Nodup ↔ f.params.Nodup ∧ ∀ name ∈ f.body.declared?, name ∉ f.params := by
  unfold FunctionDecl.scopeNames
  cases f.body.declared? with
  | none => simp
  | some name =>
    rw [Option.toList_some, ← List.concat_eq_append, List.nodup_concat]
    simp [and_comm]

/-- Found problems are none when there were none to find. -/
@[simp] theorem located_eq_nil {function : Option String} {faults : List CompileFault} :
    located function faults = [] ↔ faults = [] :=
  List.map_eq_nil_iff

namespace Program

variable {p : Program}

theorem forall_mem_stmts {P : Stmt → Prop} :
    (∀ stmt ∈ p.stmts, P stmt) ↔
      (∀ stmt ∈ Stmt.partsOf p.statements, P stmt) ∧
      ∀ f ∈ p.functions, ∀ stmt ∈ f.body.parts, P stmt := by
  rw [stmts, List.forall_mem_append, List.forall_mem_flatMap]

theorem forall_mem_exprs {P : Expr → Prop} :
    (∀ expr ∈ p.exprs, P expr) ↔
      (∀ expr ∈ Stmt.exprsOf p.statements, P expr) ∧
      ∀ f ∈ p.functions, ∀ expr ∈ f.body.exprs, P expr := by
  rw [exprs, List.forall_mem_append, List.forall_mem_flatMap]

/-- A program is well-formed when its tables, its top-level code and each of its
functions follow the rules. -/
theorem wellFormed_iff :
    p.WellFormed ↔
      (p.functions.length ≤ countLimit + 1 ∧ (∀ f ∈ p.functions, f.params.length ≤ countLimit) ∧
        (p.functions.map (·.name)).Nodup) ∧
      (p.globalNames.length ≤ countLimit + 1 ∧ p.globalNames.Nodup) ∧
      Stmt.TopFine p.functions p.globalNames {} p.statements ∧
      ∀ f ∈ p.functions, f.params.Nodup ∧
        f.body.Fine p.functions p.globalNames false (p.functionContext.declareAll f.params) := by
  constructor
  · intro h
    obtain ⟨hblocks, hblocks'⟩ := forall_mem_stmts.mp h.blocks_nodup
    obtain ⟨hassigns, hassigns'⟩ := forall_mem_stmts.mp h.assignments
    obtain ⟨harities, harities'⟩ := forall_mem_exprs.mp h.arities
    obtain ⟨hcounts, hcounts'⟩ := forall_mem_exprs.mp h.counts
    refine ⟨⟨h.functions_count, h.params_count, h.functions_nodup⟩,
      ⟨h.globals_count, h.globals_nodup⟩, ?_, ?_⟩
    · exact ⟨fun expr hexpr => ⟨harities expr hexpr, hcounts expr hexpr⟩,
        fun stmt hstmt => ⟨hassigns stmt hstmt, hblocks stmt hstmt⟩, h.loops.1,
        .inr (by simpa using h.slots.1), h.reads.1⟩
    · intro f hf
      obtain ⟨hparams, hfresh⟩ := FunctionDecl.scopeNames_nodup.mp (h.scopes_nodup f hf)
      exact ⟨hparams, fun expr hexpr => ⟨harities' f hf expr hexpr, hcounts' f hf expr hexpr⟩,
        fun stmt hstmt => ⟨hassigns' f hf stmt hstmt, hblocks' f hf stmt hstmt⟩, h.loops.2 f hf,
        .inr (by simpa [functionContext] using h.slots.2 f hf), h.reads.2 f hf,
        by simpa [functionContext] using hfresh⟩
  · rintro ⟨⟨hfunctions, hparams, hnodup⟩, ⟨hglobals, hdistinct⟩, htop, hbodies⟩
    refine ⟨hfunctions, hnodup, hparams, hglobals, hdistinct, ?_, ?_, ⟨htop.loops, ?_⟩, ?_, ?_, ?_,
      ⟨?_, ?_⟩, ⟨htop.reads, ?_⟩⟩
    · intro f hf
      exact FunctionDecl.scopeNames_nodup.mpr
        ⟨(hbodies f hf).1, by simpa [functionContext] using (hbodies f hf).2.fresh⟩
    · exact forall_mem_stmts.mpr
        ⟨fun stmt hstmt => (htop.stmts stmt hstmt).2,
          fun f hf stmt hstmt => ((hbodies f hf).2.stmts stmt hstmt).2⟩
    · exact fun f hf => (hbodies f hf).2.loops
    · exact forall_mem_stmts.mpr
        ⟨fun stmt hstmt => (htop.stmts stmt hstmt).1,
          fun f hf stmt hstmt => ((hbodies f hf).2.stmts stmt hstmt).1⟩
    · exact forall_mem_exprs.mpr
        ⟨fun expr hexpr => (htop.exprs expr hexpr).1,
          fun f hf expr hexpr => ((hbodies f hf).2.exprs expr hexpr).1⟩
    · exact forall_mem_exprs.mpr
        ⟨fun expr hexpr => (htop.exprs expr hexpr).2,
          fun f hf expr hexpr => ((hbodies f hf).2.exprs expr hexpr).2⟩
    · have hslots := htop.slots
      dsimp only at hslots
      omega
    · intro f hf
      have hroom := hparams f hf
      have hslots := (hbodies f hf).2.slots
      simp only [Context.slots_declareAll, functionContext] at hslots
      omega
    · exact fun f hf => (hbodies f hf).2.reads

/-- A program has no problems exactly when it is well-formed. -/
theorem problems_eq_nil : p.problems = [] ↔ p.WellFormed := by
  rw [Program.problems, List.append_eq_nil_iff, List.append_eq_nil_iff, List.append_eq_nil_iff,
    List.flatMap_eq_nil_iff, functionTableProblems_eq_nil, globalTableProblems_eq_nil,
    newNames_empty, newNames_empty, located_eq_nil, wellFormed_iff]
  simp only [located_eq_nil, List.length_nil, Nat.zero_add]
  constructor
  · rintro ⟨⟨⟨⟨hfunctions, hparams, hnodup⟩, hglobals, hdistinct⟩, htop⟩, hbodies⟩
    refine ⟨⟨by omega, hparams, hnodup⟩, ⟨by omega, hdistinct⟩,
      (Stmt.topProblemsOf_eq_nil hnodup _ _).mp htop, fun f hf => ?_⟩
    obtain ⟨⟨hnames, -⟩, hbody⟩ := (FunctionDecl.problems_eq_nil hnodup f rfl rfl).mp (hbodies f hf)
    exact ⟨hnames, hbody⟩
  · rintro ⟨⟨hfunctions, hparams, hnodup⟩, ⟨hglobals, hdistinct⟩, htop, hbodies⟩
    refine ⟨⟨⟨⟨.inr hfunctions, hparams, hnodup⟩, .inr hglobals, hdistinct⟩,
      (Stmt.topProblemsOf_eq_nil hnodup _ _).mpr htop⟩, fun f hf => ?_⟩
    exact (FunctionDecl.problems_eq_nil hnodup f rfl rfl).mpr
      ⟨⟨(hbodies f hf).1, hparams f hf⟩, (hbodies f hf).2⟩

instance (p : Program) : Decidable p.WellFormed :=
  decidable_of_iff (p.problems = []) problems_eq_nil

/-- The name of a script global means nothing in its own initial value. -/
example : ¬WellFormed { functions := [], statements := [.declare "x" (some (.var "x"))] } := by
  decide

end Program

end HostScript
