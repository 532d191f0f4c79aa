import HostScript.Proofs.WellFormed.Compile

/-!
# Programs that do without the host

In a program that does without the host every variable is declared by the program where it is used,
every call is one of a function of the program, and no method is called. Binding then finds no place
and no callable of the host, and so no instruction of the code turns to the host.
-/

namespace HostScript

/-- Whether an instruction turns to the host. -/
def Instruction.asksHost : Instruction → Bool
  | .loadHost _ | .storeHost _ | .callNative .. | .callMethod .. => true
  | _ => false

/-- Whether no instruction of a unit turns to the host. -/
def CodeUnit.Inward (u : CodeUnit) : Prop :=
  ∀ (pc : Nat) (i : Instruction), u.code[pc]? = some i → i.asksHost = false

/-- Whether an expression is no call, or one of the given functions. -/
def Expr.CallsAmong (functions : List FunctionDecl) : Expr → Prop
  | .call name _ => ∃ f ∈ functions, f.name = name
  | .method .. => False
  | _ => True

/-- Whether a program has no variables of the host and calls neither natives nor methods. -/
structure Program.HostFree (p : Program) : Prop where
  /-- Every variable means something, whichever names are withheld from the host. -/
  reads : ∀ withheld, Stmt.TopReadAll withheld {} p.statements ∧
    ∀ f ∈ p.functions, f.body.Reads withheld (p.functionContext.declareAll f.params)
  calls : ∀ expr ∈ p.exprs, expr.CallsAmong p.functions

/-- Whether an operation does not turn to the host, whichever number its string gets. -/
def Op.Inward (_pc : Nat) : Op → Prop
  | .plain _ instruction => instruction.asksHost = false
  | .named _ _ instruction => ∀ id, (instruction id).asksHost = false

/-- An operation that is there and does not turn to the host is an instruction that does not. -/
theorem CodeUnit.Has.inward {u : CodeUnit} {pc : Nat} {op : Op} {i : Instruction} (h : u.Has pc op)
    (hop : op.Inward pc) (hcode : u.code[pc]? = some i) : i.asksHost = false := by
  obtain ⟨n, rfl⟩ | ⟨n, name, j, id, rfl, -, rfl⟩ := h.eq_instruction hcode
  · exact hop
  · exact hop id

section Exprs

variable {functions : List FunctionDecl} {s : Signatures} {v : Visible} {c : Context}

/-- A variable that means something without the host is not bound to a place of the host. -/
theorem place_ne_host (h : v.Shows s c) {name : String} (hmeans : ∀ withheld, c.Means withheld name)
    {p : Place} (hplace : v.place s name = .ok p) (other : String) : p ≠ .host other := by
  rintro rfl
  unfold Visible.place at hplace
  cases hfind : v.scopes.find? name with
  | some slot =>
    rw [hfind] at hplace
    cases hplace
  | none =>
    have hhidden : ¬(v.scopes.find? name).isSome := by simp [hfind]
    rw [Scopes.isSome_find?, h.inner, h.outer] at hhidden
    cases hglobal : s.globals[name]? with
    | some id =>
      simp only [hfind, hglobal] at hplace
      split at hplace <;> cases hplace
    | none =>
      have hincomplete : name ∉ c.completed := by
        rw [← h.completed, hglobal]
        rintro ⟨id, hid, -⟩
        cases hid
      rcases hmeans [name] with hinner | houter | hcompleted | ⟨hfree, -⟩
      · exact hhidden (.inl hinner)
      · exact hhidden (.inr houter)
      · exact hincomplete hcompleted
      · exact hfree List.mem_cons_self

theorem Place.inward_loadOp {p : Place} (h : ∀ name, p ≠ .host name) (n pc : Nat) :
    (p.loadOp n).Inward pc := by
  cases p with
  | slot k => exact rfl
  | script id => exact rfl
  | host name => exact absurd rfl (h name)

theorem Place.inward_storeOp {p : Place} (h : ∀ name, p ≠ .host name) (n pc : Nat) :
    (p.storeOp n).Inward pc := by
  cases p with
  | slot k => exact rfl
  | script id => exact rfl
  | host name => exact absurd rfl (h name)

/-- Whether an expression is no variable, call or method, or one that does without the host. -/
def Expr.IsInward (functions : List FunctionDecl) (c : Context) (x : Expr) : Prop :=
  (∀ withheld, c.Names withheld x) ∧ x.CallsAmong functions

mutual

/-- The code of an expression that does without the host does not turn to it. -/
theorem bindExpr_inward (hfunctions : s.HasFunctions functions) (h : v.Shows s c) :
    (x : Expr) → (b : Bound.Expr) → bindExpr s v x = .ok b →
      (∀ part ∈ x.parts, part.IsInward functions c) →
      ∀ start n, Op.Each Op.Inward start (b.code start n)
  | .var name, _, hbind, hparts => by
    obtain ⟨p, hp, rfl⟩ := bindExpr_var.mp hbind
    have hmeans := (hparts (.var name) (by simp [Expr.parts])).1
    intro start n
    exact Bound.Expr.each_load.mpr (Place.inward_loadOp (place_ne_host h hmeans hp) n start)
  | .number value, _, hbind, _ => by
    obtain rfl := bindExpr_number.mp hbind
    intro start n
    exact Bound.Expr.each_number.mpr rfl
  | .string value, _, hbind, _ => by
    obtain rfl := bindExpr_string.mp hbind
    intro start n
    exact Bound.Expr.each_string.mpr fun _ => rfl
  | .array items, _, hbind, hparts => by
    obtain ⟨-, bs, hbs, rfl⟩ := bindExpr_array.mp hbind
    rw [Expr.parts, List.forall_mem_cons] at hparts
    intro start n
    exact Bound.Expr.each_array.mpr
      ⟨bindExprs_inward hfunctions h items bs hbs hparts.2 start n, rfl⟩
  | .index base position, _, hbind, hparts => by
    obtain ⟨b₁, b₂, h₁, h₂, rfl⟩ := bindExpr_index.mp hbind
    rw [Expr.parts, List.forall_mem_cons, List.forall_mem_append] at hparts
    obtain ⟨-, hbase, hposition⟩ := hparts
    intro start n
    exact Bound.Expr.each_index.mpr ⟨bindExpr_inward hfunctions h base b₁ h₁ hbase start n,
      bindExpr_inward hfunctions h position b₂ h₂ hposition _ _, rfl⟩
  | .call function args, _, hbind, hparts => by
    rw [Expr.parts, List.forall_mem_cons] at hparts
    obtain ⟨⟨-, f, hf, hname⟩, hargs⟩ := hparts
    obtain ⟨id, hid⟩ := List.mem_iff_getElem?.mp hf
    have hsignature := (hfunctions function ⟨id, f.params.length⟩).mpr ⟨f, hid, hname, rfl⟩
    obtain ⟨-, -, bs, hbs, rfl⟩ := (bindExpr_call_script hsignature).mp hbind
    intro start n
    exact Bound.Expr.each_callScript.mpr
      ⟨bindExprs_inward hfunctions h args bs hbs hargs start n, rfl⟩
  | .method object name args, _, _, hparts => by
    rw [Expr.parts, List.forall_mem_cons] at hparts
    exact absurd hparts.1.2 id
  | .unary op operand, _, hbind, hparts => by
    obtain ⟨b₁, h₁, rfl⟩ := bindExpr_unary.mp hbind
    rw [Expr.parts, List.forall_mem_cons] at hparts
    intro start n
    exact Bound.Expr.each_unary.mpr
      ⟨bindExpr_inward hfunctions h operand b₁ h₁ hparts.2 start n, rfl⟩
  | .binary op lhs rhs, _, hbind, hparts => by
    obtain ⟨b₁, b₂, h₁, h₂, rfl⟩ := bindExpr_binary.mp hbind
    rw [Expr.parts, List.forall_mem_cons, List.forall_mem_append] at hparts
    have hlhs := bindExpr_inward hfunctions h lhs b₁ h₁ hparts.2.1
    have hrhs := bindExpr_inward hfunctions h rhs b₂ h₂ hparts.2.2
    intro start n
    split
    next connective _ =>
      have hskip : ∀ pc target, Op.Inward pc (.plain (n + 1) (Emitter.skip connective target)) := by
        intro pc target
        cases connective <;> exact rfl
      exact Bound.Expr.each_connect.mpr
        ⟨hlhs _ _, hskip _ _, hrhs _ _, hskip _ _, rfl, rfl, rfl⟩
    next => exact Bound.Expr.each_strict.mpr ⟨hlhs _ _, hrhs _ _, rfl⟩
termination_by structural x => x

/-- The code of expressions that do without the host does not turn to it. -/
theorem bindExprs_inward (hfunctions : s.HasFunctions functions) (h : v.Shows s c) :
    (xs : List Expr) → (bs : List Bound.Expr) → bindExprs s v [] xs = .ok bs →
      (∀ part ∈ Expr.partsOf xs, part.IsInward functions c) →
      ∀ start n, Op.Each Op.Inward start (Bound.Expr.codes start n bs)
  | [], _, hbind, _ => by
    obtain rfl := bindExprs_nil.mp hbind
    intro start n
    exact Op.each_nil
  | x :: xs, _, hbind, hparts => by
    obtain ⟨b, bs, hb, hbs, rfl⟩ := bindExprs_cons.mp hbind
    rw [Expr.partsOf, List.forall_mem_append] at hparts
    intro start n
    exact Bound.Expr.each_codes_cons.mpr ⟨bindExpr_inward hfunctions h x b hb hparts.1 start n,
      bindExprs_inward hfunctions h xs bs hbs hparts.2 _ _⟩
termination_by structural xs => xs

end

/-- The code that stores into a target that does without the host does not turn to it. -/
theorem bindTarget_inward (hfunctions : s.HasFunctions functions) (h : v.Shows s c) :
    (x : Expr) → (t : Bound.Target) → bindTarget s v x = .ok t →
      (∀ part ∈ x.parts, part.IsInward functions c) →
      ∀ start n, Op.Each Op.Inward start (t.code start n)
  | .var name, _, hbind, hparts => by
    obtain ⟨p, hp, rfl⟩ := bindTarget_var.mp hbind
    have hmeans := (hparts (.var name) (by simp [Expr.parts])).1
    intro start n
    exact Bound.Target.each_place.mpr (Place.inward_storeOp (place_ne_host h hmeans hp) _ start)
  | .index base position, _, hbind, hparts => by
    obtain ⟨t, b, ht, hb, rfl⟩ := bindTarget_index.mp hbind
    rw [Expr.parts, List.forall_mem_cons, List.forall_mem_append] at hparts
    obtain ⟨-, hbase, hposition⟩ := hparts
    intro start n
    exact Bound.Target.each_element.mpr
      ⟨bindExpr_inward hfunctions h base t.read (bindTarget_read ht) hbase _ _,
        bindExpr_inward hfunctions h position b hb hposition _ _, rfl,
        bindTarget_inward hfunctions h base t ht hbase _ _⟩

/-- The code of an initial value that does without the host does not turn to it. -/
theorem bindInitial_inward (hfunctions : s.HasFunctions functions) (h : v.Shows s c)
    {initial : Option Expr} {b : Bound.Expr} (hbind : bindInitial s v initial = .ok b)
    (hparts : ∀ part ∈ initialParts initial, part.IsInward functions c) (start n : Nat) :
    Op.Each Op.Inward start (b.code start n) := by
  cases initial with
  | none =>
    obtain rfl := Except.ok.inj hbind
    exact Bound.Expr.each_void.mpr rfl
  | some x => exact bindExpr_inward hfunctions h x b hbind hparts start n

end Exprs

section Stmts

variable {functions : List FunctionDecl} {around : Surroundings} {c : Context}

/-- All parts of an expression do without the host, if its variables and its calls do. -/
theorem Expr.isInward_parts {x : Expr} (hreads : ∀ withheld, x.Reads withheld c)
    (hcalls : ∀ part ∈ x.parts, part.CallsAmong functions) :
    ∀ part ∈ x.parts, part.IsInward functions c :=
  fun part hpart => ⟨fun withheld => hreads withheld part hpart, hcalls part hpart⟩

theorem isInward_initialParts {initial : Option Expr}
    (hreads : ∀ withheld, InitialReads withheld c initial)
    (hcalls : ∀ part ∈ initialParts initial, part.CallsAmong functions) :
    ∀ part ∈ initialParts initial, part.IsInward functions c := by
  cases initial with
  | none => exact fun part hpart => nomatch hpart
  | some x => exact Expr.isInward_parts hreads hcalls

mutual

/-- The code of a statement that does without the host does not turn to it. -/
theorem bindStmt_inward (hfunctions : around.signatures.HasFunctions functions) (inLoop : Bool)
    (v v' : Visible) (c : Context) (h : v.Shows around.signatures c) :
    (stmt : Stmt) → (b : Bound.Stmt) → bindStmt around inLoop v stmt = .ok (b, v') →
      (∀ name ∈ stmt.declared?, around.global? v name = none) →
      (∀ withheld, stmt.Reads withheld c) →
      (∀ part ∈ stmt.exprs, part.CallsAmong functions) →
      ∀ exits start, Op.Each Op.Inward start (b.code exits start)
  | .assign target value, _, hbind, _, hreads, hcalls => by
    obtain ⟨-, b, t, hb, ht, hr⟩ := bindStmt_assign.mp hbind
    obtain ⟨rfl, -⟩ := Prod.mk.inj hr
    rw [Stmt.exprs, List.forall_mem_append] at hcalls
    have hvalue := Expr.isInward_parts (fun withheld => (hreads withheld).1) hcalls.1
    have htarget := Expr.isInward_parts (fun withheld => (hreads withheld).2) hcalls.2
    intro exits start
    exact Bound.Stmt.each_store.mpr ⟨bindExpr_inward hfunctions h value b hb hvalue _ _,
      bindTarget_inward hfunctions h target t ht htarget _ _⟩
  | .returnVoid, _, hbind, _, _, _ => by
    obtain ⟨rfl, -⟩ := Prod.mk.inj (bindStmt_returnVoid.mp hbind)
    intro exits start
    exact Bound.Stmt.each_returnVoid.mpr rfl
  | .returnValue value, _, hbind, _, hreads, hcalls => by
    obtain ⟨b, hb, hr⟩ := bindStmt_returnValue.mp hbind
    obtain ⟨rfl, -⟩ := Prod.mk.inj hr
    have hvalue := Expr.isInward_parts hreads hcalls
    intro exits start
    exact Bound.Stmt.each_returnValue.mpr ⟨bindExpr_inward hfunctions h value b hb hvalue _ _, rfl⟩
  | .discard value, _, hbind, _, hreads, hcalls => by
    obtain ⟨b, hb, hr⟩ := bindStmt_discard.mp hbind
    obtain ⟨rfl, -⟩ := Prod.mk.inj hr
    have hvalue := Expr.isInward_parts hreads hcalls
    intro exits start
    exact Bound.Stmt.each_discard.mpr ⟨bindExpr_inward hfunctions h value b hb hvalue _ _, rfl⟩
  | .whileLoop condition body, _, hbind, _, hreads, hcalls => by
    obtain ⟨b₁, b₂, v₂, hb, hbody, hr⟩ := bindStmt_whileLoop.mp hbind
    obtain ⟨rfl, -⟩ := Prod.mk.inj hr
    rw [Stmt.exprs, List.forall_mem_append] at hcalls
    have hcondition := Expr.isInward_parts (fun withheld => (hreads withheld).1) hcalls.1
    have hinner := bindStmt_inward hfunctions true v.enter v₂ c.enter h.enter body b₂ hbody
      (fun name _ => global?_enter around v name) (fun withheld => (hreads withheld).2) hcalls.2
    intro exits start
    exact Bound.Stmt.each_whileLoop.mpr
      ⟨bindExpr_inward hfunctions h condition b₁ hb hcondition _ _, rfl, hinner _ _, rfl⟩
  | .forLoop name source body, _, hbind, _, hreads, hcalls => by
    obtain ⟨b₁, b₂, v₂, hb, -, hbody, hr⟩ := bindStmt_forLoop.mp hbind
    obtain ⟨rfl, -⟩ := Prod.mk.inj hr
    rw [Stmt.exprs, List.forall_mem_append] at hcalls
    have hsource := Expr.isInward_parts (fun withheld => (hreads withheld).1) hcalls.1
    have hinner := bindStmt_inward hfunctions true (v.forHeader name).enter v₂ _
      (h.forHeader name).enter body b₂ hbody (fun other _ => global?_enter around _ other)
      (fun withheld => (hreads withheld).2) hcalls.2
    intro exits start
    exact Bound.Stmt.each_forLoop.mpr
      ⟨bindExpr_inward hfunctions h source b₁ hb hsource _ _, rfl, rfl, rfl, rfl, rfl,
      hinner _ _, rfl⟩
  | .ifThen condition body, _, hbind, _, hreads, hcalls => by
    obtain ⟨b₁, b₂, v₂, hb, hbody, hr⟩ := bindStmt_ifThen.mp hbind
    obtain ⟨rfl, -⟩ := Prod.mk.inj hr
    rw [Stmt.exprs, List.forall_mem_append] at hcalls
    have hcondition := Expr.isInward_parts (fun withheld => (hreads withheld).1) hcalls.1
    have hinner := bindStmt_inward hfunctions inLoop v.enter v₂ c.enter h.enter body b₂ hbody
      (fun name _ => global?_enter around v name) (fun withheld => (hreads withheld).2) hcalls.2
    intro exits start
    exact Bound.Stmt.each_ifThen.mpr
      ⟨bindExpr_inward hfunctions h condition b₁ hb hcondition _ _, rfl, hinner _ _⟩
  | .ifElse condition body otherwise, _, hbind, _, hreads, hcalls => by
    obtain ⟨b₁, b₂, v₂, b₃, v₃, hb, hbody, hotherwise, hr⟩ := bindStmt_ifElse.mp hbind
    obtain ⟨rfl, -⟩ := Prod.mk.inj hr
    rw [Stmt.exprs, List.forall_mem_append, List.forall_mem_append] at hcalls
    obtain ⟨⟨hcalls₁, hcalls₂⟩, hcalls₃⟩ := hcalls
    have hcondition := Expr.isInward_parts (fun withheld => (hreads withheld).1) hcalls₁
    have hleft := h.rises (bindStmt_proceeds around inLoop v.enter v₂ body b₂ hbody).rises_leave
    have hthen := bindStmt_inward hfunctions inLoop v.enter v₂ c.enter h.enter body b₂ hbody
      (fun name _ => global?_enter around v name) (fun withheld => (hreads withheld).2.1) hcalls₂
    have helse := bindStmt_inward hfunctions inLoop v₂.leave.enter v₃ c.enter hleft.enter otherwise
      b₃ hotherwise (fun name _ => global?_enter around v₂.leave name)
      (fun withheld => (hreads withheld).2.2) hcalls₃
    intro exits start
    exact Bound.Stmt.each_ifElse.mpr
      ⟨bindExpr_inward hfunctions h condition b₁ hb hcondition _ _, rfl, hthen _ _, rfl, helse _ _⟩
  | .declare name initial, _, hbind, hlocal, hreads, hcalls => by
    rw [bindStmt_declare] at hbind
    obtain ⟨b, hb, -, -, hr⟩ := (bindDeclaration_local (hlocal name rfl)).mp hbind
    obtain ⟨rfl, -⟩ := Prod.mk.inj hr
    have hinitial := isInward_initialParts hreads hcalls
    intro exits start
    exact Bound.Stmt.each_store.mpr ⟨bindInitial_inward hfunctions (h.announce name) hb hinitial _
        _, Bound.Target.each_place.mpr rfl⟩
  | .block statements, _, hbind, _, hreads, hcalls => by
    obtain ⟨bs, v₂, hbody, hr⟩ := bindStmt_block.mp hbind
    obtain ⟨rfl, -⟩ := Prod.mk.inj hr
    intro exits start
    exact Bound.Stmt.each_block.mpr (bindStmts_inward hfunctions inLoop _ v₂ _
      (h.enter.announceAll statements) statements bs hbody (global?_block around v statements)
      hreads hcalls exits start)
  | .breakLoop, _, hbind, _, _, _ => by
    obtain ⟨-, hr⟩ := bindStmt_breakLoop.mp hbind
    obtain ⟨rfl, -⟩ := Prod.mk.inj hr
    intro exits start
    exact Bound.Stmt.each_breakLoop.mpr rfl
  | .continueLoop, _, hbind, _, _, _ => by
    obtain ⟨-, hr⟩ := bindStmt_continueLoop.mp hbind
    obtain ⟨rfl, -⟩ := Prod.mk.inj hr
    intro exits start
    exact Bound.Stmt.each_continueLoop.mpr rfl
termination_by structural stmt => stmt

/-- The code of the statements of one scope that do without the host does not turn to it. -/
theorem bindStmts_inward (hfunctions : around.signatures.HasFunctions functions) (inLoop : Bool)
    (v v' : Visible) (c : Context) (h : v.Shows around.signatures c) :
    (statements : List Stmt) → (bs : List Bound.Stmt) →
      bindStmts around inLoop [] v statements = .ok (bs, v') →
      (∀ name, around.global? v name = none) →
      (∀ withheld, Stmt.ReadAll withheld c statements) →
      (∀ part ∈ Stmt.exprsOf statements, part.CallsAmong functions) →
      ∀ exits start, Op.Each Op.Inward start (Bound.Stmt.codes exits start bs)
  | [], _, hbind, _, _, _ => by
    obtain ⟨rfl, -⟩ := Prod.mk.inj (bindStmts_nil.mp hbind)
    intro exits start
    exact Op.each_nil
  | stmt :: rest, _, hbind, hlocal, hreads, hcalls => by
    obtain ⟨b, v₁, bs, v₂, hstmt, hrest, hr⟩ := bindStmts_cons.mp hbind
    obtain ⟨rfl, -⟩ := Prod.mk.inj hr
    rw [Stmt.exprsOf, List.forall_mem_append] at hcalls
    have hproceeds := bindStmt_proceeds around inLoop v v₁ stmt b hstmt
    have hfirst := bindStmt_inward hfunctions inLoop v v₁ c h stmt b hstmt
      (fun name _ => hlocal name) (fun withheld => (hreads withheld).1) hcalls.1
    have hothers := bindStmts_inward hfunctions inLoop v₁ v₂ (c.after stmt)
      (h.after (fun name _ => hlocal name) hstmt) rest bs hrest
      (fun name => (global?_proceeds hproceeds name).trans (hlocal name))
      (fun withheld => (hreads withheld).2) hcalls.2
    intro exits start
    exact Bound.Stmt.each_codes_cons.mpr ⟨hfirst _ _, hothers _ _⟩
termination_by structural statements => statements

end

end Stmts

section Program

variable {p : Program} {s : Signatures}

/-- The code of a top-level statement that does without the host does not turn to it. -/
theorem bindStmt_topInward (hfunctions : s.HasFunctions p.functions) {v v' : Visible} {c : Context}
    {done rest : List String} {stmt : Stmt} {b : Bound.Stmt} (h : v.Shows s c)
    (hglobals : s.HasGlobals (done ++ (stmt.declared?.toList ++ rest)))
    (houter : v.scopes.outer = [])
    (hbind : bindStmt { signatures := s, topLevel := true } false v stmt = .ok (b, v'))
    (hreads : ∀ withheld, stmt.TopReads withheld c)
    (hcalls : ∀ part ∈ stmt.exprs, part.CallsAmong p.functions) (exits : Exits) (start : Nat) :
    Op.Each Op.Inward start (b.code exits start) := by
  cases hdeclared : stmt.declared? with
  | none =>
    have hreads' : ∀ withheld, stmt.Reads withheld c := by
      intro withheld
      have hstmt := hreads withheld
      unfold Stmt.TopReads at hstmt
      split at hstmt
      · cases hdeclared
      · exact hstmt
    exact bindStmt_inward hfunctions false v v' c h stmt b hbind (by simp [hdeclared]) hreads'
      hcalls exits start
  | some name =>
    obtain ⟨initial, rfl⟩ := Stmt.eq_declare hdeclared
    rw [hdeclared, Option.toList_some, List.singleton_append] at hglobals
    rw [bindStmt_declare] at hbind
    obtain ⟨value, hvalue, hr⟩ := (bindDeclaration_global (global?_top hglobals houter)).mp hbind
    obtain ⟨rfl, -⟩ := Prod.mk.inj hr
    have hinitial := isInward_initialParts hreads hcalls
    exact Bound.Stmt.each_store.mpr
      ⟨bindInitial_inward hfunctions h hvalue hinitial _ _, Bound.Target.each_place.mpr rfl⟩

/-- The code of top-level statements that do without the host does not turn to it. -/
theorem bindStmts_topInward (hfunctions : s.HasFunctions p.functions) {v v' : Visible} {c : Context}
    (done : List String) {statements : List Stmt} {bs : List Bound.Stmt} (h : v.Shows s c)
    (hglobals : s.HasGlobals (done ++ declaredNames statements))
    (hreached : v.reached = done.length) (houter : v.scopes.outer = [])
    (hbind : bindStmts { signatures := s, topLevel := true } false [] v statements = .ok (bs, v'))
    (hreads : ∀ withheld, Stmt.TopReadAll withheld c statements)
    (hcalls : ∀ part ∈ Stmt.exprsOf statements, part.CallsAmong p.functions) (exits : Exits)
    (start : Nat) : Op.Each Op.Inward start (Bound.Stmt.codes exits start bs) := by
  induction statements generalizing v c done bs start with
  | nil =>
    obtain ⟨rfl, -⟩ := Prod.mk.inj (bindStmts_nil.mp hbind)
    exact Op.each_nil
  | cons stmt rest ih =>
    obtain ⟨b, v₁, bs, v₂, hstmt, hrest, hr⟩ := bindStmts_cons.mp hbind
    obtain ⟨rfl, rfl⟩ := Prod.mk.inj hr
    rw [Stmt.exprsOf, List.forall_mem_append] at hcalls
    obtain ⟨hshows, hreached', houter'⟩ := h.afterTop hglobals hreached houter hstmt
    rw [declaredNames_cons] at hglobals
    have hfirst := bindStmt_topInward hfunctions h hglobals houter hstmt
      (fun withheld => (hreads withheld).1) hcalls.1 exits start
    rw [← List.append_assoc] at hglobals
    exact Bound.Stmt.each_codes_cons.mpr ⟨hfirst,
      ih _ hshows hglobals hreached' houter' hrest (fun withheld => (hreads withheld).2) hcalls.2 _⟩

/-- The code of a function that does without the host does not turn to it. -/
theorem bindFunction_inward (hfunctions : s.HasFunctions p.functions)
    (hglobals : s.HasGlobals p.globalNames)
    {f : FunctionDecl} {b : Bound.Body} (hbind : bindFunction s f = .ok b)
    (hreads : ∀ withheld, f.body.Reads withheld (p.functionContext.declareAll f.params))
    (hcalls : ∀ part ∈ f.body.exprs, part.CallsAmong p.functions) (start : Nat) :
    Op.Each Op.Inward start (b.code start) := by
  obtain ⟨v₁, bs, v₂, hparams, hbody, rfl⟩ :=
    bindBody_eq_ok_iff.mp (bindFunction_eq_ok_iff.mp hbind)
  have hcode := bindStmts_inward hfunctions false v₁ v₂ _
    ((shows_function hglobals).params hparams) [f.body] bs hbody (fun name => rfl)
    (fun withheld => ⟨hreads withheld, trivial⟩) (by simpa [Stmt.exprsOf] using hcalls)
  exact Bound.Body.each_code.mpr ⟨hcode _ _, rfl⟩

/-- The code of bodies that stand one after the other does not turn to the host, if
none of them does. -/
theorem Bound.Body.each_inward_codes (start : Nat) (bs : List Bound.Body)
    (h : ∀ b ∈ bs, ∀ start, Op.Each Op.Inward start (b.code start)) :
    Op.Each Op.Inward start (Bound.Body.codes start bs) := by
  induction bs generalizing start with
  | nil => exact Op.each_nil
  | cons b rest ih =>
    obtain ⟨hbody, hrest⟩ := List.forall_mem_cons.mp h
    refine Op.each_append.mpr ⟨hbody start, ?_⟩
    rw [Bound.Body.length_code]
    exact ih (start + b.size) hrest

/-- No body of a program that does without the host turns to it. -/
theorem Program.HostFree.bodies_inward (h : p.HostFree) {program : Bound.Program}
    (hbind : p.bind = .ok program) {b : Bound.Body} (hb : b ∈ program.bodies) (start : Nat) :
    Op.Each Op.Inward start (b.code start) := by
  obtain ⟨s, top, functions, hs, htop, hfunctions, rfl⟩ := bind_program_eq_ok_iff.mp hbind
  obtain ⟨htable, hglobals⟩ := Signatures.ofProgram_table hs
  obtain ⟨hcalls, hcalls'⟩ := Program.forall_mem_exprs.mp h.calls
  rcases List.mem_cons.mp hb with rfl | hmem
  · obtain ⟨v₁, bs, v₂, hparams, hbody, rfl⟩ :=
      bindBody_eq_ok_iff.mp (bindTopLevel_eq_ok_iff.mp htop)
    obtain rfl := bindParams_nil.mp hparams
    have hstart : Visible.Shows s {} {} := shows_start (by simp)
    have hcode := bindStmts_topInward htable [] hstart hglobals rfl rfl hbody
      (fun withheld => (h.reads withheld).1) hcalls
    exact Bound.Body.each_code.mpr ⟨hcode _ _, rfl⟩
  · obtain ⟨id, hid⟩ := List.mem_iff_getElem?.mp hmem
    obtain ⟨f, hf, hfunction⟩ := bindFunctions_getElem? hfunctions hid
    have hf' := List.mem_of_getElem? hf
    exact bindFunction_inward htable hglobals hfunction (fun withheld => (h.reads withheld).2 f hf')
      (hcalls' f hf') start

/-- No instruction of a program that does without the host turns to it. -/
theorem Program.HostFree.inward (h : p.HostFree) {u : CodeUnit} (hcompile : compile p = .ok u) :
    u.Inward := by
  obtain ⟨program, hbind, rfl⟩ := compile_eq_ok_iff.mp hcompile
  have hcode : Op.Each Op.Inward 0 program.code := by
    rw [Bound.Program.code_eq_codes]
    exact Bound.Body.each_inward_codes 0 program.bodies fun b hb => h.bodies_inward hbind hb
  intro pc i hi
  have hpc : pc < 0 + program.code.length := by
    rw [Nat.zero_add, ← program.size_code_toUnit]
    exact (Array.getElem?_eq_some_iff.mp hi).1
  obtain ⟨op, hhas, hop⟩ := (program.each_has_toUnit.and hcode).exists_at (Nat.zero_le pc) hpc
  exact hhas.inward hop hi

end Program

end HostScript
