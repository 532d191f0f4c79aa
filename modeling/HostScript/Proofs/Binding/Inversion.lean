import Mathlib.Data.List.Forall2
import HostScript.Compile.Binding
import HostScript.Proofs.Binding.Scopes

/-!
# What a successful binding is made of

One statement for each kind of expression and statement: binding it succeeds exactly when its parts
bind in order, and the result is put together from theirs. Later modules take bindings apart with
these and do not open the traversal again.
-/

namespace HostScript

-- The equations of the traversal are generated here, once, before the statements
-- below all ask for them.
attribute [grind =] bindExpr bindExprs bindTarget bindStmt bindStmts bindParams

/-- A computation in two parts succeeds when both do. -/
theorem bind_eq_ok_iff {ε α β : Type} {x : Except ε α} {f : α → Except ε β} {b : β} :
    (x >>= f) = .ok b ↔ ∃ a, x = .ok a ∧ f a = .ok b := by
  cases x <;> simp [bind, Except.bind]

/-- A result that is changed afterwards comes from a success. -/
theorem map_eq_ok_iff {ε α β : Type} {x : Except ε α} {f : α → β} {b : β} :
    x.map f = .ok b ↔ ∃ a, x = .ok a ∧ f a = b := by
  cases x <;> simp [Except.map]

/-- Renaming errors leaves successes alone. -/
theorem mapError_eq_ok_iff {ε δ α : Type} {x : Except ε α} {f : ε → δ} {a : α} :
    x.mapError f = .ok a ↔ x = .ok a := by
  cases x <;> simp [Except.mapError]

/-- A list can be counted when it is not longer than the limit. -/
theorem checkCount_eq_ok_iff {items : List Expr} {r : Unit} :
    checkCount items = .ok r ↔ items.length ≤ countLimit := by
  unfold checkCount
  split <;> simp <;> omega

section Exprs

variable {s : Signatures} {v : Visible} {b : Bound.Expr} {bs : List Bound.Expr}

/-- Expressions bound already stand before those bound after them. -/
theorem bindExprs_eq_map (bound : List Bound.Expr) (xs : List Expr) :
    bindExprs s v bound xs = (bindExprs s v [] xs).map (bound.reverse ++ ·) := by
  induction xs generalizing bound with
  | nil => simp [bindExprs, Except.map]
  | cons x xs ih =>
    rw [bindExprs, bindExprs]
    cases bindExpr s v x with
    | error fault => rfl
    | ok b =>
      simp only [ih (b :: bound), ih [b]]
      cases bindExprs s v [] xs <;> simp [Except.map]

theorem bindExprs_nil : bindExprs s v [] [] = .ok bs ↔ [] = bs := by
  simp [bindExprs]

theorem bindExprs_cons {x : Expr} {xs : List Expr} :
    bindExprs s v [] (x :: xs) = .ok bs ↔
      ∃ b rest, bindExpr s v x = .ok b ∧ bindExprs s v [] xs = .ok rest ∧ b :: rest = bs := by
  rw [bindExprs]
  cases bindExpr s v x with
  | error fault => simp
  | ok b =>
    simp only [bindExprs_eq_map [b], map_eq_ok_iff]
    simp

/-- There are as many bound expressions as there were to bind. -/
theorem length_bindExprs {xs : List Expr} (h : bindExprs s v [] xs = .ok bs) :
    xs.length = bs.length := by
  induction xs generalizing bs with
  | nil =>
    obtain rfl := bindExprs_nil.mp h
    rfl
  | cons x xs ih =>
    obtain ⟨b, rest, -, hrest, rfl⟩ := bindExprs_cons.mp h
    exact congrArg (· + 1) (ih hrest)

theorem bindExpr_var {name : String} :
    bindExpr s v (.var name) = .ok b ↔ ∃ p, v.place s name = .ok p ∧ .load p = b := by
  simp [bindExpr, bind_eq_ok_iff, pure, Except.pure]

theorem bindExpr_number {value : Float} :
    bindExpr s v (.number value) = .ok b ↔ .number value = b := by
  simp [bindExpr]

theorem bindExpr_string {value : String} :
    bindExpr s v (.string value) = .ok b ↔ .string value = b := by
  simp [bindExpr]

theorem bindExpr_array {items : List Expr} :
    bindExpr s v (.array items) = .ok b ↔
      items.length ≤ countLimit ∧ ∃ bs, bindExprs s v [] items = .ok bs ∧ .array bs = b := by
  simp [bindExpr, bind_eq_ok_iff, checkCount_eq_ok_iff, pure, Except.pure]

theorem bindExpr_index {base position : Expr} :
    bindExpr s v (.index base position) = .ok b ↔
      ∃ b₁ b₂, bindExpr s v base = .ok b₁ ∧ bindExpr s v position = .ok b₂ ∧ .index b₁ b₂ = b := by
  simp [bindExpr, bind_eq_ok_iff, pure, Except.pure]

/-- A call of a script function fits its number of parameters and is bound to its number. -/
theorem bindExpr_call_script {function : String} {args : List Expr} {signature : Signature}
    (h : s.functions[function]? = some signature) :
    bindExpr s v (.call function args) = .ok b ↔
      signature.arity = args.length ∧ args.length ≤ countLimit ∧
        ∃ bs, bindExprs s v [] args = .ok bs ∧ .callScript signature.id bs = b := by
  simp only [bindExpr, h]
  split <;> simp_all [bind_eq_ok_iff, checkCount_eq_ok_iff, pure, Except.pure]

/-- A call of any other name is left to the host. -/
theorem bindExpr_call_native {function : String} {args : List Expr}
    (h : s.functions[function]? = none) :
    bindExpr s v (.call function args) = .ok b ↔
      args.length ≤ countLimit ∧ ∃ bs, bindExprs s v [] args = .ok bs ∧
      .callNative function bs = b := by
  simp [bindExpr, h, bind_eq_ok_iff, checkCount_eq_ok_iff, pure, Except.pure]

theorem bindExpr_method {object : Expr} {name : String} {args : List Expr} :
    bindExpr s v (.method object name args) = .ok b ↔
      ∃ b₁, bindExpr s v object = .ok b₁ ∧ args.length ≤ countLimit ∧
        ∃ bs, bindExprs s v [] args = .ok bs ∧ .callMethod b₁ name bs = b := by
  simp [bindExpr, bind_eq_ok_iff, checkCount_eq_ok_iff, pure, Except.pure]

theorem bindExpr_unary {op : UnaryOp} {operand : Expr} :
    bindExpr s v (.unary op operand) = .ok b ↔
      ∃ b₁, bindExpr s v operand = .ok b₁ ∧ .unary op b₁ = b := by
  simp [bindExpr, bind_eq_ok_iff, pure, Except.pure]

/-- A connective that may skip its right operand is kept apart from the strict operators. -/
theorem bindExpr_binary {op : BinaryOp} {lhs rhs : Expr} :
    bindExpr s v (.binary op lhs rhs) = .ok b ↔
      ∃ b₁ b₂, bindExpr s v lhs = .ok b₁ ∧ bindExpr s v rhs = .ok b₂ ∧
        (match op.connective? with
          | some connective => .connect connective b₁ b₂
          | none => .strict op b₁ b₂) = b := by
  simp only [bindExpr, bind_eq_ok_iff]
  cases op.connective? <;> simp [pure, Except.pure]

end Exprs

/-- A slot without a name is handed out while the limit is not reached. -/
theorem Visible.allocate_eq_ok_iff {v : Visible} {r : Nat × Visible} :
    v.allocate = .ok r ↔
      v.scopes.next < countLimit ∧ (v.scopes.next, { v with scopes := v.scopes.grow }) = r := by
  simp only [Visible.allocate, map_eq_ok_iff, Scopes.allocate_eq_ok_iff]
  constructor
  · rintro ⟨_, ⟨hnext, rfl⟩, rfl⟩
    exact ⟨hnext, rfl⟩
  · rintro ⟨hnext, rfl⟩
    exact ⟨_, ⟨hnext, rfl⟩, rfl⟩

/-- A name is declared once in a scope, and gets the next slot. -/
theorem Visible.declare_eq_ok_iff {v : Visible} {name : String} {duplicate : CompileFault}
    {r : Nat × Visible} :
    v.declare name duplicate = .ok r ↔
      name ∉ v.scopes.inner.names ∧ v.scopes.next < countLimit ∧
        (v.scopes.next, { v with scopes := v.scopes.extend name }) = r := by
  simp only [Visible.declare, map_eq_ok_iff, Scopes.declare_eq_ok_iff]
  constructor
  · rintro ⟨_, ⟨hname, hnext, rfl⟩, rfl⟩
    exact ⟨hname, hnext, rfl⟩
  · rintro ⟨hname, hnext, rfl⟩
    exact ⟨_, ⟨hname, hnext, rfl⟩, rfl⟩

section Targets

variable {s : Signatures} {v : Visible} {t : Bound.Target}

theorem bindTarget_var {name : String} :
    bindTarget s v (.var name) = .ok t ↔ ∃ p, v.place s name = .ok p ∧ .place p = t := by
  simp [bindTarget, bind_eq_ok_iff, pure, Except.pure]

theorem bindTarget_index {base position : Expr} :
    bindTarget s v (.index base position) = .ok t ↔
      ∃ t₁ b, bindTarget s v base = .ok t₁ ∧ bindExpr s v position = .ok b ∧ .element t₁ b = t := by
  simp [bindTarget, bind_eq_ok_iff, pure, Except.pure]

/-- A bound target reads what the expression on the left of an assignment reads. -/
theorem bindTarget_read : {x : Expr} → {t : Bound.Target} → bindTarget s v x = .ok t →
    bindExpr s v x = .ok t.read
  | .var name, _, hbind => by
    obtain ⟨place, hplace, rfl⟩ := bindTarget_var.mp hbind
    exact bindExpr_var.mpr ⟨place, hplace, rfl⟩
  | .index base position, _, hbind => by
    obtain ⟨t, b, hbase, hposition, rfl⟩ := bindTarget_index.mp hbind
    exact bindExpr_index.mpr ⟨t.read, b, bindTarget_read hbase, hposition, rfl⟩

end Targets

section Stmts

variable {around : Surroundings} {inLoop : Bool} {v : Visible} {r : Bound.Stmt × Visible}

/-- A declaration of a script global stores into it, and the global can be seen from then on. -/
theorem bindDeclaration_global {name : String} {initial : Option Expr} {id : Nat}
    (h : around.global? v name = some id) :
    bindDeclaration around v name initial = .ok r ↔
      ∃ b, bindInitial around.signatures v initial = .ok b ∧
        (.store (.place (.script id)) b, { v with reached := id + 1 }) = r := by
  simp [bindDeclaration, h, bind_eq_ok_iff, pure, Except.pure]

/-- Any other declaration stores into the next slot, which belongs to the name from then on. -/
theorem bindDeclaration_local {name : String} {initial : Option Expr}
    (h : around.global? v name = none) :
    bindDeclaration around v name initial = .ok r ↔
      ∃ b, bindInitial around.signatures (v.announce name) initial = .ok b ∧
        name ∉ v.scopes.inner.names ∧ v.scopes.next < countLimit ∧
        (.store (.place (.slot v.scopes.next)) b,
          { v with scopes := (v.scopes.announce name).extend name }) = r := by
  simp only [bindDeclaration, h, bind_eq_ok_iff, Visible.declare_eq_ok_iff, Visible.announce,
    Scopes.names_announce, Scopes.next_announce]
  constructor
  · rintro ⟨b, hb, _, ⟨hname, hlt, rfl⟩, hr⟩
    exact ⟨b, hb, hname, hlt, Except.ok.inj hr⟩
  · rintro ⟨b, hb, hname, hlt, rfl⟩
    exact ⟨b, hb, _, ⟨hname, hlt, rfl⟩, rfl⟩

theorem bindStmt_assign {target value : Expr} :
    bindStmt around inLoop v (.assign target value) = .ok r ↔
      target.isAssignable ∧ ∃ b t, bindExpr around.signatures v value = .ok b ∧
        bindTarget around.signatures v target = .ok t ∧ (.store t b, v) = r := by
  rw [bindStmt]
  split <;> simp_all [bind_eq_ok_iff, pure, Except.pure]

theorem bindStmt_returnVoid :
    bindStmt around inLoop v .returnVoid = .ok r ↔ (.returnVoid, v) = r := by
  simp [bindStmt]

theorem bindStmt_returnValue {value : Expr} :
    bindStmt around inLoop v (.returnValue value) = .ok r ↔
      ∃ b, bindExpr around.signatures v value = .ok b ∧ (.returnValue b, v) = r := by
  simp [bindStmt, bind_eq_ok_iff, pure, Except.pure]

theorem bindStmt_whileLoop {condition : Expr} {body : Stmt} :
    bindStmt around inLoop v (.whileLoop condition body) = .ok r ↔
      ∃ b₁ b₂ v₂, bindExpr around.signatures v condition = .ok b₁ ∧
        bindStmt around true v.enter body = .ok (b₂, v₂) ∧ (.whileLoop b₁ b₂, v₂.leave) = r := by
  simp [bindStmt, bind_eq_ok_iff, pure, Except.pure]

/-- The scope of a loop over an array: two slots without a name for the array and the cursor,
and one for the item. -/
def Visible.forHeader (v : Visible) (name : String) : Visible :=
  { v with scopes := v.scopes.enter.grow.grow.extend name }

theorem bindStmt_forLoop {name : String} {source : Expr} {body : Stmt} :
    bindStmt around inLoop v (.forLoop name source body) = .ok r ↔
      ∃ b₁ b₂ v₂, bindExpr around.signatures v source = .ok b₁ ∧ v.scopes.next + 2 < countLimit ∧
        bindStmt around true (v.forHeader name).enter body = .ok (b₂, v₂) ∧
        (.forLoop v.scopes.next (v.scopes.next + 1) (v.scopes.next + 2) b₁ b₂,
          v₂.leave.leave) = r := by
  have hname : name ∉ v.enter.scopes.inner.names := by simp [Visible.enter, Scopes.enter]
  simp only [bindStmt, bind_eq_ok_iff, Visible.allocate_eq_ok_iff, Visible.declare_eq_ok_iff]
  constructor
  · rintro ⟨b₁, hb₁, _, ⟨-, rfl⟩, _, ⟨-, rfl⟩, _, ⟨-, hlt, rfl⟩, ⟨b₂, v₂⟩, hb₂, hr⟩
    exact ⟨b₁, b₂, v₂, hb₁, hlt, hb₂, Except.ok.inj hr⟩
  · rintro ⟨b₁, b₂, v₂, hb₁, hlt, hb₂, rfl⟩
    have h₀ : v.scopes.next < countLimit := by omega
    have h₁ : v.scopes.next + 1 < countLimit := by omega
    exact ⟨b₁, hb₁, _, ⟨h₀, rfl⟩, _, ⟨h₁, rfl⟩, _, ⟨hname, hlt, rfl⟩, (b₂, v₂), hb₂, rfl⟩

theorem bindStmt_ifThen {condition : Expr} {body : Stmt} :
    bindStmt around inLoop v (.ifThen condition body) = .ok r ↔
      ∃ b₁ b₂ v₂, bindExpr around.signatures v condition = .ok b₁ ∧
        bindStmt around inLoop v.enter body = .ok (b₂, v₂) ∧ (.ifThen b₁ b₂, v₂.leave) = r := by
  simp [bindStmt, bind_eq_ok_iff, pure, Except.pure]

theorem bindStmt_ifElse {condition : Expr} {body otherwise : Stmt} :
    bindStmt around inLoop v (.ifElse condition body otherwise) = .ok r ↔
      ∃ b₁ b₂ v₂ b₃ v₃, bindExpr around.signatures v condition = .ok b₁ ∧
        bindStmt around inLoop v.enter body = .ok (b₂, v₂) ∧
        bindStmt around inLoop v₂.leave.enter otherwise = .ok (b₃, v₃) ∧
        (.ifElse b₁ b₂ b₃, v₃.leave) = r := by
  simp [bindStmt, bind_eq_ok_iff, pure, Except.pure]

theorem bindStmt_discard {value : Expr} :
    bindStmt around inLoop v (.discard value) = .ok r ↔
      ∃ b, bindExpr around.signatures v value = .ok b ∧ (.discard b, v) = r := by
  simp [bindStmt, bind_eq_ok_iff, pure, Except.pure]

theorem bindStmt_declare {name : String} {initial : Option Expr} :
    bindStmt around inLoop v (.declare name initial) = bindDeclaration around v name initial := by
  rw [bindStmt]

theorem bindStmt_block {statements : List Stmt} :
    bindStmt around inLoop v (.block statements) = .ok r ↔
      ∃ bs v₂, bindStmts around inLoop []
        (v.enter.announceAll statements) statements = .ok (bs, v₂) ∧
        (.block bs, v₂.leave) = r := by
  simp [bindStmt, bind_eq_ok_iff, pure, Except.pure]

theorem bindStmt_breakLoop :
    bindStmt around inLoop v .breakLoop = .ok r ↔ inLoop ∧ (.breakLoop, v) = r := by
  rw [bindStmt]
  split <;> simp_all

theorem bindStmt_continueLoop :
    bindStmt around inLoop v .continueLoop = .ok r ↔ inLoop ∧ (.continueLoop, v) = r := by
  rw [bindStmt]
  split <;> simp_all

/-- Statements bound already stand before those bound after them. -/
theorem bindStmts_eq_map (bound : List Bound.Stmt) (ss : List Stmt) :
    bindStmts around inLoop bound v ss =
      (bindStmts around inLoop [] v ss).map fun r => (bound.reverse ++ r.1, r.2) := by
  induction ss generalizing bound v with
  | nil => simp [bindStmts, Except.map]
  | cons s ss ih =>
    rw [bindStmts, bindStmts]
    cases bindStmt around inLoop v s with
    | error fault => rfl
    | ok r =>
      simp only [ih (r.1 :: bound), ih [r.1]]
      cases bindStmts around inLoop [] r.2 ss <;> simp [Except.map]

theorem bindStmts_nil {r : List Bound.Stmt × Visible} :
    bindStmts around inLoop [] v [] = .ok r ↔ ([], v) = r := by
  simp [bindStmts]

theorem bindStmts_cons {s : Stmt} {ss : List Stmt} {r : List Bound.Stmt × Visible} :
    bindStmts around inLoop [] v (s :: ss) = .ok r ↔
      ∃ b v₁ bs v₂, bindStmt around inLoop v s = .ok (b, v₁) ∧
        bindStmts around inLoop [] v₁ ss = .ok (bs, v₂) ∧ (b :: bs, v₂) = r := by
  rw [bindStmts]
  cases bindStmt around inLoop v s with
  | error fault => simp
  | ok r =>
    obtain ⟨b, v₁⟩ := r
    simp only [bindStmts_eq_map [b], map_eq_ok_iff]
    simp

end Stmts

section Bodies

variable {around : Surroundings} {v : Visible} {b : Bound.Body}

theorem bindParams_nil {r : Visible} : bindParams v [] = .ok r ↔ v = r := by
  simp [bindParams]

theorem bindParams_cons {name : String} {rest : List String} {r : Visible} :
    bindParams v (name :: rest) = .ok r ↔
      name ∉ v.scopes.inner.names ∧ v.scopes.next < countLimit ∧
        bindParams { v with scopes := v.scopes.extend name } rest = .ok r := by
  rw [bindParams]
  cases hdeclare : v.declare name (.duplicateParameter name) with
  | error fault =>
    have hfails : ∀ r', v.declare name (.duplicateParameter name) ≠ .ok r' := by simp [hdeclare]
    simp only [ne_eq, Visible.declare_eq_ok_iff] at hfails
    simpa using fun hname hnext => absurd ⟨hname, hnext, rfl⟩ (hfails _)
  | ok r' =>
    obtain ⟨hname, hnext, rfl⟩ := Visible.declare_eq_ok_iff.mp hdeclare
    simp [hname, hnext]

theorem bindBody_eq_ok_iff {name : String} {params : List String} {statements : List Stmt} :
    bindBody around v name params statements = .ok b ↔
      ∃ v₁ bs v₂, bindParams v params = .ok v₁ ∧
        bindStmts around false [] v₁ statements = .ok (bs, v₂) ∧
        { name, arity := params.length, locals := v₂.scopes.peak, statements := bs } = b := by
  simp [bindBody, bind_eq_ok_iff, pure, Except.pure]

/-- Bodies bound already stand before those bound after them. -/
theorem bindFunctions_eq_map {s : Signatures} (bound : List Bound.Body) (fs : List FunctionDecl) :
    bindFunctions s bound fs = (bindFunctions s [] fs).map (bound.reverse ++ ·) := by
  induction fs generalizing bound with
  | nil => simp [bindFunctions, Except.map]
  | cons f fs ih =>
    rw [bindFunctions, bindFunctions]
    cases bindFunction s f with
    | error error => rfl
    | ok b =>
      simp only [ih (b :: bound), ih [b]]
      cases bindFunctions s [] fs <;> simp [Except.map]

/-- Functions bind one by one, in order. -/
theorem bindFunctions_eq_ok_iff {s : Signatures} {fs : List FunctionDecl} {bs : List Bound.Body} :
    bindFunctions s [] fs = .ok bs ↔ List.Forall₂ (fun f b => bindFunction s f = .ok b) fs bs := by
  induction fs generalizing bs with
  | nil => simp [bindFunctions, eq_comm]
  | cons f fs ih =>
    rw [bindFunctions, List.forall₂_cons_left_iff]
    cases bindFunction s f with
    | error error => simp
    | ok b =>
      simp only [bindFunctions_eq_map [b], map_eq_ok_iff, ih]
      simp [eq_comm]

/-- A program binds when its tables, its top-level code and its functions do. -/
theorem bind_program_eq_ok_iff {program : Program} {r : Bound.Program} :
    program.bind = .ok r ↔
      ∃ s top functions, Signatures.ofProgram program = .ok s ∧
        bindTopLevel s program.statements = .ok top ∧
        bindFunctions s [] program.functions = .ok functions ∧
        { top, functions, globals := s.globalNames } = r := by
  simp [Program.bind, bind_eq_ok_iff, pure, Except.pure]

end Bodies

end HostScript
