import HostScript.Proofs.Compile.Tables
import HostScript.Proofs.Emission.Heights

/-!
# How many operands a program needs

The number of operands that a frame ever holds can be read off the text of its body. An operand
that waits while another one is evaluated counts as one; the operands of a connective do not
wait for each other, and neither do statements. No operation of the code of a body is higher
than what the body needs.
-/

namespace HostScript

mutual

/-- The number of operands that evaluating an expression needs. -/
def Expr.need : Expr → Nat
  | .var _ | .number _ | .string _ => 1
  | .array items => max 1 (Expr.needs 0 items)
  | .index base position => max base.need (1 + position.need)
  | .call _ args => max 1 (Expr.needs 0 args)
  | .method object _ args => max object.need (Expr.needs 1 args)
  | .unary _ operand => operand.need
  | .binary op lhs rhs =>
    match op with
    | .and | .or => max lhs.need rhs.need
    | _ => max lhs.need (1 + rhs.need)
termination_by structural expr => expr

/-- The number of operands that evaluating expressions one after the other needs, where `k`
values wait already. -/
def Expr.needs (k : Nat) : List Expr → Nat
  | [] => 0
  | expr :: rest => max (k + expr.need) (Expr.needs (k + 1) rest)
termination_by structural exprs => exprs

end

/-- The number of operands that storing a value needs, the value included. An element is stored by
storing the whole array. -/
def Expr.storeNeed : Expr → Nat
  | .index base position => max (max (1 + base.need) (2 + position.need)) base.storeNeed
  | _ => 1

mutual

/-- The number of operands that running a statement needs. -/
def Stmt.need : Stmt → Nat
  | .assign target value => max value.need target.storeNeed
  | .returnValue value | .discard value => value.need
  | .whileLoop condition body | .ifThen condition body => max condition.need body.need
  | .forLoop _ source body => max source.need body.need
  | .ifElse condition body otherwise => max condition.need (max body.need otherwise.need)
  | .declare _ none => 1
  | .declare _ (some value) => value.need
  | .block statements => Stmt.needs statements
  | .returnVoid | .breakLoop | .continueLoop => 0
termination_by structural stmt => stmt

/-- The number of operands that running statements needs. -/
def Stmt.needs : List Stmt → Nat
  | [] => 0
  | stmt :: rest => max stmt.need (Stmt.needs rest)
termination_by structural statements => statements

end

/-- The number of operands that the top-level code needs, or a function by its number. -/
def Program.need (p : Program) : Option Nat → Nat
  | none => Stmt.needs p.statements
  | some id => (p.functions[id]?.map (·.body.need)).getD 0

/-- Evaluating an expression needs room for its value. -/
theorem Expr.one_le_need : (x : Expr) → 1 ≤ x.need
  | .var _ | .number _ | .string _ => Nat.le_refl 1
  | .array _ | .call _ _ => Nat.le_max_left _ _
  | .index base _ => Nat.le_trans base.one_le_need (Nat.le_max_left _ _)
  | .method object _ _ => Nat.le_trans object.one_le_need (Nat.le_max_left _ _)
  | .unary _ operand => operand.one_le_need
  | .binary op lhs _ => by
    have h := lhs.one_le_need
    cases op <;> exact Nat.le_trans h (Nat.le_max_left _ _)

/-- The operands of a connective do not wait for each other. -/
theorem Expr.need_connective {op : BinaryOp} {connective : Connective}
    (h : op.connective? = some connective) (lhs rhs : Expr) :
    (Expr.binary op lhs rhs).need = max lhs.need rhs.need := by
  cases op with
  | and | or => rfl
  | _ => cases h

/-- The left operand of any other operator waits for the right one. -/
theorem Expr.need_strict {op : BinaryOp} (h : op.connective? = none) (lhs rhs : Expr) :
    (Expr.binary op lhs rhs).need = max lhs.need (1 + rhs.need) := by
  cases op with
  | and | or => cases h
  | _ => rfl

/-- Evaluating expressions needs room for their values. -/
theorem Expr.add_length_le_needs (k : Nat) (xs : List Expr) :
    k + xs.length ≤ max k (Expr.needs k xs) := by
  induction xs generalizing k with
  | nil => exact Nat.le_max_left _ _
  | cons x xs ih =>
    have hx := x.one_le_need
    have hxs := ih (k + 1)
    rw [Expr.needs, List.length_cons]
    omega

/-- Whether an operation runs on at most `limit` operands. -/
def Op.AtMost (limit : Nat) (_pc : Nat) (op : Op) : Prop :=
  op.height ≤ limit

theorem Place.atMost_loadOp {limit pc n : Nat} (p : Place) :
    (p.loadOp n).AtMost limit pc ↔ n ≤ limit := by
  cases p <;> rfl

theorem Place.atMost_storeOp {limit pc n : Nat} (p : Place) :
    (p.storeOp n).AtMost limit pc ↔ n ≤ limit := by
  cases p <;> rfl

section Exprs

variable {s : Signatures} {v : Visible} {limit : Nat}

mutual

/-- The code of an expression is not higher than what the expression needs on top of what is
there. -/
theorem bindExpr_atMost (start n : Nat) :
    (x : Expr) → (b : Bound.Expr) → bindExpr s v x = .ok b → n + x.need ≤ limit →
      Op.Each (Op.AtMost limit) start (b.code start n)
  | .var name, b, hbind, hneed => by
    obtain ⟨p, -, rfl⟩ := bindExpr_var.mp hbind
    exact Bound.Expr.each_load.mpr (p.atMost_loadOp.mpr (Nat.le_of_add_right_le hneed))
  | .number value, b, hbind, hneed => by
    obtain rfl := bindExpr_number.mp hbind
    exact Bound.Expr.each_number.mpr (Nat.le_of_add_right_le hneed)
  | .string value, b, hbind, hneed => by
    obtain rfl := bindExpr_string.mp hbind
    exact Bound.Expr.each_string.mpr (Nat.le_of_add_right_le hneed)
  | .array items, b, hbind, hneed => by
    obtain ⟨-, bs, hbs, rfl⟩ := bindExpr_array.mp hbind
    rw [Expr.need] at hneed
    have hlast := Expr.add_length_le_needs 0 items
    have hlength : n + items.length ≤ limit := by omega
    refine Bound.Expr.each_array.mpr ⟨bindExprs_atMost start n 0 items bs hbs (by omega), ?_⟩
    exact length_bindExprs hbs ▸ hlength
  | .index base position, b, hbind, hneed => by
    obtain ⟨b₁, b₂, hb₁, hb₂, rfl⟩ := bindExpr_index.mp hbind
    rw [Expr.need] at hneed
    have hposition := position.one_le_need
    refine Bound.Expr.each_index.mpr ⟨bindExpr_atMost start n base b₁ hb₁ (by omega),
      bindExpr_atMost _ (n + 1) position b₂ hb₂ (by omega), ?_⟩
    exact (by omega : n + 2 ≤ limit)
  | .call function args, b, hbind, hneed => by
    rw [Expr.need] at hneed
    have hlast := Expr.add_length_le_needs 0 args
    have hlength : n + args.length ≤ limit := by omega
    cases hfunction : s.functions[function]? with
    | some signature =>
      obtain ⟨-, -, bs, hbs, rfl⟩ := (bindExpr_call_script hfunction).mp hbind
      refine Bound.Expr.each_callScript.mpr ⟨bindExprs_atMost start n 0 args bs hbs (by omega), ?_⟩
      exact length_bindExprs hbs ▸ hlength
    | none =>
      obtain ⟨-, bs, hbs, rfl⟩ := (bindExpr_call_native hfunction).mp hbind
      refine Bound.Expr.each_callNative.mpr ⟨bindExprs_atMost start n 0 args bs hbs (by omega), ?_⟩
      exact length_bindExprs hbs ▸ hlength
  | .method object name args, b, hbind, hneed => by
    obtain ⟨b₁, hb₁, -, bs, hbs, rfl⟩ := bindExpr_method.mp hbind
    rw [Expr.need] at hneed
    have hobject := object.one_le_need
    have hlast := Expr.add_length_le_needs 1 args
    have hlength : n + 1 + args.length ≤ limit := by omega
    refine Bound.Expr.each_callMethod.mpr ⟨bindExpr_atMost start n object b₁ hb₁ (by omega),
      bindExprs_atMost _ n 1 args bs hbs (by omega), ?_⟩
    exact length_bindExprs hbs ▸ hlength
  | .unary op operand, b, hbind, hneed => by
    obtain ⟨b₁, hb₁, rfl⟩ := bindExpr_unary.mp hbind
    rw [Expr.need] at hneed
    have hoperand := operand.one_le_need
    refine Bound.Expr.each_unary.mpr ⟨bindExpr_atMost start n operand b₁ hb₁ hneed, ?_⟩
    exact (by omega : n + 1 ≤ limit)
  | .binary op lhs rhs, b, hbind, hneed => by
    obtain ⟨b₁, b₂, hb₁, hb₂, rfl⟩ := bindExpr_binary.mp hbind
    have hlhs := lhs.one_le_need
    have hrhs := rhs.one_le_need
    cases hop : op.connective? with
    | some connective =>
      rw [Expr.need_connective hop] at hneed
      have hone : n + 1 ≤ limit := by omega
      have hnone : n ≤ limit := by omega
      exact Bound.Expr.each_connect.mpr ⟨bindExpr_atMost start n lhs b₁ hb₁ (by omega), hone,
        bindExpr_atMost _ n rhs b₂ hb₂ (by omega), hone, hnone, hone, hnone⟩
    | none =>
      rw [Expr.need_strict hop] at hneed
      have htwo : n + 2 ≤ limit := by omega
      exact Bound.Expr.each_strict.mpr ⟨bindExpr_atMost start n lhs b₁ hb₁ (by omega),
        bindExpr_atMost _ (n + 1) rhs b₂ hb₂ (by omega), htwo⟩

/-- The code of expressions is not higher than what they need on top of what is there, where `k` of
the operands that are there wait for them. -/
theorem bindExprs_atMost (start n k : Nat) :
    (xs : List Expr) → (bs : List Bound.Expr) → bindExprs s v [] xs = .ok bs →
      n + Expr.needs k xs ≤ limit →
      Op.Each (Op.AtMost limit) start (Bound.Expr.codes start (n + k) bs)
  | [], bs, hbind, _ => by
    obtain rfl := bindExprs_nil.mp hbind
    exact Op.each_nil
  | x :: xs, bs, hbind, hneed => by
    obtain ⟨b, rest, hb, hrest, rfl⟩ := bindExprs_cons.mp hbind
    rw [Expr.needs] at hneed
    exact Bound.Expr.each_codes_cons.mpr ⟨bindExpr_atMost start (n + k) x b hb (by omega),
      bindExprs_atMost _ n (k + 1) xs rest hrest (by omega)⟩

end

/-- The code that stores a value is not higher than what storing it needs. -/
theorem bindTarget_atMost (start : Nat) :
    (x : Expr) → (t : Bound.Target) → bindTarget s v x = .ok t → x.storeNeed ≤ limit →
      Op.Each (Op.AtMost limit) start (t.code start 0)
  | .var name, t, hbind, hneed => by
    obtain ⟨p, -, rfl⟩ := bindTarget_var.mp hbind
    exact Bound.Target.each_place.mpr (p.atMost_storeOp.mpr hneed)
  | .index base position, t, hbind, hneed => by
    obtain ⟨t₁, b, ht₁, hb, rfl⟩ := bindTarget_index.mp hbind
    rw [Expr.storeNeed] at hneed
    have hposition := position.one_le_need
    have hthree : 3 ≤ limit := by omega
    exact Bound.Target.each_element.mpr
      ⟨bindExpr_atMost start 1 base t₁.read (bindTarget_read ht₁) (by omega),
        bindExpr_atMost _ 2 position b hb (by omega), hthree,
        bindTarget_atMost _ base t₁ ht₁ (by omega)⟩

end Exprs

section Stmts

variable {around : Surroundings} {limit : Nat}

/-- The code of a declaration is not higher than what the declaration needs. -/
theorem bindDeclaration_atMost {v : Visible} {name : String} {initial : Option Expr}
    {r : Bound.Stmt × Visible} (hbind : bindDeclaration around v name initial = .ok r)
    (hneed : (Stmt.declare name initial).need ≤ limit) (exits : Exits) (start : Nat) :
    Op.Each (Op.AtMost limit) start (r.1.code exits start) := by
  have hinitial : ∀ v' b, bindInitial around.signatures v' initial = .ok b →
      1 ≤ limit ∧ Op.Each (Op.AtMost limit) start (b.code start 0) := by
    intro v' b hb
    cases initial with
    | none =>
      obtain rfl := Except.ok.inj hb
      exact ⟨hneed, Bound.Expr.each_void.mpr (Nat.zero_le limit)⟩
    | some value =>
      have hneed : value.need ≤ limit := hneed
      exact ⟨Nat.le_trans value.one_le_need hneed, bindExpr_atMost start 0 value b hb (by omega)⟩
  cases hglobal : around.global? v name with
  | some id =>
    obtain ⟨b, hb, rfl⟩ := (bindDeclaration_global hglobal).mp hbind
    obtain ⟨hone, hcode⟩ := hinitial v b hb
    exact Bound.Stmt.each_store.mpr ⟨hcode, Bound.Target.each_place.mpr hone⟩
  | none =>
    obtain ⟨b, hb, -, -, rfl⟩ := (bindDeclaration_local hglobal).mp hbind
    obtain ⟨hone, hcode⟩ := hinitial (v.announce name) b hb
    exact Bound.Stmt.each_store.mpr ⟨hcode, Bound.Target.each_place.mpr hone⟩

mutual

/-- The code of a statement is not higher than what the statement needs. -/
theorem bindStmt_atMost (exits : Exits) (start : Nat) (inLoop : Bool) (v : Visible) :
    (stmt : Stmt) → (r : Bound.Stmt × Visible) → bindStmt around inLoop v stmt = .ok r →
      stmt.need ≤ limit →
      Op.Each (Op.AtMost limit) start (r.1.code exits start)
  | .assign target value, r, hbind, hneed => by
    obtain ⟨-, b, t, hb, ht, rfl⟩ := bindStmt_assign.mp hbind
    rw [Stmt.need] at hneed
    exact Bound.Stmt.each_store.mpr ⟨bindExpr_atMost start 0 value b hb (by omega),
      bindTarget_atMost _ target t ht (by omega)⟩
  | .returnVoid, r, hbind, _ => by
    obtain rfl := bindStmt_returnVoid.mp hbind
    exact Bound.Stmt.each_returnVoid.mpr (Nat.zero_le limit)
  | .returnValue value, r, hbind, hneed => by
    obtain ⟨b, hb, rfl⟩ := bindStmt_returnValue.mp hbind
    rw [Stmt.need] at hneed
    exact Bound.Stmt.each_returnValue.mpr ⟨bindExpr_atMost start 0 value b hb (by omega),
      Nat.le_trans value.one_le_need hneed⟩
  | .discard value, r, hbind, hneed => by
    obtain ⟨b, hb, rfl⟩ := bindStmt_discard.mp hbind
    rw [Stmt.need] at hneed
    exact Bound.Stmt.each_discard.mpr ⟨bindExpr_atMost start 0 value b hb (by omega),
      Nat.le_trans value.one_le_need hneed⟩
  | .whileLoop condition body, r, hbind, hneed => by
    obtain ⟨b₁, b₂, v₂, hb₁, hb₂, rfl⟩ := bindStmt_whileLoop.mp hbind
    rw [Stmt.need] at hneed
    have hone : 1 ≤ limit := Nat.le_trans condition.one_le_need (by omega)
    exact Bound.Stmt.each_whileLoop.mpr ⟨bindExpr_atMost start 0 condition b₁ hb₁ (by omega), hone,
      bindStmt_atMost _ _ true v.enter body (b₂, v₂) hb₂ (by omega), Nat.zero_le limit⟩
  | .forLoop name source body, r, hbind, hneed => by
    obtain ⟨b₁, b₂, v₂, hb₁, -, hb₂, rfl⟩ := bindStmt_forLoop.mp hbind
    rw [Stmt.need] at hneed
    have hone : 1 ≤ limit := Nat.le_trans source.one_le_need (by omega)
    exact Bound.Stmt.each_forLoop.mpr ⟨bindExpr_atMost start 0 source b₁ hb₁ (by omega), hone,
      Nat.zero_le limit, hone, Nat.zero_le limit, hone,
      bindStmt_atMost _ _ true (v.forHeader name).enter body (b₂, v₂) hb₂ (by omega),
      Nat.zero_le limit⟩
  | .ifThen condition body, r, hbind, hneed => by
    obtain ⟨b₁, b₂, v₂, hb₁, hb₂, rfl⟩ := bindStmt_ifThen.mp hbind
    rw [Stmt.need] at hneed
    have hone : 1 ≤ limit := Nat.le_trans condition.one_le_need (by omega)
    exact Bound.Stmt.each_ifThen.mpr ⟨bindExpr_atMost start 0 condition b₁ hb₁ (by omega), hone,
      bindStmt_atMost _ _ inLoop v.enter body (b₂, v₂) hb₂ (by omega)⟩
  | .ifElse condition body otherwise, r, hbind, hneed => by
    obtain ⟨b₁, b₂, v₂, b₃, v₃, hb₁, hb₂, hb₃, rfl⟩ := bindStmt_ifElse.mp hbind
    rw [Stmt.need] at hneed
    have hone : 1 ≤ limit := Nat.le_trans condition.one_le_need (by omega)
    exact Bound.Stmt.each_ifElse.mpr ⟨bindExpr_atMost start 0 condition b₁ hb₁ (by omega), hone,
      bindStmt_atMost _ _ inLoop v.enter body (b₂, v₂) hb₂ (by omega), Nat.zero_le limit,
      bindStmt_atMost _ _ inLoop v₂.leave.enter otherwise (b₃, v₃) hb₃ (by omega)⟩
  | .declare name initial, r, hbind, hneed =>
    bindDeclaration_atMost (bindStmt_declare ▸ hbind) hneed exits start
  | .block statements, r, hbind, hneed => by
    obtain ⟨bs, v₂, hbs, rfl⟩ := bindStmt_block.mp hbind
    rw [Stmt.need] at hneed
    exact Bound.Stmt.each_block.mpr
      (bindStmts_atMost exits start inLoop (v.enter.announceAll statements) statements
        (bs, v₂) hbs hneed)
  | .breakLoop, r, hbind, _ => by
    obtain ⟨-, rfl⟩ := bindStmt_breakLoop.mp hbind
    exact Bound.Stmt.each_breakLoop.mpr (Nat.zero_le limit)
  | .continueLoop, r, hbind, _ => by
    obtain ⟨-, rfl⟩ := bindStmt_continueLoop.mp hbind
    exact Bound.Stmt.each_continueLoop.mpr (Nat.zero_le limit)

/-- The code of statements is not higher than what they need. -/
theorem bindStmts_atMost (exits : Exits) (start : Nat) (inLoop : Bool) (v : Visible) :
    (statements : List Stmt) → (r : List Bound.Stmt × Visible) →
      bindStmts around inLoop [] v statements = .ok r → Stmt.needs statements ≤ limit →
      Op.Each (Op.AtMost limit) start (Bound.Stmt.codes exits start r.1)
  | [], r, hbind, _ => by
    obtain rfl := bindStmts_nil.mp hbind
    exact Op.each_nil
  | stmt :: rest, r, hbind, hneed => by
    obtain ⟨b, v₁, bs, v₂, hb, hbs, rfl⟩ := bindStmts_cons.mp hbind
    rw [Stmt.needs] at hneed
    exact Bound.Stmt.each_codes_cons.mpr
      ⟨bindStmt_atMost exits start inLoop v stmt (b, v₁) hb (by omega),
        bindStmts_atMost exits _ inLoop v₁ rest (bs, v₂) hbs (by omega)⟩

end

/-- The code of a body is not higher than what its statements need. -/
theorem bindBody_atMost {v : Visible} {name : String}
    {params : List String} {statements : List Stmt}
    {b : Bound.Body} (hbind : bindBody around v name params statements = .ok b) (start : Nat) :
    Op.Each (Op.AtMost (Stmt.needs statements)) start (b.code start) := by
  obtain ⟨v₁, bs, v₂, -, hbs, rfl⟩ := bindBody_eq_ok_iff.mp hbind
  exact Bound.Body.each_code.mpr
    ⟨bindStmts_atMost _ start false v₁ statements (bs, v₂) hbs (Nat.le_refl _), Nat.zero_le _⟩

end Stmts

/-- The code of each body of a program is not higher than what the text of the body needs. -/
theorem bind_atMost {p : Program} {program : Bound.Program} (h : p.bind = .ok program)
    {function : Option Nat} {b : Bound.Body} (hb : program.body? function = some b) (start : Nat) :
    Op.Each (Op.AtMost (p.need function)) start (b.code start) := by
  obtain ⟨s, top, functions, -, htop, hfunctions, rfl⟩ := bind_program_eq_ok_iff.mp h
  cases function with
  | none =>
    obtain rfl := Option.some.inj hb
    exact bindBody_atMost (bindTopLevel_eq_ok_iff.mp htop) start
  | some id =>
    obtain ⟨f, hf, hbind⟩ := bindFunctions_getElem? hfunctions hb
    have hneed : p.need (some id) = Stmt.needs [f.body] := by
      simp [Program.need, hf, Stmt.needs]
    rw [hneed]
    exact bindBody_atMost (bindFunction_eq_ok_iff.mp hbind) start

end HostScript
