import HostScript.Proofs.Compile.LineUp

/-!
# The connectives of a program and their code

Every `and` and every `or` of a program that compiles has its own place in the code, in the order in
which their code ends: the connectives in an operand come before the connective itself. The left
side of an assignment to an element is read before it is stored to, so that the connectives in its
positions have more places than one.
-/

namespace HostScript

mutual

/-- The connectives in an expression, in the order in which their code ends. -/
def Expr.connectives : Expr → List Expr
  | .var _ | .number _ | .string _ => []
  | .array items => Expr.connectivesOf items
  | .index base position => base.connectives ++ position.connectives
  | .call _ args => Expr.connectivesOf args
  | .method object _ args => object.connectives ++ Expr.connectivesOf args
  | .unary _ operand => operand.connectives
  | .binary op lhs rhs =>
    lhs.connectives ++ (rhs.connectives ++ if op.shortCircuits then [.binary op lhs rhs] else [])
termination_by structural expr => expr

/-- The connectives in expressions, in the order in which their code ends. -/
def Expr.connectivesOf : List Expr → List Expr
  | [] => []
  | expr :: rest => expr.connectives ++ Expr.connectivesOf rest
termination_by structural exprs => exprs

end

/-- The connectives in the code that stores into the left side of an assignment: what the element is
in is read, then the position, and then the changed array is stored into the former. -/
def Expr.storedConnectives : Expr → List Expr
  | .index base position => base.connectives ++ (position.connectives ++ base.storedConnectives)
  | _ => []

/-- The connectives that a statement has of its own, before those of the statements inside it. An
assignment has the value before the left side. -/
def Stmt.ownConnectives : Stmt → List Expr
  | .assign target value => value.connectives ++ target.storedConnectives
  | stmt => stmt.head?.toList.flatMap Expr.connectives

/-- The connectives of a program, in the order in which their code ends. -/
def Program.connectives (p : Program) : List Expr :=
  p.stmts.flatMap Stmt.ownConnectives

/-- A connective in the code of a unit: where its code starts, the number of operands below
it, and its parts. -/
structure Connection where
  start : Nat
  height : Nat
  op : Connective
  lhs : Bound.Expr
  rhs : Bound.Expr

namespace Connection

variable (c : Connection)

/-- The connective as an expression. -/
def expr : Bound.Expr :=
  .connect c.op c.lhs c.rhs

/-- Where the left operand has been evaluated. -/
def tested : Nat :=
  c.start + c.lhs.size

/-- Where the right operand starts. -/
def entered : Nat :=
  c.tested + 1

/-- Where the right operand has been evaluated. -/
def retested : Nat :=
  c.entered + c.rhs.size

/-- Where the run goes when an operand has decided. -/
def decided : Nat :=
  c.retested + 3

/-- The offset right after the connective. -/
def join : Nat :=
  c.start + c.expr.size

theorem join_eq : c.join = c.retested + 4 := by
  exact Bound.Expr.add_size_connect

/-- Whether a connective in the code is what one of a program is bound to. -/
def Realizes (program : Bound.Program) (s : Signatures) (expr : Expr) (c : Connection) : Prop :=
  ∃ v op lhs rhs, expr = .binary op lhs rhs ∧ op.connective? = some c.op ∧
    bindExpr s v lhs = .ok c.lhs ∧
    bindExpr s v rhs = .ok c.rhs ∧
    Op.Each (Op.Of program.code) c.start (c.expr.code c.start c.height)

end Connection

/-- An operator that may skip its right operand is a connective. -/
theorem BinaryOp.exists_connective {op : BinaryOp} (h : op.shortCircuits) :
    ∃ c, op.connective? = some c := by
  cases op with
  | and => exact ⟨.and, rfl⟩
  | or => exact ⟨.or, rfl⟩
  | _ => cases h

/-- The others are not. -/
theorem BinaryOp.connective?_eq_none {op : BinaryOp} (h : op.shortCircuits = false) :
    op.connective? = none := by
  cases op with
  | and => cases h
  | or => cases h
  | _ => rfl

section Exprs

variable {s : Signatures} {P : Nat → Op → Prop} {n start stop : Nat}

/-- Whether expressions are bound one after the other, to code between two offsets, on top of some
operands, of which a property holds. -/
def Expr.AreEmitted (s : Signatures) (P : Nat → Op → Prop) (n start stop : Nat)
    (exprs : List Expr) : Prop :=
  ∃ v bs, bindExprs s v [] exprs = .ok bs ∧ Op.Each P start (Bound.Expr.codes start n bs) ∧
    start + Bound.Expr.sizes 0 bs = stop

theorem Expr.AreEmitted.le {exprs : List Expr} (h : Expr.AreEmitted s P n start stop exprs) :
    start ≤ stop := by
  obtain ⟨v, bs, -, -, rfl⟩ := h
  exact Nat.le_add_right start _

theorem Expr.AreEmitted.cons {expr : Expr} {rest : List Expr}
    (h : Expr.AreEmitted s P n start stop (expr :: rest)) :
    ∃ mid, expr.IsEmitted s P n start mid ∧ Expr.AreEmitted s P (n + 1) mid stop rest := by
  obtain ⟨v, bs, hbind, hcode, hstop⟩ := h
  obtain ⟨b, bs, hexpr, hrest, rfl⟩ := bindExprs_cons.mp hbind
  obtain ⟨hcode, hcode'⟩ := Bound.Expr.each_codes_cons.mp hcode
  rw [Bound.Expr.add_sizes_cons] at hstop
  exact ⟨_, ⟨v, b, hexpr, hcode, rfl⟩, v, bs, hrest, hcode', hstop⟩

theorem Expr.IsEmitted.array {items : List Expr}
    (h : (Expr.array items).IsEmitted s P n start stop) :
    ∃ mid, Expr.AreEmitted s P n start mid items ∧ mid ≤ stop := by
  obtain ⟨v, b, hbind, hcode, rfl⟩ := h
  obtain ⟨-, bs, hitems, rfl⟩ := bindExpr_array.mp hbind
  refine ⟨_, ⟨v, bs, hitems, (Bound.Expr.each_array.mp hcode).1, rfl⟩, ?_⟩
  rw [Bound.Expr.add_size_array]
  omega

theorem Expr.IsEmitted.index {base position : Expr}
    (h : (Expr.index base position).IsEmitted s P n start stop) :
    ∃ mid hi, base.IsEmitted s P n start mid ∧ position.IsEmitted s P (n + 1) mid hi ∧
      hi ≤ stop := by
  obtain ⟨v, b, hbind, hcode, rfl⟩ := h
  obtain ⟨b₁, b₂, hbase, hposition, rfl⟩ := bindExpr_index.mp hbind
  obtain ⟨hcode₁, hcode₂, -⟩ := Bound.Expr.each_index.mp hcode
  refine ⟨_, _, ⟨v, b₁, hbase, hcode₁, rfl⟩, ⟨v, b₂, hposition, hcode₂, rfl⟩, ?_⟩
  rw [Bound.Expr.add_size_index]
  omega

/-- The arguments come first, whatever is called. -/
theorem Expr.IsEmitted.call {function : String} {args : List Expr}
    (h : (Expr.call function args).IsEmitted s P n start stop) :
    ∃ mid, Expr.AreEmitted s P n start mid args ∧ mid ≤ stop := by
  obtain ⟨v, b, hbind, hcode, rfl⟩ := h
  cases hfunction : s.functions[function]? with
  | some signature =>
    obtain ⟨-, -, bs, hargs, rfl⟩ := (bindExpr_call_script hfunction).mp hbind
    refine ⟨_, ⟨v, bs, hargs, (Bound.Expr.each_callScript.mp hcode).1, rfl⟩, ?_⟩
    rw [Bound.Expr.add_size_callScript]
    omega
  | none =>
    obtain ⟨-, bs, hargs, rfl⟩ := (bindExpr_call_native hfunction).mp hbind
    refine ⟨_, ⟨v, bs, hargs, (Bound.Expr.each_callNative.mp hcode).1, rfl⟩, ?_⟩
    rw [Bound.Expr.add_size_callNative]
    omega

theorem Expr.IsEmitted.method {object : Expr} {name : String} {args : List Expr}
    (h : (Expr.method object name args).IsEmitted s P n start stop) :
    ∃ mid hi, object.IsEmitted s P n start mid ∧ Expr.AreEmitted s P (n + 1) mid hi args ∧
      hi ≤ stop := by
  obtain ⟨v, b, hbind, hcode, rfl⟩ := h
  obtain ⟨b₁, hobject, -, bs, hargs, rfl⟩ := bindExpr_method.mp hbind
  obtain ⟨hcode₁, hcode₂, -⟩ := Bound.Expr.each_callMethod.mp hcode
  refine ⟨_, _, ⟨v, b₁, hobject, hcode₁, rfl⟩, ⟨v, bs, hargs, hcode₂, rfl⟩, ?_⟩
  rw [Bound.Expr.add_size_callMethod]
  omega

theorem Expr.IsEmitted.unary {op : UnaryOp} {operand : Expr}
    (h : (Expr.unary op operand).IsEmitted s P n start stop) :
    ∃ mid, operand.IsEmitted s P n start mid ∧ mid ≤ stop := by
  obtain ⟨v, b, hbind, hcode, rfl⟩ := h
  obtain ⟨b₁, hoperand, rfl⟩ := bindExpr_unary.mp hbind
  refine ⟨_, ⟨v, b₁, hoperand, (Bound.Expr.each_unary.mp hcode).1, rfl⟩, ?_⟩
  rw [Bound.Expr.add_size_unary]
  omega

/-- A strict operator comes after its operands. -/
theorem Expr.IsEmitted.strict {op : BinaryOp} {lhs rhs : Expr} (hop : op.shortCircuits = false)
    (h : (Expr.binary op lhs rhs).IsEmitted s P n start stop) :
    ∃ mid hi, lhs.IsEmitted s P n start mid ∧ rhs.IsEmitted s P (n + 1) mid hi ∧ hi ≤ stop := by
  obtain ⟨v, b, hbind, hcode, rfl⟩ := h
  obtain ⟨b₁, b₂, hlhs, hrhs, hb⟩ := bindExpr_binary.mp hbind
  rw [BinaryOp.connective?_eq_none hop] at hb
  obtain rfl : .strict op b₁ b₂ = b := hb
  obtain ⟨hcode₁, hcode₂, -⟩ := Bound.Expr.each_strict.mp hcode
  refine ⟨_, _, ⟨v, b₁, hlhs, hcode₁, rfl⟩, ⟨v, b₂, hrhs, hcode₂, rfl⟩, ?_⟩
  rw [Bound.Expr.add_size_strict]
  omega

/-- A connective has its operands between its jumps, and ends after both of them. -/
theorem Expr.IsEmitted.connect {op : BinaryOp} {lhs rhs : Expr}
    (hop : op.shortCircuits) {program : Bound.Program}
    (h : (Expr.binary op lhs rhs).IsEmitted s (Op.Of program.code) n start stop) :
    ∃ c : Connection, c.join = stop ∧ lhs.IsEmitted s (Op.Of program.code) n start c.tested ∧
      rhs.IsEmitted s (Op.Of program.code) n c.entered c.retested ∧
      Connection.Realizes program s (.binary op lhs rhs) c := by
  obtain ⟨v, b, hbind, hcode, hstop⟩ := h
  obtain ⟨b₁, b₂, hlhs, hrhs, hb⟩ := bindExpr_binary.mp hbind
  obtain ⟨connective, hconnective⟩ := BinaryOp.exists_connective hop
  rw [hconnective] at hb
  obtain rfl : .connect connective b₁ b₂ = b := hb
  obtain ⟨hcode₁, -, hcode₂, -⟩ := Bound.Expr.each_connect.mp hcode
  exact ⟨⟨start, n, connective, b₁, b₂⟩, hstop, ⟨v, b₁, hlhs, hcode₁, rfl⟩,
    ⟨v, b₂, hrhs, hcode₂, rfl⟩, v, op, lhs, rhs, rfl, hconnective, hlhs, hrhs, hcode⟩

end Exprs

section LineUps

variable {program : Bound.Program} {s : Signatures}

mutual

/-- The connectives in an expression line up in its code. -/
theorem Expr.IsEmitted.exists_lineUp : (expr : Expr) → {n lo hi : Nat} →
    expr.IsEmitted s (Op.Of program.code) n lo hi →
    ∃ cs, LineUp (Connection.Realizes program s) Connection.join lo hi expr.connectives cs
  | .var _, _, _, _, _ => ⟨[], .nil ..⟩
  | .number _, _, _, _, _ => ⟨[], .nil ..⟩
  | .string _, _, _, _, _ => ⟨[], .nil ..⟩
  | .array items, _, _, _, h => by
    obtain ⟨_, hitems, hhi⟩ := h.array
    obtain ⟨cs, hcs⟩ := Expr.AreEmitted.exists_lineUp items hitems
    exact ⟨cs, hcs.widen (Nat.le_refl _) hhi⟩
  | .index base position, _, _, _, h => by
    obtain ⟨_, _, hbase, hposition, hhi⟩ := h.index
    obtain ⟨cs, hcs⟩ := Expr.IsEmitted.exists_lineUp base hbase
    obtain ⟨cs', hcs'⟩ := Expr.IsEmitted.exists_lineUp position hposition
    exact ⟨cs ++ cs', (hcs.append hcs' hbase.le hposition.le).widen (Nat.le_refl _) hhi⟩
  | .call _ args, _, _, _, h => by
    obtain ⟨_, hargs, hhi⟩ := h.call
    obtain ⟨cs, hcs⟩ := Expr.AreEmitted.exists_lineUp args hargs
    exact ⟨cs, hcs.widen (Nat.le_refl _) hhi⟩
  | .method object _ args, _, _, _, h => by
    obtain ⟨_, _, hobject, hargs, hhi⟩ := h.method
    obtain ⟨cs, hcs⟩ := Expr.IsEmitted.exists_lineUp object hobject
    obtain ⟨cs', hcs'⟩ := Expr.AreEmitted.exists_lineUp args hargs
    exact ⟨cs ++ cs', (hcs.append hcs' hobject.le hargs.le).widen (Nat.le_refl _) hhi⟩
  | .unary _ operand, _, _, _, h => by
    obtain ⟨_, hoperand, hhi⟩ := h.unary
    obtain ⟨cs, hcs⟩ := Expr.IsEmitted.exists_lineUp operand hoperand
    exact ⟨cs, hcs.widen (Nat.le_refl _) hhi⟩
  | .binary op lhs rhs, _, lo, hi, h => by
    rw [Expr.connectives]
    cases hop : op.shortCircuits with
    | false =>
      obtain ⟨_, _, hlhs, hrhs, hhi⟩ := h.strict hop
      obtain ⟨cs, hcs⟩ := Expr.IsEmitted.exists_lineUp lhs hlhs
      obtain ⟨cs', hcs'⟩ := Expr.IsEmitted.exists_lineUp rhs hrhs
      rw [if_neg Bool.false_ne_true, List.append_nil]
      exact ⟨cs ++ cs', (hcs.append hcs' hlhs.le hrhs.le).widen (Nat.le_refl _) hhi⟩
    | true =>
      obtain ⟨c, rfl, hlhs, hrhs, hc⟩ := h.connect hop
      obtain ⟨cs, hcs⟩ := Expr.IsEmitted.exists_lineUp lhs hlhs
      obtain ⟨cs', hcs'⟩ := Expr.IsEmitted.exists_lineUp rhs hrhs
      have hjoin : c.retested < c.join := by
        rw [c.join_eq]
        omega
      have hentered : c.tested ≤ c.entered := Nat.le_succ _
      have hlast := hcs'.append (.singleton hc hjoin (Nat.le_refl _)) hrhs.le (Nat.le_of_lt hjoin)
      rw [if_pos rfl]
      exact ⟨cs ++ (cs' ++ [c]), hcs.append (hlast.widen hentered (Nat.le_refl _)) hlhs.le
        (Nat.le_trans hentered (Nat.le_trans hrhs.le (Nat.le_of_lt hjoin)))⟩
termination_by structural expr => expr

/-- The connectives in expressions line up in their code. -/
theorem Expr.AreEmitted.exists_lineUp : (exprs : List Expr) → {n lo hi : Nat} →
    Expr.AreEmitted s (Op.Of program.code) n lo hi exprs →
    ∃ cs, LineUp (Connection.Realizes program s) Connection.join lo hi (Expr.connectivesOf exprs) cs
  | [], _, _, _, _ => ⟨[], .nil ..⟩
  | expr :: rest, _, _, _, h => by
    obtain ⟨_, hexpr, hrest⟩ := h.cons
    obtain ⟨cs, hcs⟩ := Expr.IsEmitted.exists_lineUp expr hexpr
    obtain ⟨cs', hcs'⟩ := Expr.AreEmitted.exists_lineUp rest hrest
    exact ⟨cs ++ cs', hcs.append hcs' hexpr.le hrest.le⟩
termination_by structural exprs => exprs

end

/-- The connectives on the left side of an assignment line up in the code that stores into it. -/
theorem bindTarget_exists_lineUp {v : Visible} :
    (target : Expr) → {t : Bound.Target} → {n lo : Nat} →
    bindTarget s v target = .ok t → Op.Each (Op.Of program.code) lo (t.code lo n) →
    ∃ cs, LineUp (Connection.Realizes program s) Connection.join lo
      (lo + t.storeSize) target.storedConnectives cs
  | .index base position, t, n, lo, hbind, hcode => by
    obtain ⟨t, b, hbase, hposition, rfl⟩ := bindTarget_index.mp hbind
    obtain ⟨hread, hcode₁, -, hcode₂⟩ := Bound.Target.each_element.mp hcode
    obtain ⟨cs, hcs⟩ := Expr.IsEmitted.exists_lineUp base
      ⟨v, t.read, bindTarget_read hbase, hread, rfl⟩
    obtain ⟨cs', hcs'⟩ := Expr.IsEmitted.exists_lineUp position ⟨v, b, hposition, hcode₁, rfl⟩
    obtain ⟨cs'', hcs''⟩ := bindTarget_exists_lineUp base hbase hcode₂
    rw [Bound.Target.add_storeSize_element]
    have hrest := hcs'.append (hcs''.widen (Nat.le_succ _) (Nat.le_refl _))
      (Nat.le_add_right _ _) (by omega)
    exact ⟨cs ++ (cs' ++ cs''), hcs.append hrest (Nat.le_add_right _ _) (by omega)⟩
  | .var _, _, _, _, _, _ => ⟨[], .nil ..⟩
  | .number _, _, _, _, _, _ => ⟨[], .nil ..⟩
  | .string _, _, _, _, _, _ => ⟨[], .nil ..⟩
  | .array _, _, _, _, _, _ => ⟨[], .nil ..⟩
  | .call _ _, _, _, _, _, _ => ⟨[], .nil ..⟩
  | .method _ _ _, _, _, _, _, _ => ⟨[], .nil ..⟩
  | .unary _ _, _, _, _, _, _ => ⟨[], .nil ..⟩
  | .binary _ _ _, _, _, _, _, _ => ⟨[], .nil ..⟩

/-- The connectives in an assignment line up in its code. -/
theorem Stmt.IsEmitted.assign_exists_lineUp {around : Surroundings} {target value : Expr}
    {here : Point} {lo : Nat} {b : Bound.Stmt}
    (h : (Stmt.assign target value).IsEmitted around (Op.Of program.code) here lo b) :
    ∃ cs, LineUp (Connection.Realizes program around.signatures) Connection.join lo
      (lo + b.opening) (value.connectives ++ target.storedConnectives) cs := by
  obtain ⟨inLoop, v, v', exits, -, -, hbind, hcode⟩ := h
  obtain ⟨-, b, t, hvalue, htarget, hr⟩ := bindStmt_assign.mp hbind
  obtain ⟨rfl, -⟩ := Prod.mk.inj hr
  obtain ⟨hcode₁, hcode₂⟩ := Bound.Stmt.each_store.mp hcode
  obtain ⟨cs, hcs⟩ := Expr.IsEmitted.exists_lineUp value ⟨v, b, hvalue, hcode₁, rfl⟩
  obtain ⟨cs', hcs'⟩ := bindTarget_exists_lineUp target htarget hcode₂
  rw [Bound.Stmt.opening_store, Bound.Stmt.add_size_store]
  exact ⟨cs ++ cs', hcs.append hcs' (Nat.le_add_right _ _) (Nat.le_add_right _ _)⟩

/-- The connectives in the expression that a statement starts with line up in its code. -/
theorem Stmt.IsEmitted.head_exists_lineUp {around : Surroundings} {stmt : Stmt} {here : Point}
    {lo : Nat} {b : Bound.Stmt} (h : stmt.IsEmitted around (Op.Of program.code) here lo b) :
    ∃ cs, LineUp (Connection.Realizes program around.signatures) Connection.join lo
      (lo + b.opening) (stmt.head?.toList.flatMap Expr.connectives) cs := by
  cases hexpr : stmt.head? with
  | none => exact ⟨[], .nil ..⟩
  | some expr =>
    obtain ⟨stop, hemitted, hstop⟩ := h.head hexpr
    obtain ⟨cs, hcs⟩ := hemitted.exists_lineUp
    rw [Option.toList_some, List.flatMap_singleton]
    exact ⟨cs, hcs.widen (Nat.le_refl _) hstop⟩

end LineUps

/-- What a statement has of its own are the connectives of its expressions. -/
theorem gathersInto_connectives (program : Bound.Program) (s : Signatures) :
    GathersInto (fun site => site.2.ownConnectives) (Connection.Realizes program s) Connection.join
      s (Op.Of program.code) := by
  rintro around here start b stmt rfl hstmt
  cases stmt with
  | assign target value => exact hstmt.assign_exists_lineUp
  | _ => exact hstmt.head_exists_lineUp

/-- The connectives of a program that is bound line up in its code. -/
theorem bind_connectives_lineUp {p : Program} {program : Bound.Program} (h : p.bind = .ok program) :
    ∃ s cs, Signatures.ofProgram p = .ok s ∧
      LineUp (Connection.Realizes program s) Connection.join 0 program.toUnit.code.size
        p.connectives cs := by
  rw [Program.connectives, ← p.map_sites, List.flatMap_map]
  exact bind_lineUp h (gathersInto_connectives program)

end HostScript
