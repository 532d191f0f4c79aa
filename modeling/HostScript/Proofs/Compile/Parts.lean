import HostScript.Proofs.Compile.Resolution

/-!
# Every statement has its code

Binding and emission go through a program statement by statement. So each statement of a program
that compiles, however deep it stands in others, is bound to a statement of its own, whose code
stands somewhere in the unit. The scopes that it is bound in are those of the point where it stands.
-/

namespace HostScript

/-- Whether an operation stands at an offset of some code. -/
def Op.Of (all : List Op) (pc : Nat) (op : Op) : Prop :=
  all[pc]? = some op

theorem Op.each_of (all : List Op) : Op.Each (Op.Of all) 0 all := by
  intro k op hop
  rwa [Op.Of, Nat.zero_add]

/-- What holds of some code holds of a part of it. -/
theorem Op.Each.part {P : Nat → Op → Prop} {all ops : List Op} {start : Nat} (h : Op.Each P 0 all)
    (hpart : Op.Each (Op.Of all) start ops) : Op.Each P start ops := by
  intro k op hop
  have hall := h (start + k) op (hpart k op hop)
  rwa [Nat.zero_add] at hall

/-- Whether a statement at a point is bound to a statement with code from an offset on, of which a
property holds. -/
def Stmt.IsEmitted (around : Surroundings) (P : Nat → Op → Prop) (here : Point) (start : Nat)
    (b : Bound.Stmt) (stmt : Stmt) : Prop :=
  ∃ inLoop v v' exits, v.Matches around.signatures here ∧ v.scopes.Sound ∧
    bindStmt around inLoop v stmt = .ok (b, v') ∧ Op.Each P start (b.code exits start)

/-- Whether statements of one scope, the first of them at a point, are bound to statements with code
from an offset on, of which a property holds. None of them declares a script global. -/
def Stmt.AreEmitted (around : Surroundings) (P : Nat → Op → Prop) (here : Point) (start : Nat)
    (bs : List Bound.Stmt) (statements : List Stmt) : Prop :=
  ∃ inLoop v v' exits, v.Matches around.signatures (here.expect (declaredNames statements)) ∧
    (∀ name, around.global? v name = none) ∧ v.scopes.Sound ∧
    bindStmts around inLoop [] v statements = .ok (bs, v') ∧
    Op.Each P start (Bound.Stmt.codes exits start bs)

/-- Whether an expression is bound, to code between two offsets, on top of some operands, of which a
property holds. -/
def Expr.IsEmitted (s : Signatures) (P : Nat → Op → Prop) (n start stop : Nat) (expr : Expr) :
    Prop :=
  ∃ v b, bindExpr s v expr = .ok b ∧ Op.Each P start (b.code start n) ∧ start + b.size = stop

theorem Expr.IsEmitted.le {s : Signatures} {P : Nat → Op → Prop} {n start stop : Nat} {expr : Expr}
    (h : expr.IsEmitted s P n start stop) : start ≤ stop := by
  obtain ⟨v, b, -, -, rfl⟩ := h
  exact Nat.le_add_right start b.size

/-- The number of instructions of a statement before those of the statements inside it. -/
def Bound.Stmt.opening : Bound.Stmt → Nat
  | .whileLoop condition _ | .ifThen condition _ | .ifElse condition _ _ => condition.size + 1
  | .forLoop _ _ _ source _ => source.size + 5
  | .block _ => 0
  | stmt => stmt.size

theorem Bound.Stmt.opening_store {target : Bound.Target} {value : Bound.Expr} :
    (Bound.Stmt.store target value).opening = (Bound.Stmt.store target value).size :=
  rfl

theorem Bound.Stmt.opening_le (b : Bound.Stmt) : b.opening ≤ b.size := by
  cases b with
  | whileLoop | forLoop | ifThen | ifElse | block =>
    rw [opening, size]
    omega
  | _ => exact Nat.le_refl _

/-- The expression that a statement evaluates before the statements inside it, if it is not an
assignment. -/
def Stmt.head? : Stmt → Option Expr
  | .returnValue value | .discard value => some value
  | .whileLoop condition _ | .ifThen condition _ | .ifElse condition _ _ => some condition
  | .forLoop _ source _ => some source
  | .declare _ initial => initial
  | .assign _ _ | .block _ | .returnVoid | .breakLoop | .continueLoop => none

namespace Stmt.IsEmitted

variable {around : Surroundings} {P : Nat → Op → Prop} {here : Point} {start : Nat}
  {condition source : Expr} {name : String} {b : Bound.Stmt} {stmt body otherwise : Stmt}
  {statements : List Stmt}

theorem whileLoop (h : (Stmt.whileLoop condition body).IsEmitted around P here start b) :
    ∃ b₁ b₂, b = .whileLoop b₁ b₂ ∧
      body.IsEmitted around P here.enter (start + b₁.size + 1) b₂ := by
  obtain ⟨inLoop, v, v', exits, hmatches, hsound, hbind, hcode⟩ := h
  obtain ⟨b₁, b₂, v₂, -, hbody, hr⟩ := bindStmt_whileLoop.mp hbind
  obtain ⟨rfl, -⟩ := Prod.mk.inj hr
  obtain ⟨-, -, hcode, -⟩ := Bound.Stmt.each_whileLoop.mp hcode
  exact ⟨b₁, b₂, rfl, true, v.enter, v₂, _, hmatches.enter, hsound.enter, hbody, hcode⟩

theorem forLoop (h : (Stmt.forLoop name source body).IsEmitted around P here start b) :
    ∃ array cursor item b₁ b₂, b = .forLoop array cursor item b₁ b₂ ∧
      body.IsEmitted around P (here.forHeader name).enter (start + b₁.size + 5) b₂ := by
  obtain ⟨inLoop, v, v', exits, hmatches, hsound, hbind, hcode⟩ := h
  obtain ⟨b₁, b₂, v₂, -, hlimit, hbody, hr⟩ := bindStmt_forLoop.mp hbind
  obtain ⟨rfl, -⟩ := Prod.mk.inj hr
  obtain ⟨-, -, -, -, -, -, hcode, -⟩ := Bound.Stmt.each_forLoop.mp hcode
  have hheader := (Visible.proceeds_forHeader name hlimit).sound hsound.enter
  exact ⟨_, _, _, b₁, b₂, rfl, true, (v.forHeader name).enter, v₂, _,
    (hmatches.forHeader name).enter, hheader.enter, hbody, hcode⟩

theorem ifThen (h : (Stmt.ifThen condition body).IsEmitted around P here start b) :
    ∃ b₁ b₂, b = .ifThen b₁ b₂ ∧ body.IsEmitted around P here.enter (start + b₁.size + 1) b₂ := by
  obtain ⟨inLoop, v, v', exits, hmatches, hsound, hbind, hcode⟩ := h
  obtain ⟨b₁, b₂, v₂, -, hbody, hr⟩ := bindStmt_ifThen.mp hbind
  obtain ⟨rfl, -⟩ := Prod.mk.inj hr
  obtain ⟨-, -, hcode⟩ := Bound.Stmt.each_ifThen.mp hcode
  exact ⟨b₁, b₂, rfl, inLoop, v.enter, v₂, _, hmatches.enter, hsound.enter, hbody, hcode⟩

theorem ifElse (h : (Stmt.ifElse condition body otherwise).IsEmitted around P here start b) :
    ∃ b₁ b₂ b₃, b = .ifElse b₁ b₂ b₃ ∧
      body.IsEmitted around P here.enter (start + b₁.size + 1) b₂ ∧
      otherwise.IsEmitted around P here.enter (start + b₁.size + 1 + b₂.size + 1) b₃ := by
  obtain ⟨inLoop, v, v', exits, hmatches, hsound, hbind, hcode⟩ := h
  obtain ⟨b₁, b₂, v₂, b₃, v₃, -, hbody, hotherwise, hr⟩ := bindStmt_ifElse.mp hbind
  obtain ⟨rfl, -⟩ := Prod.mk.inj hr
  obtain ⟨-, -, hcode, -, hcode'⟩ := Bound.Stmt.each_ifElse.mp hcode
  -- The second branch is bound after the first, which leaves only a higher peak behind.
  have hproceeds := bindStmt_proceeds around inLoop v.enter v₂ body b₂ hbody
  have hmatches' := (hmatches.rises hproceeds.rises_leave).enter
  exact ⟨b₁, b₂, b₃, rfl,
    ⟨inLoop, v.enter, v₂, _, hmatches.enter, hsound.enter, hbody, hcode⟩,
    ⟨inLoop, v₂.leave.enter, v₃, _, hmatches', (hproceeds.leave.sound hsound).enter, hotherwise,
      hcode'⟩⟩

theorem block (h : (Stmt.block statements).IsEmitted around P here start b) :
    ∃ bs, b = .block bs ∧ Stmt.AreEmitted around P here.enter start bs statements := by
  obtain ⟨inLoop, v, v', exits, hmatches, hsound, hbind, hcode⟩ := h
  obtain ⟨bs, v₂, hbody, hr⟩ := bindStmt_block.mp hbind
  obtain ⟨rfl, -⟩ := Prod.mk.inj hr
  have hannounced : (v.enter.announceAll statements).scopes.Sound :=
    (Visible.proceeds_announceAll statements).sound hsound.enter
  exact ⟨bs, rfl, inLoop, _, v₂, _, hmatches.block statements, global?_block around v statements,
    hannounced, hbody, Bound.Stmt.each_block.mp hcode⟩

/-- The expression that a statement starts with has its code at the start of the statement. -/
theorem head (h : stmt.IsEmitted around P here start b) {expr : Expr}
    (hexpr : stmt.head? = some expr) :
    ∃ stop, expr.IsEmitted around.signatures P 0 start stop ∧ stop ≤ start + b.opening := by
  obtain ⟨inLoop, v, v', exits, -, -, hbind, hcode⟩ := h
  cases stmt with
  | returnValue value =>
    obtain rfl : value = expr := Option.some.inj hexpr
    obtain ⟨b, hvalue, hr⟩ := bindStmt_returnValue.mp hbind
    obtain ⟨rfl, -⟩ := Prod.mk.inj hr
    exact ⟨_, ⟨v, b, hvalue, (Bound.Stmt.each_returnValue.mp hcode).1, rfl⟩, Nat.le_succ _⟩
  | discard value =>
    obtain rfl : value = expr := Option.some.inj hexpr
    obtain ⟨b, hvalue, hr⟩ := bindStmt_discard.mp hbind
    obtain ⟨rfl, -⟩ := Prod.mk.inj hr
    exact ⟨_, ⟨v, b, hvalue, (Bound.Stmt.each_discard.mp hcode).1, rfl⟩, Nat.le_succ _⟩
  | whileLoop condition body =>
    obtain rfl : condition = expr := Option.some.inj hexpr
    obtain ⟨b₁, b₂, v₂, hcondition, -, hr⟩ := bindStmt_whileLoop.mp hbind
    obtain ⟨rfl, -⟩ := Prod.mk.inj hr
    exact ⟨_, ⟨v, b₁, hcondition, (Bound.Stmt.each_whileLoop.mp hcode).1, rfl⟩, Nat.le_succ _⟩
  | ifThen condition body =>
    obtain rfl : condition = expr := Option.some.inj hexpr
    obtain ⟨b₁, b₂, v₂, hcondition, -, hr⟩ := bindStmt_ifThen.mp hbind
    obtain ⟨rfl, -⟩ := Prod.mk.inj hr
    exact ⟨_, ⟨v, b₁, hcondition, (Bound.Stmt.each_ifThen.mp hcode).1, rfl⟩, Nat.le_succ _⟩
  | ifElse condition body otherwise =>
    obtain rfl : condition = expr := Option.some.inj hexpr
    obtain ⟨b₁, b₂, v₂, b₃, v₃, hcondition, -, -, hr⟩ := bindStmt_ifElse.mp hbind
    obtain ⟨rfl, -⟩ := Prod.mk.inj hr
    exact ⟨_, ⟨v, b₁, hcondition, (Bound.Stmt.each_ifElse.mp hcode).1, rfl⟩, Nat.le_succ _⟩
  | forLoop name source body =>
    obtain rfl : source = expr := Option.some.inj hexpr
    obtain ⟨b₁, b₂, v₂, hsource, -, -, hr⟩ := bindStmt_forLoop.mp hbind
    obtain ⟨rfl, -⟩ := Prod.mk.inj hr
    exact ⟨_, ⟨v, b₁, hsource, (Bound.Stmt.each_forLoop.mp hcode).1, rfl⟩, Nat.le_add_right _ 5⟩
  | declare name initial =>
    obtain rfl : initial = some expr := hexpr
    -- The initial value comes before the store, wherever the variable lives.
    have hstore : ∃ v₁ place b₁, bindExpr around.signatures v₁ expr = .ok b₁ ∧
        b = .store (.place place) b₁ := by
      rw [bindStmt_declare] at hbind
      cases hglobal : around.global? v name with
      | some id =>
        obtain ⟨b₁, hvalue, hr⟩ := (bindDeclaration_global hglobal).mp hbind
        exact ⟨v, .script id, b₁, hvalue, (Prod.mk.inj hr).1.symm⟩
      | none =>
        obtain ⟨b₁, hvalue, -, -, hr⟩ := (bindDeclaration_local hglobal).mp hbind
        exact ⟨v.announce name, .slot v.scopes.next, b₁, hvalue, (Prod.mk.inj hr).1.symm⟩
    obtain ⟨v₁, place, b₁, hvalue, rfl⟩ := hstore
    exact ⟨_, ⟨v₁, b₁, hvalue, (Bound.Stmt.each_store.mp hcode).1, rfl⟩, Nat.le_succ _⟩
  | assign | block | returnVoid | breakLoop | continueLoop => cases hexpr

end Stmt.IsEmitted

theorem Stmt.AreEmitted.cons {around : Surroundings} {P : Nat → Op → Prop} {here : Point}
    {start : Nat} {stmt : Stmt} {rest : List Stmt} {bs : List Bound.Stmt}
    (h : Stmt.AreEmitted around P here start bs (stmt :: rest)) :
    ∃ b bs', bs = b :: bs' ∧
      stmt.IsEmitted around P (here.expect (declaredNames (stmt :: rest))) start b ∧
      Stmt.AreEmitted around P (here.after stmt) (start + b.size) bs' rest := by
  obtain ⟨inLoop, v, v', exits, hmatches, hlocal, hsound, hbind, hcode⟩ := h
  obtain ⟨b, v₁, bs, v₂, hstmt, hrest, hr⟩ := bindStmts_cons.mp hbind
  obtain ⟨rfl, -⟩ := Prod.mk.inj hr
  obtain ⟨hcode, hcode'⟩ := Bound.Stmt.each_codes_cons.mp hcode
  have hproceeds := bindStmt_proceeds around inLoop v v₁ stmt b hstmt
  have hlocal' : ∀ name, around.global? v₁ name = none := fun name =>
    (global?_proceeds hproceeds name).trans (hlocal name)
  have hmatches' := hmatches.after hlocal hstmt (bindStmts_fresh hlocal' hrest)
  exact ⟨b, bs, rfl, ⟨inLoop, v, v₁, exits, hmatches, hsound, hstmt, hcode⟩,
    inLoop, v₁, v₂, exits, hmatches', hlocal', hproceeds.sound hsound, hrest, hcode'⟩

end HostScript
