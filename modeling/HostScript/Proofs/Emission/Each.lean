import HostScript.Proofs.Emission.Code

/-!
# The code of a tree, part by part

For each kind of expression and statement, what holds of every operation of its code holds of the
code of its parts and of the operations around them, each at its offset; and the offset behind its
code follows from those of its parts. Later modules read code through these statements only.
-/

namespace HostScript

namespace Bound

variable {P : Nat → Op → Prop} {start n : Nat}

section Exprs

@[simp] theorem Expr.each_void :
    Op.Each P start (Expr.void.code start n) ↔ P start (.plain n .pushVoid) := by
  simp [Expr.code]

@[simp] theorem Expr.each_number {value : Float} :
    Op.Each P start ((Expr.number value).code start n) ↔
      P start (.plain n (.pushNumber value)) := by
  simp [Expr.code]

@[simp] theorem Expr.each_string {value : String} :
    Op.Each P start ((Expr.string value).code start n) ↔ P start (.named n value .pushString) := by
  simp [Expr.code]

@[simp] theorem Expr.each_load {p : Place} :
    Op.Each P start ((Expr.load p).code start n) ↔ P start (p.loadOp n) := by
  simp [Expr.code]

@[simp] theorem Expr.each_index {base position : Expr} :
    Op.Each P start ((Expr.index base position).code start n) ↔
      Op.Each P start (base.code start n) ∧
      Op.Each P (start + base.size) (position.code (start + base.size) (n + 1)) ∧
      P (start + base.size + position.size) (.plain (n + 2) .loadIndex) := by
  simp [Expr.code]

@[simp] theorem Expr.each_array {items : List Expr} :
    Op.Each P start ((Expr.array items).code start n) ↔
      Op.Each P start (Expr.codes start n items) ∧
      P (start + Expr.sizes 0 items) (.plain (n + items.length) (.makeArray items.length)) := by
  simp [Expr.code]

@[simp] theorem Expr.each_callScript {function : Nat} {args : List Expr} :
    Op.Each P start ((Expr.callScript function args).code start n) ↔
      Op.Each P start (Expr.codes start n args) ∧
      P (start + Expr.sizes 0 args)
        (.plain (n + args.length) (.callScript function args.length)) := by
  simp [Expr.code]

@[simp] theorem Expr.each_callNative {name : String} {args : List Expr} :
    Op.Each P start ((Expr.callNative name args).code start n) ↔
      Op.Each P start (Expr.codes start n args) ∧
      P (start + Expr.sizes 0 args)
        (.named (n + args.length) name (.callNative · args.length)) := by
  simp [Expr.code]

@[simp] theorem Expr.each_callMethod {object : Expr} {name : String} {args : List Expr} :
    Op.Each P start ((Expr.callMethod object name args).code start n) ↔
      Op.Each P start (object.code start n) ∧
      Op.Each P (start + object.size) (Expr.codes (start + object.size) (n + 1) args) ∧
      P (start + object.size + Expr.sizes 0 args)
        (.named (n + 1 + args.length) name (.callMethod · args.length)) := by
  simp [Expr.code]

@[simp] theorem Expr.each_unary {op : UnaryOp} {operand : Expr} :
    Op.Each P start ((Expr.unary op operand).code start n) ↔
      Op.Each P start (operand.code start n) ∧ P (start + operand.size)
        (.plain (n + 1) (.unary op)) := by
  simp [Expr.code]

@[simp] theorem Expr.each_strict {op : BinaryOp} {lhs rhs : Expr} :
    Op.Each P start ((Expr.strict op lhs rhs).code start n) ↔
      Op.Each P start (lhs.code start n) ∧
      Op.Each P (start + lhs.size) (rhs.code (start + lhs.size) (n + 1)) ∧
      P (start + lhs.size + rhs.size) (.plain (n + 2) (.binary op)) := by
  simp [Expr.code]

/-- A connective jumps behind its right operand twice: before it and after it. -/
@[simp] theorem Expr.each_connect {op : Connective} {lhs rhs : Expr} :
    Op.Each P start ((Expr.connect op lhs rhs).code start n) ↔
      Op.Each P start (lhs.code start n) ∧
      P (start + lhs.size)
        (.plain (n + 1) (Emitter.skip op (start + lhs.size + 1 + rhs.size + 3))) ∧
      Op.Each P (start + lhs.size + 1) (rhs.code (start + lhs.size + 1) n) ∧
      P (start + lhs.size + 1 + rhs.size)
        (.plain (n + 1) (Emitter.skip op (start + lhs.size + 1 + rhs.size + 3))) ∧
      P (start + lhs.size + 1 + rhs.size + 1) (.plain n (.pushBool (Emitter.undecided op))) ∧
      P (start + lhs.size + 1 + rhs.size + 2)
        (.plain (n + 1) (.jump (start + lhs.size + 1 + rhs.size + 4))) ∧
      P (start + lhs.size + 1 + rhs.size + 3) (.plain n (.pushBool !(Emitter.undecided op))) := by
  have hdecided : start + lhs.size + rhs.size + 4 = start + lhs.size + 1 + rhs.size + 3 := by omega
  simp [Expr.code, hdecided]

@[simp] theorem Expr.each_codes_cons {x : Expr} {xs : List Expr} :
    Op.Each P start (Expr.codes start n (x :: xs)) ↔
      Op.Each P start (x.code start n) ∧
        Op.Each P (start + x.size) (Expr.codes (start + x.size) (n + 1) xs) := by
  simp [Expr.codes]

@[simp] theorem Target.each_place {p : Place} :
    Op.Each P start ((Target.place p).code start n) ↔ P start (p.storeOp (n + 1)) := by
  simp [Target.code]

@[simp] theorem Target.each_element {base : Target} {position : Expr} :
    Op.Each P start ((Target.element base position).code start n) ↔
      Op.Each P start (base.read.code start (n + 1)) ∧
      Op.Each P (start + base.read.size) (position.code (start + base.read.size) (n + 2)) ∧
      P (start + base.read.size + position.size) (.plain (n + 3) .storeIndex) ∧
      Op.Each P (start + base.read.size + position.size + 1)
        (base.code (start + base.read.size + position.size + 1) n) := by
  simp [Target.code]

end Exprs

section Stmts

variable {exits : Exits}

@[simp] theorem Stmt.each_store {target : Target} {value : Expr} :
    Op.Each P start ((Stmt.store target value).code exits start) ↔
      Op.Each P start (value.code start 0) ∧
        Op.Each P (start + value.size) (target.code (start + value.size) 0) := by
  simp [Stmt.code]

@[simp] theorem Stmt.each_returnVoid :
    Op.Each P start (Stmt.returnVoid.code exits start) ↔ P start (.plain 0 .returnVoid) := by
  simp [Stmt.code]

@[simp] theorem Stmt.each_returnValue {value : Expr} :
    Op.Each P start ((Stmt.returnValue value).code exits start) ↔
      Op.Each P start (value.code start 0) ∧ P (start + value.size) (.plain 1 .returnValue) := by
  simp [Stmt.code]

@[simp] theorem Stmt.each_discard {value : Expr} :
    Op.Each P start ((Stmt.discard value).code exits start) ↔
      Op.Each P start (value.code start 0) ∧ P (start + value.size) (.plain 1 .pop) := by
  simp [Stmt.code]

@[simp] theorem Stmt.each_whileLoop {condition : Expr} {body : Stmt} :
    Op.Each P start ((Stmt.whileLoop condition body).code exits start) ↔
      Op.Each P start (condition.code start 0) ∧
      P (start + condition.size)
        (.plain 1 (.jumpIfFalse (start + condition.size + 1 + body.size + 1))) ∧
      Op.Each P (start + condition.size + 1)
        (body.code ⟨start + condition.size + 1 + body.size + 1, start⟩
          (start + condition.size + 1)) ∧
      P (start + condition.size + 1 + body.size) (.plain 0 (.jump start)) := by
  have hexit : start + condition.size + body.size + 2 =
      start + condition.size + 1 + body.size + 1 := by omega
  simp [Stmt.code, hexit]

@[simp] theorem Stmt.each_forLoop {array cursor item : Nat} {source : Expr} {body : Stmt} :
    Op.Each P start ((Stmt.forLoop array cursor item source body).code exits start) ↔
      Op.Each P start (source.code start 0) ∧
      P (start + source.size) (.plain 1 (.storeLocal array)) ∧
      P (start + source.size + 1) (.plain 0 (.pushNumber 0.0)) ∧
      P (start + source.size + 2) (.plain 1 (.storeLocal cursor)) ∧
      P (start + source.size + 3)
        (.plain 0 (.iterNext array cursor (start + source.size + 5 + body.size + 1))) ∧
      P (start + source.size + 4) (.plain 1 (.storeLocal item)) ∧
      Op.Each P (start + source.size + 5)
        (body.code ⟨start + source.size + 5 + body.size + 1, start + source.size + 3⟩
          (start + source.size + 5)) ∧
      P (start + source.size + 5 + body.size) (.plain 0 (.jump (start + source.size + 3))) := by
  have hexit :
      start + source.size + 3 + body.size + 3 = start + source.size + 5 + body.size + 1 := by omega
  simp [Stmt.code, hexit]

@[simp] theorem Stmt.each_ifThen {condition : Expr} {body : Stmt} :
    Op.Each P start ((Stmt.ifThen condition body).code exits start) ↔
      Op.Each P start (condition.code start 0) ∧
      P (start + condition.size)
        (.plain 1 (.jumpIfFalse (start + condition.size + 1 + body.size))) ∧
      Op.Each P (start + condition.size + 1) (body.code exits (start + condition.size + 1)) := by
  have hexit : start + condition.size + body.size + 1 = start + condition.size + 1 + body.size := by
    omega
  simp [Stmt.code, hexit]

@[simp] theorem Stmt.each_ifElse {condition : Expr} {body otherwise : Stmt} :
    Op.Each P start ((Stmt.ifElse condition body otherwise).code exits start) ↔
      Op.Each P start (condition.code start 0) ∧
      P (start + condition.size)
        (.plain 1 (.jumpIfFalse (start + condition.size + 1 + body.size + 1))) ∧
      Op.Each P (start + condition.size + 1) (body.code exits (start + condition.size + 1)) ∧
      P (start + condition.size + 1 + body.size)
        (.plain 0 (.jump (start + condition.size + 1 + body.size + 1 + otherwise.size))) ∧
      Op.Each P (start + condition.size + 1 + body.size + 1)
        (otherwise.code exits (start + condition.size + 1 + body.size + 1)) := by
  have helse : start + condition.size + body.size + 2 =
      start + condition.size + 1 + body.size + 1 := by omega
  simp [Stmt.code, helse]

@[simp] theorem Stmt.each_block {statements : List Stmt} :
    Op.Each P start ((Stmt.block statements).code exits start) ↔
      Op.Each P start (Stmt.codes exits start statements) := by
  simp [Stmt.code]

@[simp] theorem Stmt.each_breakLoop :
    Op.Each P start (Stmt.breakLoop.code exits start) ↔
      P start (.plain 0 (.jump exits.breakTo)) := by
  simp [Stmt.code]

@[simp] theorem Stmt.each_continueLoop :
    Op.Each P start (Stmt.continueLoop.code exits start) ↔
      P start (.plain 0 (.jump exits.continueTo)) := by
  simp [Stmt.code]

@[simp] theorem Stmt.each_codes_cons {stmt : Stmt} {rest : List Stmt} :
    Op.Each P start (Stmt.codes exits start (stmt :: rest)) ↔
      Op.Each P start (stmt.code exits start) ∧
      Op.Each P (start + stmt.size) (Stmt.codes exits (start + stmt.size) rest) := by
  simp [Stmt.codes]

/-- A body is its statements and a return of void, at which its exits point. -/
@[simp] theorem Body.each_code {b : Body} :
    Op.Each P start (b.code start) ↔
      Op.Each P start
        (Stmt.codes ⟨start + Stmt.sizes 0 b.statements, start + Stmt.sizes 0 b.statements⟩ start
          b.statements) ∧
      P (start + Stmt.sizes 0 b.statements) (.plain 0 .returnVoid) := by
  simp [Body.code, Stmt.sizes_eq_add start]

end Stmts

section Ends

-- The offset behind the code of a tree, counted from its start part by part.

variable {base position object operand lhs rhs condition source value : Expr}
  {items args : List Expr} {target : Target} {body otherwise : Stmt} {rest : List Stmt}

theorem Expr.add_size_index :
    start + (Expr.index base position).size = start + base.size + position.size + 1 := by
  rw [Expr.size]
  omega

theorem Expr.add_size_array : start + (Expr.array items).size = start + Expr.sizes 0 items + 1 := by
  rw [Expr.size, Expr.sizes_eq_add]
  omega

theorem Expr.add_size_callScript {function : Nat} :
    start + (Expr.callScript function args).size = start + Expr.sizes 0 args + 1 := by
  rw [Expr.size, Expr.sizes_eq_add]
  omega

theorem Expr.add_size_callNative {name : String} :
    start + (Expr.callNative name args).size = start + Expr.sizes 0 args + 1 := by
  rw [Expr.size, Expr.sizes_eq_add]
  omega

theorem Expr.add_size_callMethod {name : String} :
    start + (Expr.callMethod object name args).size =
      start + object.size + Expr.sizes 0 args + 1 := by
  rw [Expr.size, Expr.sizes_eq_add]
  omega

theorem Expr.add_size_unary {op : UnaryOp} :
    start + (Expr.unary op operand).size = start + operand.size + 1 :=
  rfl

theorem Expr.add_size_strict {op : BinaryOp} :
    start + (Expr.strict op lhs rhs).size = start + lhs.size + rhs.size + 1 := by
  rw [Expr.size]
  omega

theorem Expr.add_size_connect {op : Connective} :
    start + (Expr.connect op lhs rhs).size = start + lhs.size + 1 + rhs.size + 4 := by
  rw [Expr.size]
  omega

theorem Expr.add_sizes_cons :
    start + Expr.sizes 0 (value :: items) = start + value.size + Expr.sizes 0 items := by
  rw [Expr.sizes, Expr.sizes_eq_add]
  omega

theorem Target.add_storeSize_element {base : Target} :
    start + (Target.element base position).storeSize =
      start + base.read.size + position.size + 1 + base.storeSize := by
  rw [Target.storeSize]
  omega

theorem Stmt.add_size_store :
    start + (Stmt.store target value).size = start + value.size + target.storeSize := by
  rw [Stmt.size]
  omega

theorem Stmt.add_size_whileLoop :
    start + (Stmt.whileLoop condition body).size = start + condition.size + 1 + body.size + 1 := by
  rw [Stmt.size]
  omega

theorem Stmt.add_size_forLoop {array cursor item : Nat} :
    start + (Stmt.forLoop array cursor item source body).size =
      start + source.size + 5 + body.size + 1 := by
  rw [Stmt.size]
  omega

theorem Stmt.add_size_ifThen :
    start + (Stmt.ifThen condition body).size = start + condition.size + 1 + body.size := by
  rw [Stmt.size]
  omega

theorem Stmt.add_size_ifElse :
    start + (Stmt.ifElse condition body otherwise).size =
      start + condition.size + 1 + body.size + 1 + otherwise.size := by
  rw [Stmt.size]
  omega

theorem Stmt.add_sizes_cons :
    start + Stmt.sizes 0 (body :: rest) = start + body.size + Stmt.sizes 0 rest := by
  rw [Stmt.sizes, Stmt.sizes_eq_add]
  omega

end Ends

end Bound

end HostScript
