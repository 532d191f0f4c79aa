import HostScript.Proofs.Emission.Heights

/-!
# Moving code

The code of a tree can stand at any offset. When it is moved, the targets of its jumps move along,
and so must the exits of the loops around it; nothing else in it changes.
-/

namespace HostScript

/-- The instruction with the target of its jump moved. -/
def Instruction.move (d : Nat) : Instruction → Instruction
  | .jump target => .jump (target + d)
  | .jumpIfFalse target => .jumpIfFalse (target + d)
  | .jumpIfTrue target => .jumpIfTrue (target + d)
  | .iterNext array cursor exit => .iterNext array cursor (exit + d)
  | i => i

/-- The operation with the target of its jump moved. Instructions that wait for a
string do not jump. -/
def Op.move (d : Nat) : Op → Op
  | .plain n i => .plain n (i.move d)
  | .named n name i => .named n name i

/-- The exits of a loop that is moved. -/
def Exits.move (d : Nat) (exits : Exits) : Exits where
  breakTo := exits.breakTo + d
  continueTo := exits.continueTo + d

theorem Place.move_loadOp (d n : Nat) (p : Place) : (p.loadOp n).move d = p.loadOp n := by
  cases p <;> rfl

theorem Place.move_storeOp (d n : Nat) (p : Place) : (p.storeOp n).move d = p.storeOp n := by
  cases p <;> rfl

namespace Bound

mutual

/-- The code of an expression can be moved. -/
theorem Expr.code_move (d start n : Nat) :
    (x : Expr) → x.code (start + d) n = (x.code start n).map (Op.move d)
  | .void | .number _ | .string _ => rfl
  | .load p => by simp only [Expr.code, List.map_cons, List.map_nil, Place.move_loadOp]
  | .index base position => by
    rw [Expr.code, Expr.code, Nat.add_right_comm start d, Expr.code_move d start n base,
      Expr.code_move d _ _ position]
    simp [Op.move, Instruction.move]
  | .array items | .callScript _ items | .callNative _ items => by
    rw [Expr.code, Expr.code, Expr.codes_move d start n items]
    simp [Op.move, Instruction.move]
  | .callMethod object _ args => by
    rw [Expr.code, Expr.code, Nat.add_right_comm start d, Expr.code_move d start n object,
      Expr.codes_move d _ _ args]
    simp [Op.move]
  | .unary _ operand => by
    rw [Expr.code, Expr.code, Expr.code_move d start n operand]
    simp [Op.move, Instruction.move]
  | .strict _ lhs rhs => by
    rw [Expr.code, Expr.code, Nat.add_right_comm start d, Expr.code_move d start n lhs,
      Expr.code_move d _ _ rhs]
    simp [Op.move, Instruction.move]
  | .connect op lhs rhs => by
    have hrhs : start + d + lhs.size + 1 = start + lhs.size + 1 + d := by omega
    have hdecided : start + d + lhs.size + rhs.size + 4 = start + lhs.size + rhs.size + 4 + d := by
      omega
    rw [Expr.code, Expr.code, hrhs, hdecided, Expr.code_move d start n lhs,
      Expr.code_move d _ _ rhs]
    cases op <;> simp [Op.move, Instruction.move, Emitter.skip, Nat.add_right_comm _ d 1]
termination_by structural x => x

/-- The code of expressions that stand one after the other can be moved. -/
theorem Expr.codes_move (d start n : Nat) :
    (xs : List Expr) → Expr.codes (start + d) n xs = (Expr.codes start n xs).map (Op.move d)
  | [] => rfl
  | x :: xs => by
    rw [Expr.codes, Expr.codes, Nat.add_right_comm start d, Expr.code_move d start n x,
      Expr.codes_move d _ _ xs, List.map_append]
termination_by structural xs => xs

end

/-- The code that stores into a target can be moved. -/
theorem Target.code_move (d start n : Nat) (t : Target) :
    t.code (start + d) n = (t.code start n).map (Op.move d) := by
  induction t generalizing start with
  | place p => simp only [Target.code, List.map_cons, List.map_nil, Place.move_storeOp]
  | element base position ih =>
    have hposition : start + d + base.read.size = start + base.read.size + d :=
      Nat.add_right_comm ..
    have hbase : start + base.read.size + d + position.size + 1 =
        start + base.read.size + position.size + 1 + d := by
      omega
    rw [Target.code, Target.code, hposition, hbase, ih, Expr.code_move, Expr.code_move]
    simp [Op.move, Instruction.move]

mutual

/-- The code of a statement can be moved, together with the exits of the loop around it. -/
theorem Stmt.code_move (d : Nat) (exits : Exits) (start : Nat) :
    (stmt : Stmt) → stmt.code (exits.move d) (start + d) = (stmt.code exits start).map (Op.move d)
  | .returnVoid | .breakLoop | .continueLoop => rfl
  | .store target value => by
    rw [Stmt.code, Stmt.code, Nat.add_right_comm start d, value.code_move, target.code_move,
      List.map_append]
  | .returnValue value | .discard value => by
    rw [Stmt.code, Stmt.code, value.code_move]
    simp [Op.move, Instruction.move]
  | .whileLoop condition body => by
    have hexit : start + d + condition.size + body.size + 2 =
        start + condition.size + body.size + 2 + d := by omega
    have hbody : start + d + condition.size + 1 = start + condition.size + 1 + d := by omega
    have hmove := Stmt.code_move d ⟨start + condition.size + body.size + 2, start⟩
      (start + condition.size + 1) body
    rw [Exits.move] at hmove
    rw [Stmt.code, Stmt.code, hexit, hbody, hmove, condition.code_move]
    simp [Op.move, Instruction.move]
  | .forLoop array cursor item source body => by
    have hnext : start + d + source.size + 3 = start + source.size + 3 + d := by omega
    have hexit : start + source.size + 3 + d + body.size + 3 =
        start + source.size + 3 + body.size + 3 + d := by omega
    have hbody : start + source.size + 3 + d + 2 = start + source.size + 3 + 2 + d := by omega
    have hmove := Stmt.code_move d ⟨start + source.size + 3 + body.size + 3,
        start + source.size + 3⟩ (start + source.size + 3 + 2) body
    rw [Exits.move] at hmove
    rw [Stmt.code, Stmt.code, hnext, hexit, hbody, hmove, source.code_move]
    simp [Op.move, Instruction.move]
  | .ifThen condition body => by
    have hexit : start + d + condition.size + body.size + 1 =
        start + condition.size + body.size + 1 + d := by omega
    have hbody : start + d + condition.size + 1 = start + condition.size + 1 + d := by omega
    rw [Stmt.code, Stmt.code, hexit, hbody, condition.code_move, Stmt.code_move d exits _ body]
    simp [Op.move, Instruction.move]
  | .ifElse condition body otherwise => by
    have helse : start + d + condition.size + body.size + 2 =
        start + condition.size + body.size + 2 + d := by omega
    have hbody : start + d + condition.size + 1 = start + condition.size + 1 + d := by omega
    have hexit : start + condition.size + body.size + 2 + d + otherwise.size =
        start + condition.size + body.size + 2 + otherwise.size + d := by omega
    rw [Stmt.code, Stmt.code, helse, hbody, hexit, condition.code_move,
      Stmt.code_move d exits _ body, Stmt.code_move d exits _ otherwise]
    simp [Op.move, Instruction.move]
  | .block statements => by rw [Stmt.code, Stmt.code, Stmt.codes_move d exits start statements]
termination_by structural stmt => stmt

/-- The code of statements can be moved, together with the exits of the loop around them. -/
theorem Stmt.codes_move (d : Nat) (exits : Exits) (start : Nat) : (statements : List Stmt) →
    Stmt.codes (exits.move d) (start + d) statements =
      (Stmt.codes exits start statements).map (Op.move d)
  | [] => rfl
  | stmt :: rest => by
    rw [Stmt.codes, Stmt.codes, Nat.add_right_comm start d, Stmt.code_move d exits start stmt,
      Stmt.codes_move d exits _ rest, List.map_append]
termination_by structural statements => statements

end

/-- The code of a body can be moved. It has no exits outside itself. -/
theorem Body.code_move (d start : Nat) (b : Body) :
    b.code (start + d) = (b.code start).map (Op.move d) := by
  have hlast : Stmt.sizes (start + d) b.statements = Stmt.sizes start b.statements + d := by
    rw [Stmt.sizes_eq_add, Stmt.sizes_eq_add start, Nat.add_right_comm]
  have hmove := Stmt.codes_move d ⟨Stmt.sizes start b.statements, Stmt.sizes start b.statements⟩
    start b.statements
  rw [Exits.move] at hmove
  rw [Body.code, Body.code, hlast, hmove]
  simp [Op.move, Instruction.move]

end Bound

end HostScript
