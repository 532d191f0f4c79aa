import HostScript.Compile.Emission

/-!
# Code as a list

The emitter appends to one array and numbers strings as it meets them. Here the code of a bound tree
is a list of operations that still carry their strings, placed at a given offset; emitting a tree is
the same as appending that list operation by operation. Each operation also carries the number of
operands that the frame holds when it runs; nothing is emitted for it. What holds of every operation
of a piece of code, at its own offset, is said by `Op.Each`, which splits over concatenation.
-/

namespace HostScript

/-- An instruction that is complete, or that waits for the number of a string, with the number of
operands that the frame holds before it. -/
inductive Op where
  | plain (height : Nat) (instruction : Instruction)
  | named (height : Nat) (name : String) (instruction : Nat → Instruction)

/-- The number of operands that the frame holds before an operation. -/
def Op.height : Op → Nat
  | .plain height _ => height
  | .named height _ _ => height

/-- A property of every operation of a list that starts at an offset, each taken at its own
offset. -/
def Op.Each (P : Nat → Op → Prop) (start : Nat) (ops : List Op) : Prop :=
  ∀ k op, ops[k]? = some op → P (start + k) op

namespace Op

variable {P Q : Nat → Op → Prop} {start : Nat} {op : Op} {ops more : List Op}

/-- An empty list has no operation to check. -/
@[simp] theorem each_nil : Each P start [] := by
  intro k op h
  simp at h

/-- The first operation stands at the start and the others follow it. -/
@[simp] theorem each_cons : Each P start (op :: ops) ↔ P start op ∧ Each P (start + 1) ops := by
  constructor
  · intro h
    refine ⟨by simpa using h 0 op rfl, fun k o ho => ?_⟩
    have := h (k + 1) o (by simpa using ho)
    rwa [Nat.add_right_comm, Nat.add_assoc]
  · rintro ⟨hop, hops⟩ k o ho
    cases k with
    | zero =>
      obtain rfl : op = o := by simpa using ho
      simpa using hop
    | succ k =>
      have := hops k o (by simpa using ho)
      rwa [Nat.add_right_comm, Nat.add_assoc] at this

/-- What follows a list starts where the list ends. -/
@[simp] theorem each_append :
    Each P start (ops ++ more) ↔ Each P start ops ∧ Each P (start + ops.length) more := by
  induction ops generalizing start with
  | nil => simp
  | cons op ops ih =>
    simp only [List.cons_append, each_cons, ih, List.length_cons, and_assoc]
    rw [show start + 1 + ops.length = start + (ops.length + 1) by omega]

/-- Two properties of every operation hold of it together. -/
theorem Each.and (hP : Each P start ops) (hQ : Each Q start ops) :
    Each (fun pc op => P pc op ∧ Q pc op) start ops :=
  fun k op hop => ⟨hP k op hop, hQ k op hop⟩

/-- The operations of a list stand one after the other from its start on. -/
theorem each_bounds (start : Nat) (ops : List Op) :
    Each (fun pc _ => start ≤ pc ∧ pc < start + ops.length) start ops := by
  intro k op hop
  obtain ⟨hk, -⟩ := List.getElem?_eq_some_iff.mp hop
  exact ⟨Nat.le_add_right start k, Nat.add_lt_add_left hk start⟩

/-- At every offset of a list there is an operation. -/
theorem Each.exists_at (h : Each P start ops) {pc : Nat} (hstart : start ≤ pc)
    (hstop : pc < start + ops.length) :
    ∃ op, P pc op := by
  obtain ⟨k, rfl⟩ := Nat.exists_eq_add_of_le hstart
  have hk : k < ops.length := by omega
  exact ⟨ops[k], h k _ (List.getElem?_eq_getElem hk)⟩

end Op

namespace Place

/-- The operation that pushes the value at a place on top of `n` operands. -/
def loadOp (n : Nat) : Place → Op
  | .slot k => .plain n (.loadLocal k)
  | .script id => .plain n (.loadGlobal id)
  | .host name => .named n name .loadHost

/-- The operation that pops a value from the top of `n` operands into a place. -/
def storeOp (n : Nat) : Place → Op
  | .slot k => .plain n (.storeLocal k)
  | .script id => .plain n (.storeGlobal id)
  | .host name => .named n name .storeHost

end Place

namespace Bound

mutual

/-- The code of an expression that starts at an offset, on top of `n` operands. -/
def Expr.code (start n : Nat) : Expr → List Op
  | .void => [.plain n .pushVoid]
  | .number value => [.plain n (.pushNumber value)]
  | .string value => [.named n value .pushString]
  | .load place => [place.loadOp n]
  | .index base position =>
    base.code start n ++ position.code (start + base.size) (n + 1) ++ [.plain (n + 2) .loadIndex]
  | .array items =>
    Expr.codes start n items ++ [.plain (n + items.length) (.makeArray items.length)]
  | .callScript function args =>
    Expr.codes start n args ++ [.plain (n + args.length) (.callScript function args.length)]
  | .callNative name args =>
    Expr.codes start n args ++ [.named (n + args.length) name (.callNative · args.length)]
  | .callMethod object name args =>
    object.code start n ++ Expr.codes (start + object.size) (n + 1) args ++
      [.named (n + 1 + args.length) name (.callMethod · args.length)]
  | .unary op operand => operand.code start n ++ [.plain (n + 1) (.unary op)]
  | .strict op lhs rhs =>
    lhs.code start n ++ rhs.code (start + lhs.size) (n + 1) ++ [.plain (n + 2) (.binary op)]
  | .connect op lhs rhs =>
    let decided := start + lhs.size + rhs.size + 4
    lhs.code start n ++ [.plain (n + 1) (Emitter.skip op decided)] ++
      rhs.code (start + lhs.size + 1) n ++
      [.plain (n + 1) (Emitter.skip op decided), .plain n (.pushBool (Emitter.undecided op)),
        .plain (n + 1) (.jump (decided + 1)), .plain n (.pushBool !(Emitter.undecided op))]
termination_by structural expr => expr

/-- The code of expressions that stand one after the other, on top of `n` operands. -/
def Expr.codes (start n : Nat) : List Expr → List Op
  | [] => []
  | expr :: rest => expr.code start n ++ Expr.codes (start + expr.size) (n + 1) rest
termination_by structural exprs => exprs

end

/-- The code that stores the topmost operand into a target, with `n` operands below it. -/
def Target.code (start n : Nat) : Target → List Op
  | .place p => [p.storeOp (n + 1)]
  | .element base position =>
    base.read.code start (n + 1) ++ position.code (start + base.read.size) (n + 2) ++
      [.plain (n + 3) .storeIndex] ++ base.code (start + base.read.size + position.size + 1) n

mutual

/-- The code of a statement that starts at an offset. Statements run on an empty operand stack. -/
def Stmt.code (exits : Exits) (start : Nat) : Stmt → List Op
  | .store target value => value.code start 0 ++ target.code (start + value.size) 0
  | .returnVoid => [.plain 0 .returnVoid]
  | .returnValue value => value.code start 0 ++ [.plain 1 .returnValue]
  | .whileLoop condition body =>
    let exit := start + condition.size + body.size + 2
    condition.code start 0 ++ [.plain 1 (.jumpIfFalse exit)] ++
      body.code ⟨exit, start⟩ (start + condition.size + 1) ++ [.plain 0 (.jump start)]
  | .forLoop array cursor item source body =>
    let next := start + source.size + 3
    let exit := next + body.size + 3
    source.code start 0 ++
      [.plain 1 (.storeLocal array), .plain 0 (.pushNumber 0.0), .plain 1 (.storeLocal cursor),
        .plain 0 (.iterNext array cursor exit), .plain 1 (.storeLocal item)] ++
      body.code ⟨exit, next⟩ (next + 2) ++ [.plain 0 (.jump next)]
  | .ifThen condition body =>
    condition.code start 0 ++ [.plain 1 (.jumpIfFalse (start + condition.size + body.size + 1))] ++
      body.code exits (start + condition.size + 1)
  | .ifElse condition body otherwise =>
    let alternative := start + condition.size + body.size + 2
    condition.code start 0 ++ [.plain 1 (.jumpIfFalse alternative)] ++
      body.code exits (start + condition.size + 1) ++
        [.plain 0 (.jump (alternative + otherwise.size))] ++
      otherwise.code exits alternative
  | .discard value => value.code start 0 ++ [.plain 1 .pop]
  | .block statements => Stmt.codes exits start statements
  | .breakLoop => [.plain 0 (.jump exits.breakTo)]
  | .continueLoop => [.plain 0 (.jump exits.continueTo)]
termination_by structural stmt => stmt

/-- The code of statements that stand one after the other. -/
def Stmt.codes (exits : Exits) (start : Nat) : List Stmt → List Op
  | [] => []
  | stmt :: rest => stmt.code exits start ++ Stmt.codes exits (start + stmt.size) rest
termination_by structural statements => statements

end

/-- The code of a body: its statements and the return that ends them, which is also the
exit of all loops. -/
def Body.code (start : Nat) (b : Body) : List Op :=
  let last := Stmt.sizes start b.statements
  Stmt.codes ⟨last, last⟩ start b.statements ++ [.plain 0 .returnVoid]

/-- What has been counted already is added to the size of the expressions. -/
theorem Expr.sizes_eq_add (counted : Nat) (exprs : List Expr) :
    Expr.sizes counted exprs = counted + Expr.sizes 0 exprs := by
  induction exprs generalizing counted with
  | nil => rfl
  | cons expr rest ih =>
    rw [Expr.sizes, Expr.sizes, ih (counted + expr.size), ih (0 + expr.size)]
    omega

/-- What has been counted already is added to the size of the statements. -/
theorem Stmt.sizes_eq_add (counted : Nat) (statements : List Stmt) :
    Stmt.sizes counted statements = counted + Stmt.sizes 0 statements := by
  induction statements generalizing counted with
  | nil => rfl
  | cons stmt rest ih =>
    rw [Stmt.sizes, Stmt.sizes, ih (counted + stmt.size), ih (0 + stmt.size)]
    omega

mutual

/-- The code of an expression has as many operations as its size says. -/
@[simp] theorem Expr.length_code (start n : Nat) :
    (expr : Expr) → (expr.code start n).length = expr.size
  | .void | .number _ | .string _ | .load _ => rfl
  | .index base position => by
    simp [Expr.code, Expr.size, Expr.length_code start n base, Expr.length_code _ _ position,
      Nat.add_assoc]
  | .array items => by
    simp [Expr.code, Expr.size, Expr.length_codes start n items, Expr.sizes_eq_add 1, Nat.add_comm]
  | .callScript _ args => by
    simp [Expr.code, Expr.size, Expr.length_codes start n args, Expr.sizes_eq_add 1, Nat.add_comm]
  | .callNative _ args => by
    simp [Expr.code, Expr.size, Expr.length_codes start n args, Expr.sizes_eq_add 1, Nat.add_comm]
  | .callMethod object _ args => by
    have hargs := Expr.length_codes (start + object.size) (n + 1) args
    simp only [Expr.code, Expr.size, Expr.sizes_eq_add (object.size + 1), List.length_append,
      Expr.length_code start n object, hargs, List.length_singleton]
    omega
  | .unary _ operand => by simp [Expr.code, Expr.size, Expr.length_code start n operand]
  | .strict _ lhs rhs => by
    simp [Expr.code, Expr.size, Expr.length_code start n lhs, Expr.length_code _ _ rhs,
      Nat.add_assoc]
  | .connect _ lhs rhs => by
    simp only [Expr.code, Expr.size, List.length_append, Expr.length_code start n lhs,
      Expr.length_code _ _ rhs, List.length_cons, List.length_nil]
    omega

/-- The code of expressions has as many operations as their sizes say together. -/
@[simp] theorem Expr.length_codes (start n : Nat) :
    (exprs : List Expr) → (Expr.codes start n exprs).length = Expr.sizes 0 exprs
  | [] => rfl
  | expr :: rest => by
    rw [Expr.codes, Expr.sizes, Expr.sizes_eq_add (0 + expr.size), List.length_append,
      Expr.length_code start n expr, Expr.length_codes _ _ rest, Nat.zero_add]

end

/-- The code that stores into a target has as many operations as its size says. -/
@[simp] theorem Target.length_code (start n : Nat) (target : Target) :
    (target.code start n).length = target.storeSize := by
  induction target generalizing start n with
  | place p => rfl
  | element base position ih =>
    simp only [Target.code, Target.storeSize, List.length_append, Expr.length_code, ih,
      List.length_singleton]

mutual

/-- The code of a statement has as many operations as its size says. -/
@[simp] theorem Stmt.length_code (exits : Exits) (start : Nat) :
    (stmt : Stmt) → (stmt.code exits start).length = stmt.size
  | .returnVoid | .breakLoop | .continueLoop => rfl
  | .store _ _ | .returnValue _ | .discard _ => by simp [Stmt.code, Stmt.size]
  | .whileLoop condition body => by
    simp only [Stmt.code, Stmt.size, List.length_append, Expr.length_code,
      Stmt.length_code _ _ body, List.length_singleton]
    omega
  | .forLoop _ _ _ source body => by
    simp only [Stmt.code, Stmt.size, List.length_append, Expr.length_code,
      Stmt.length_code _ _ body, List.length_cons, List.length_nil]
    omega
  | .ifThen condition body => by
    simp only [Stmt.code, Stmt.size, List.length_append, Expr.length_code,
      Stmt.length_code _ _ body, List.length_singleton]
    omega
  | .ifElse condition body otherwise => by
    simp only [Stmt.code, Stmt.size, List.length_append, Expr.length_code,
      Stmt.length_code _ _ body, Stmt.length_code _ _ otherwise, List.length_singleton]
    omega
  | .block statements => by rw [Stmt.code, Stmt.size, Stmt.length_codes exits start statements]

/-- The code of statements has as many operations as their sizes say together. -/
@[simp] theorem Stmt.length_codes (exits : Exits) (start : Nat) :
    (statements : List Stmt) → (Stmt.codes exits start statements).length = Stmt.sizes 0 statements
  | [] => rfl
  | stmt :: rest => by
    rw [Stmt.codes, Stmt.sizes, Stmt.sizes_eq_add (0 + stmt.size), List.length_append,
      Stmt.length_code exits start stmt, Stmt.length_codes exits _ rest, Nat.zero_add]

end

end Bound

end HostScript
