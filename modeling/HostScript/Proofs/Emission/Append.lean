import HostScript.Proofs.Emission.Code

/-!
# Emitting appends the code

Appending operations one by one is what the emitter does, for every kind of tree. A string gets its
number when the first operation with it is appended, and keeps it.
-/

namespace HostScript

/-- The numbers of a pool lead back to the strings they were given to. -/
def StringPool.Sound (pool : StringPool) : Prop :=
  ∀ (s : String) (id : Nat), pool.ids[s]? = some id → pool.strings[id]? = some s

namespace StringPool

variable {pool : StringPool} {s : String}

/-- An empty pool has given no numbers. -/
theorem sound_empty : Sound {} := by
  intro s id h
  simp at h

/-- Numbering a string keeps every string under its number. -/
theorem strings_intern {t : String} {id : Nat} (h : pool.strings[id]? = some t) :
    (pool.intern s).2.strings[id]? = some t := by
  obtain ⟨hid, rfl⟩ := Array.getElem?_eq_some_iff.mp h
  unfold intern
  split
  · exact h
  · simp [Array.getElem?_push_lt, hid]

/-- A string is found under the number it was given. -/
theorem Sound.strings_intern_self (h : pool.Sound) :
    (pool.intern s).2.strings[(pool.intern s).1]? = some s := by
  unfold intern
  split
  next id hid => exact h s id hid
  · simp

/-- Numbering a string keeps a pool sound. -/
theorem Sound.intern (h : pool.Sound) : (pool.intern s).2.Sound := by
  unfold StringPool.intern
  split
  · exact h
  · intro t id hid
    rw [Std.TreeMap.getElem?_insert] at hid
    split at hid
    next heq =>
      obtain rfl : s = t := by simpa using heq
      obtain rfl : pool.strings.size = id := by simpa using hid
      simp
    next =>
      have hold := h t id hid
      obtain ⟨hlt, -⟩ := Array.getElem?_eq_some_iff.mp hold
      simpa [Array.getElem?_push, Nat.ne_of_lt hlt] using hold

end StringPool

namespace Emitter

/-- Appends an operation. -/
def add (e : Emitter) : Op → Emitter
  | .plain _ instruction => e.push instruction
  | .named _ name instruction => e.pushWith name instruction

/-- Appends operations in order. -/
def addAll (e : Emitter) (ops : List Op) : Emitter :=
  ops.foldl add e

variable {e : Emitter} {op : Op} {ops more : List Op}

@[simp] theorem addAll_nil : e.addAll [] = e := rfl

@[simp] theorem addAll_cons : e.addAll (op :: ops) = (e.add op).addAll ops := rfl

@[simp] theorem addAll_append : e.addAll (ops ++ more) = (e.addAll ops).addAll more :=
  List.foldl_append

/-- Each operation takes one offset. -/
@[simp] theorem here_add : (e.add op).here = e.here + 1 := by
  cases op <;> simp [add, here, push, pushWith]

/-- An instruction takes one offset. -/
@[simp] theorem here_push {instruction : Instruction} : (e.push instruction).here = e.here + 1 := by
  simp [here, push]

/-- A list of operations takes as many offsets as it is long. -/
@[simp] theorem here_addAll : (e.addAll ops).here = e.here + ops.length := by
  induction ops generalizing e with
  | nil => rfl
  | cons op ops ih => rw [addAll_cons, ih, here_add, List.length_cons]; omega

/-- Emitting a load appends its operation. -/
theorem load_eq (n : Nat) (p : Place) : e.load p = e.add (p.loadOp n) := by
  cases p <;> rfl

/-- Emitting a store appends its operation. -/
theorem store_eq (n : Nat) (p : Place) : e.store p = e.add (p.storeOp n) := by
  cases p <;> rfl

mutual

/-- Emitting an expression appends its code. -/
theorem expr_eq_addAll (e : Emitter) (n : Nat) :
    (x : Bound.Expr) → e.expr x = e.addAll (x.code e.here n)
  | .void | .number _ | .string _ => rfl
  | .load p => load_eq n p
  | .index base position => by
    rw [expr, expr_eq_addAll e n base, expr_eq_addAll _ (n + 1) position]
    simp [Bound.Expr.code, add]
  | .array items => by
    rw [expr, exprs_eq_addAll e n items]
    simp [Bound.Expr.code, add]
  | .callScript _ args => by
    rw [expr, exprs_eq_addAll e n args]
    simp [Bound.Expr.code, add]
  | .callNative _ args => by
    rw [expr, exprs_eq_addAll e n args]
    simp [Bound.Expr.code, add]
  | .callMethod object _ args => by
    rw [expr, expr_eq_addAll e n object, exprs_eq_addAll _ (n + 1) args]
    simp [Bound.Expr.code, add]
  | .unary _ operand => by
    rw [expr, expr_eq_addAll e n operand]
    simp [Bound.Expr.code, add]
  | .strict _ lhs rhs => by
    rw [expr, expr_eq_addAll e n lhs, expr_eq_addAll _ (n + 1) rhs]
    simp [Bound.Expr.code, add]
  | .connect op lhs rhs => by
    have hrhs :=
      expr_eq_addAll ((e.expr lhs).push (skip op ((e.expr lhs).here + rhs.size + 4))) n rhs
    rw [expr, hrhs, expr_eq_addAll e n lhs]
    simp [Bound.Expr.code, add]

/-- Emitting expressions appends their code. -/
theorem exprs_eq_addAll (e : Emitter) (n : Nat) :
    (xs : List Bound.Expr) → e.exprs xs = e.addAll (Bound.Expr.codes e.here n xs)
  | [] => rfl
  | x :: rest => by
    rw [exprs, expr_eq_addAll e n x, exprs_eq_addAll _ (n + 1) rest]
    simp [Bound.Expr.codes]

end

/-- Emitting the store into a target appends its code. -/
theorem storeTo_eq_addAll (e : Emitter) (n : Nat) (target : Bound.Target) :
    e.storeTo target = e.addAll (target.code e.here n) := by
  induction target generalizing e with
  | place p => exact store_eq (n + 1) p
  | element base position ih =>
    rw [storeTo, ih, expr_eq_addAll e (n + 1) base.read, expr_eq_addAll _ (n + 2) position]
    simp [Bound.Target.code, add, Nat.add_assoc]

mutual

/-- Emitting a statement appends its code. -/
theorem stmt_eq_addAll (exits : Exits) (e : Emitter) :
    (s : Bound.Stmt) → e.stmt exits s = e.addAll (s.code exits e.here)
  | .store target value => by
    rw [stmt, storeTo_eq_addAll _ 0, expr_eq_addAll _ 0]
    simp [Bound.Stmt.code]
  | .returnVoid | .breakLoop | .continueLoop => rfl
  | .returnValue value => by
    rw [stmt, expr_eq_addAll _ 0]
    simp [Bound.Stmt.code, add]
  | .whileLoop condition body => by
    rw [stmt, expr_eq_addAll e 0 condition]
    simp [Bound.Stmt.code, add, stmt_eq_addAll _ _ body]
  | .forLoop _ _ _ source body => by
    rw [stmt, expr_eq_addAll e 0 source]
    simp [Bound.Stmt.code, add, stmt_eq_addAll _ _ body, Nat.add_assoc]
  | .ifThen condition body => by
    rw [stmt, expr_eq_addAll e 0 condition]
    simp [Bound.Stmt.code, add, stmt_eq_addAll _ _ body]
  | .ifElse condition body otherwise => by
    rw [stmt, expr_eq_addAll e 0 condition]
    have hstart :
        e.here + condition.size + 1 + body.size + 1 = e.here + condition.size + body.size + 2 := by
      omega
    have hexit : e.here + condition.size + 1 + body.size + otherwise.size + 1 =
        e.here + condition.size + body.size + 2 + otherwise.size := by omega
    simp [Bound.Stmt.code, add, stmt_eq_addAll _ _ body, stmt_eq_addAll _ _ otherwise,
      hstart, hexit]
  | .discard value => by
    rw [stmt, expr_eq_addAll _ 0]
    simp [Bound.Stmt.code, add]
  | .block statements => by rw [stmt, Bound.Stmt.code, stmts_eq_addAll exits e statements]

/-- Emitting statements appends their code. -/
theorem stmts_eq_addAll (exits : Exits) (e : Emitter) :
    (ss : List Bound.Stmt) → e.stmts exits ss = e.addAll (Bound.Stmt.codes exits e.here ss)
  | [] => rfl
  | s :: rest => by
    rw [stmts, stmt_eq_addAll exits e s, stmts_eq_addAll exits _ rest]
    simp [Bound.Stmt.codes]

end

end Emitter

end HostScript
