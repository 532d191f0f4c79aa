import HostScript.Proofs.Compile.Connections
import HostScript.Proofs.Machine.Deliveries

/-!
# Connectives by jumps

The code of an `and` or an `or` tests its left operand, and skips the right one if that decides.
Otherwise it tests the right operand as well. Either way it pushes the value that the operator has
on the two operands, and goes on at one and the same offset, with the operands below as they were.
-/

namespace HostScript

open Machine

variable {σ : Type}

namespace Connective

/-- The operator that a connective is. -/
def toBinaryOp : Connective → BinaryOp
  | .and => .and
  | .or => .or

/-- Whether a value of the left operand leaves the decision to the right one. -/
def passes : Connective → Value → Bool
  | .and, value => value.isTruthy
  | .or, value => !value.isTruthy

theorem toBinaryOp_of_connective? {op : BinaryOp} {c : Connective} (h : op.connective? = some c) :
    c.toBinaryOp = op := by
  cases op with
  | and | or =>
    obtain rfl := Option.some.inj h
    rfl
  | _ => cases h

/-- A left operand that decides has decided, whatever the right one is. -/
theorem apply_of_not_passes {c : Connective} {a : Value} (h : c.passes a = false) (b : Value) :
    c.toBinaryOp.apply a b = .ok (.boolean !(Emitter.undecided c)) := by
  cases c with
  | and =>
    have ha : a.isTruthy = false := h
    simp [toBinaryOp, BinaryOp.apply, Emitter.undecided, ha]
  | or =>
    have ha : a.isTruthy = true := by simpa [passes] using h
    simp [toBinaryOp, BinaryOp.apply, Emitter.undecided, ha]

/-- If the left operand does not decide then the right one does, one way or the other. -/
theorem apply_of_passes {c : Connective} {a : Value} (h : c.passes a = true) (b : Value) :
    c.toBinaryOp.apply a b =
      .ok (.boolean (if c.passes b then Emitter.undecided c else !(Emitter.undecided c))) := by
  cases c with
  | and =>
    have ha : a.isTruthy = true := h
    cases hb : b.isTruthy <;> simp [toBinaryOp, BinaryOp.apply, Emitter.undecided, passes, ha, hb]
  | or =>
    have ha : a.isTruthy = false := by simpa [passes] using h
    cases hb : b.isTruthy <;> simp [toBinaryOp, BinaryOp.apply, Emitter.undecided, passes, ha, hb]

end Connective

section Instructions

variable {m : Machine} {function : Option Nat} {pc : Nat} {locals stack : Array Value}
  {callers : List Frame} {host : Host σ}

/-- An instruction that changes nothing but the frame leaves the rest of the machine, and the
host, as they were. -/
theorem exec_eq_of_proceed {f g : Frame} {i : Instruction} (hstatus : m.status = .running f callers)
    (hcode : m.unit.code[f.pc]? = some i)
    (hact : i.act m.unit m.limits.operands m.globals (f.goto (f.pc + 1)) host =
        (.ok (.proceed g), host)) :
    m.exec host = ({ m with status := .running g callers }, host) := by
  rw [exec_eq_settle hstatus hcode, hact]
  rfl

/-- The test of a connective goes on to what follows it if the operand does not decide,
and jumps if it does. -/
theorem exec_skip {op : Connective} {target : Nat} {value : Value}
    (hstatus : m.status = .running ⟨function, pc, locals, stack.push value⟩ callers)
    (hcode : m.unit.code[pc]? = some (Emitter.skip op target)) :
    m.exec host =
      ({ m with
          status := .running ⟨function, if op.passes value then pc + 1 else target, locals,
              stack⟩ callers },
        host) := by
  refine exec_eq_of_proceed hstatus hcode ?_
  cases op with
  | and =>
    rw [Emitter.skip, Instruction.act, Frame.goto, Frame.branch_push]
    cases hvalue : value.isTruthy <;>
      simp [Connective.passes, hvalue, Instruction.quietly, Except.mapError]
  | or =>
    rw [Emitter.skip, Instruction.act, Frame.goto, Frame.branch_push]
    cases hvalue : value.isTruthy <;>
      simp [Connective.passes, hvalue, Instruction.quietly, Except.mapError]

theorem exec_pushBool {b : Bool}
    (hstatus : m.status = .running ⟨function, pc, locals, stack⟩ callers)
    (hcode : m.unit.code[pc]? = some (.pushBool b)) (hroom : stack.size < m.limits.operands) :
    m.exec host =
      ({ m with status := .running ⟨function, pc + 1, locals, stack.push (.boolean b)⟩ callers },
        host) := by
  refine exec_eq_of_proceed hstatus hcode ?_
  rw [Instruction.act, Instruction.quietly, Frame.deliver_of_lt hroom]
  rfl

theorem exec_goto {target : Nat}
    (hstatus : m.status = .running ⟨function, pc, locals, stack⟩ callers)
    (hcode : m.unit.code[pc]? = some (.jump target)) :
    m.exec host = ({ m with status := .running ⟨function, target, locals, stack⟩ callers }, host) :=
  exec_eq_of_proceed hstatus hcode rfl

end Instructions

namespace Connection

variable (c : Connection)

/-- What a connective does to a call with frame `f` at its start once its left operand has been
evaluated to a value, after which the machine is `d`. -/
structure Decides (op : BinaryOp) (f : Frame) (callers : List Frame) (a : Value)
    (d : Machine × Host σ) : Prop where
  /-- The right operand is entered if the left one does not decide, and only then. -/
  enters : after d 1 =
    ({ d.1 with status := .running ⟨f.function, c.entered, f.locals, f.stack⟩ callers }, d.2) ↔
    c.op.passes a
  /-- If it is not entered, the value of the operator is pushed, which it has for any right
  operand. -/
  skipped : c.op.passes a = false → ∃ value, (∀ b, op.apply a b = .ok value) ∧
    (after d 1).1.status = .running ⟨f.function, c.decided, f.locals, f.stack⟩ callers ∧
    after d 2 =
      ({ d.1 with status := .running ⟨f.function, c.join, f.locals, f.stack.push value⟩ callers },
        d.2)
  /-- If it is entered and has been evaluated, the value of the operator on both
  operands is pushed. -/
  evaluated : c.op.passes a = true → ∀ k g, Departs c.entered c.retested callers (after d 1) k g →
    ∃ b value n, g = ⟨f.function, c.retested, f.locals, f.stack.push b⟩ ∧
      op.apply a b = .ok value ∧ n ≤ 3 ∧
      after (after (after d 1) k) n =
        ({ (after (after d 1) k).1 with
            status := .running ⟨f.function, c.join, f.locals, f.stack.push value⟩ callers },
          (after (after d 1) k).2)

/-- What is known of a connective that stands in the code of a program. -/
structure StandsIn (program : Bound.Program) : Prop where
  lhs : Op.Each (Op.Of program.code) c.start (c.lhs.code c.start c.height)
  rhs : Op.Each (Op.Of program.code) c.entered (c.rhs.code c.entered c.height)
  test : program.toUnit.code[c.tested]? = some (Emitter.skip c.op c.decided)
  retest : program.toUnit.code[c.retested]? = some (Emitter.skip c.op c.decided)
  undecided : program.toUnit.code[c.retested + 1]? = some (.pushBool (Emitter.undecided c.op))
  jump : program.toUnit.code[c.retested + 2]? = some (.jump c.join)
  decided : program.toUnit.code[c.decided]? = some (.pushBool !(Emitter.undecided c.op))
  height_tested : program.height c.tested = c.height + 1
  height_retested : program.height c.retested = c.height + 1

variable {c} {program : Bound.Program}

theorem standsIn (hcode : Op.Each (Op.Of program.code) c.start (c.expr.code c.start c.height)) :
    c.StandsIn program := by
  obtain ⟨hlhs, -, hrhs, -⟩ := Bound.Expr.each_connect.mp hcode
  obtain ⟨-, htest, -, hretest, hundecided, hjump, hdecided⟩ :=
    Bound.Expr.each_connect.mp (program.each_has_toUnit.part hcode)
  obtain ⟨-, hheight, -, hheight', -⟩ :=
    Bound.Expr.each_connect.mp (program.each_heightAt.part hcode)
  refine ⟨hlhs, hrhs, htest, hretest, hundecided, ?_, hdecided, hheight, hheight'⟩
  rw [c.join_eq]
  exact hjump

variable {p : Program} {limits : Limits} {d : Machine × Host σ} {function : Option Nat}
  {locals stack : Array Value} {callers : List Frame} {value : Value}

/-- A call that has an operand to test has room for another one in its place. -/
theorem size_lt_of_push {pc : Nat} (hd : Reachable program.toUnit limits d)
    (hstatus : d.1.status = .running ⟨function, pc, locals, stack.push value⟩ callers) :
    stack.size < d.1.limits.operands := by
  have hsize := hd.size_stack_le hstatus
  rw [Array.size_push] at hsize
  rw [hd.limits_eq]
  exact hsize

/-- Where an operand has decided, the opposite of what is left undecided is pushed. -/
theorem StandsIn.pushes_decided (hc : c.StandsIn program) (hd : Reachable program.toUnit limits d)
    (hroom : stack.size < d.1.limits.operands)
    (h₁ : after d 1 =
        ({ d.1 with status := .running ⟨function, c.decided, locals, stack⟩ callers }, d.2)) :
    after d 2 =
      ({ d.1 with
          status := .running
            ⟨function, c.join, locals, stack.push (.boolean !(Emitter.undecided c.op))⟩ callers },
        d.2) := by
  have hjoin : c.join = c.decided + 1 := c.join_eq
  rw [after_succ_last, h₁, hjoin]
  exact exec_pushBool rfl (hd.unit_eq ▸ hc.decided) hroom

/-- The test of the right operand and what follows it. -/
theorem StandsIn.verdict (hc : c.StandsIn program) (hd : Reachable program.toUnit limits d)
    (hstatus : d.1.status = .running ⟨function, c.retested, locals, stack.push value⟩ callers) :
    ∃ n, n ≤ 3 ∧ after d n =
      ({ d.1 with
          status := .running
            ⟨function, c.join, locals, stack.push
              (.boolean (if c.op.passes value then Emitter.undecided c.op
                else !(Emitter.undecided c.op)))⟩ callers },
        d.2) := by
  have hroom := size_lt_of_push hd hstatus
  have h₁ : after d 1 = _ := exec_skip hstatus (hd.unit_eq ▸ hc.retest)
  cases hpasses : c.op.passes value with
  | false =>
    rw [hpasses] at h₁
    exact ⟨2, by decide, hc.pushes_decided hd hroom h₁⟩
  | true =>
    rw [hpasses] at h₁
    have h₂ : after d 2 =
        ({ d.1 with
            status := .running
              ⟨function, c.retested + 2, locals, stack.push (.boolean (Emitter.undecided c.op))⟩
              callers },
          d.2) := by
      rw [after_succ_last, h₁]
      exact exec_pushBool rfl (hd.unit_eq ▸ hc.undecided) hroom
    refine ⟨3, Nat.le_refl _, ?_⟩
    rw [after_succ_last, h₂]
    exact exec_goto rfl (hd.unit_eq ▸ hc.jump)

/-- What a connective does once its left operand has been evaluated. -/
theorem StandsIn.decides (hc : c.StandsIn program) (hbind : p.bind = .ok program)
    (hd : Reachable program.toUnit limits d) {f : Frame} {a : Value}
    (hstatus : d.1.status = .running ⟨f.function, c.tested, f.locals, f.stack.push a⟩ callers) :
    c.Decides c.op.toBinaryOp f callers a d := by
  have hroom := size_lt_of_push hd hstatus
  have h₁ : after d 1 = _ := exec_skip hstatus (hd.unit_eq ▸ hc.test)
  refine ⟨⟨fun hentered => ?_, fun hpasses => ?_⟩, fun hpasses => ?_,
    fun hpasses k g hdeparts => ?_⟩
  · cases hpasses : c.op.passes a with
    | true => rfl
    | false =>
      rw [hpasses] at h₁
      obtain ⟨hframe, -⟩ := Status.running.inj (congrArg (·.1.status) (hentered.symm.trans h₁))
      have hpc : c.entered = c.decided := (Frame.mk.inj hframe).2.1
      unfold Connection.decided Connection.retested at hpc
      omega
  · rw [hpasses] at h₁
    exact h₁
  · rw [hpasses] at h₁
    exact ⟨_, Connective.apply_of_not_passes hpasses, by rw [h₁]; rfl,
      hc.pushes_decided hd hroom h₁⟩
  · rw [hpasses] at h₁
    have hentered :
        (after d 1).1.status = .running ⟨f.function, c.entered, f.locals, f.stack⟩ callers := by
      rw [h₁]
      rfl
    have hd₁ := hd.after 1
    obtain ⟨b, rfl⟩ := hdeparts.delivers hbind hd₁ hc.rhs hc.height_retested hentered rfl
    obtain ⟨n, hn, hlast⟩ := hc.verdict (hd₁.after k) hdeparts.status_eq
    exact ⟨b, _, n, rfl, Connective.apply_of_passes hpasses b, hn, hlast⟩

end Connection

/-- Every `and` and every `or` of a program that compiles has a place of its own in the unit.
Whenever a call comes to it, in whichever run, and its left operand is evaluated, the value of
that is on top of the operands that were there before, and from there on the code does what
the operator says. -/
theorem compiled_connective_decides {p : Program} {u : CodeUnit} (hcompile : compile p = .ok u) :
    ∃ program s connections, p.bind = .ok program ∧ program.toUnit = u ∧
      Signatures.ofProgram p = .ok s ∧
      LineUp (Connection.Realizes program s) Connection.join 0 u.code.size
        p.connectives connections ∧
      ∀ (c : Connection) (op : BinaryOp) (lhs rhs : Expr),
        Connection.Realizes program s (.binary op lhs rhs) c →
        ∀ (σ : Type) (limits : Limits) (d : Machine × Host σ) (f : Frame) (callers : List Frame),
          Reachable u limits d → d.1.status = .running f callers → f.pc = c.start →
          ∀ k g, Departs c.start c.tested callers d k g →
            ∃ a, g = ⟨f.function, c.tested, f.locals, f.stack.push a⟩ ∧
              c.Decides op f callers a (after d k) := by
  obtain ⟨program, hbind, rfl⟩ := compile_eq_ok_iff.mp hcompile
  obtain ⟨s, connections, hs, hconnections⟩ := bind_connectives_lineUp hbind
  refine ⟨program, s, connections, hbind, rfl, hs, hconnections, ?_⟩
  intro c op lhs rhs hrealizes σ limits d f callers hd hstatus hf k g hdeparts
  obtain ⟨v, op', lhs', rhs', heq, hop, -, -, hcode⟩ := hrealizes
  obtain ⟨rfl, -, -⟩ := Expr.binary.inj heq
  have hc := Connection.standsIn hcode
  obtain ⟨a, rfl⟩ := hdeparts.delivers hbind hd hc.lhs hc.height_tested hstatus hf
  refine ⟨a, rfl, ?_⟩
  rw [← Connective.toBinaryOp_of_connective? hop]
  exact hc.decides hbind (hd.after k) hdeparts.status_eq

/-- A program with an `and` as the left operand of an `or`. -/
def nestedProgram : Program where
  functions := []
  statements :=
    [.discard (.binary .or (.binary .and (.number 0.0) (.number 1.0)) (.string "x"))]

/-- The `and` of the program. -/
def nestedAnd : Connection where
  start := 0
  height := 0
  op := .and
  lhs := .number 0.0
  rhs := .number 1.0

/-- The `or` of the program, which starts with the `and`. -/
def nestedOr : Connection where
  start := 0
  height := 0
  op := .or
  lhs := nestedAnd.expr
  rhs := .string "x"

/-- The program, bound. -/
def nestedBound : Bound.Program where
  top := { name := topLevelName, arity := 0, locals := 0, statements := [.discard nestedOr.expr] }
  functions := []
  globals := #[]

/-- One instruction evaluates the left operand of the `and`, which decides; three evaluate the left
operand of the `or`, which does not. -/
theorem nestedProgram_decides :
    nestedProgram.connectives.length = 2 ∧
    ∃ u, compile nestedProgram = .ok u ∧
      nestedAnd.Decides .and ⟨none, 0, #[], #[]⟩ [] (.number 0.0)
        (after (start u {}, callbackHost) 1) ∧
      nestedOr.Decides .or ⟨none, 0, #[], #[]⟩ [] (.boolean false)
        (after (start u {}, callbackHost) 3) := by
  have hbind : nestedProgram.bind = .ok nestedBound := rfl
  have hcompile : compile nestedProgram = .ok nestedBound.toUnit := rfl
  have hcode :
      nestedBound.code = nestedOr.expr.code 0 0 ++ [.plain 1 .pop, .plain 0 .returnVoid] := rfl
  have hor : Op.Each (Op.Of nestedBound.code) 0 (nestedOr.expr.code 0 0) := by
    have hall := Op.each_of nestedBound.code
    nth_rewrite 2 [hcode] at hall
    exact (Op.each_append.mp hall).1
  have hand : Op.Each (Op.Of nestedBound.code) 0 (nestedAnd.expr.code 0 0) :=
    (Bound.Expr.each_connect.mp hor).1
  obtain ⟨program, s, connections, hbind', -, -, -, hdecides⟩ :=
    compiled_connective_decides hcompile
  obtain rfl := Except.ok.inj (hbind.symm.trans hbind')
  have htested : Departs 0 1 [] (start nestedBound.toUnit {}, callbackHost) 1
      ⟨none, 1, #[], #[.number 0.0]⟩ := by
    refine ⟨fun j hj => ?_, rfl, by decide⟩
    obtain rfl : j = 0 := by omega
    exact ⟨_, .inl ⟨rfl, by decide, by decide⟩⟩
  have htested' : Departs 0 7 [] (start nestedBound.toUnit {}, callbackHost) 3
      ⟨none, 7, #[], #[.boolean false]⟩ := by
    refine ⟨fun j hj => ?_, rfl, by decide⟩
    obtain rfl | rfl | rfl : j = 0 ∨ j = 1 ∨ j = 2 := by omega
    · exact ⟨_, .inl ⟨rfl, by decide, by decide⟩⟩
    · exact ⟨_, .inl ⟨rfl, by decide, by decide⟩⟩
    · exact ⟨_, .inl ⟨rfl, by decide, by decide⟩⟩
  have hands :
      Connection.Realizes nestedBound s (.binary .and (.number 0.0) (.number 1.0)) nestedAnd :=
    ⟨{}, .and, .number 0.0, .number 1.0, rfl, rfl, rfl, rfl, hand⟩
  have hors : Connection.Realizes nestedBound s
      (.binary .or (.binary .and (.number 0.0) (.number 1.0)) (.string "x")) nestedOr :=
    ⟨{}, .or, .binary .and (.number 0.0) (.number 1.0), .string "x", rfl, rfl, rfl, rfl, hor⟩
  obtain ⟨a, ha, hfirst⟩ := hdecides _ _ _ _ hands Unit {} _ _ [] ⟨callbackHost, 0, rfl⟩ rfl
    rfl 1 _ htested
  obtain ⟨b, hb, hsecond⟩ := hdecides _ _ _ _ hors Unit {} _ _ [] ⟨callbackHost, 0, rfl⟩ rfl
    rfl 3 _ htested'
  obtain rfl : .number 0.0 = a := by simpa using (Frame.mk.inj ha).2.2.2
  obtain rfl : .boolean false = b := by simpa using (Frame.mk.inj hb).2.2.2
  exact ⟨rfl, _, hcompile, hfirst, hsecond⟩

end HostScript
