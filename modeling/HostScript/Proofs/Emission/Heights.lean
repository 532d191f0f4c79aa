import HostScript.Proofs.Emission.Each
import HostScript.Proofs.Emission.Regions

/-!
# Operand heights

Each offset of emitted code has one operand height, whichever way it is reached. An instruction
finds the operands that it pops, and leaves the height of the offset that runs next: of the
following one, or of its jump target.
-/

namespace HostScript

namespace Instruction

/-- The number of operands that an instruction pops. -/
@[simp] def pops : Instruction → Nat
  | .pop | .storeLocal _ | .storeGlobal _ | .storeHost _ | .unary _ | .jumpIfFalse _ | .jumpIfTrue _
  | .returnValue => 1
  | .loadIndex | .binary _ => 2
  | .storeIndex => 3
  | .makeArray count | .callScript _ count | .callNative _ count => count
  | .callMethod _ count => count + 1
  | .pushNumber _ | .pushString _ | .pushBool _ | .pushVoid | .loadLocal _ | .loadGlobal _
  | .loadHost _ | .jump _ | .iterNext .. | .returnVoid => 0

/-- The number of operands that are pushed before the following instruction runs. The
result of a call counts. -/
@[simp] def pushes : Instruction → Nat
  | .pop | .storeLocal _ | .storeGlobal _ | .storeHost _ | .jump _ | .jumpIfFalse _ | .jumpIfTrue _
  | .returnValue | .returnVoid => 0
  | .pushNumber _ | .pushString _ | .pushBool _ | .pushVoid | .loadLocal _ | .loadGlobal _
  | .loadHost _ | .makeArray _ | .loadIndex | .storeIndex | .unary _ | .binary _ | .iterNext ..
  | .callScript .. | .callNative .. | .callMethod .. => 1

/-- Whether the following instruction may run next. -/
@[simp] def fallsThrough : Instruction → Bool
  | .jump _ | .returnValue | .returnVoid => false
  | _ => true

/-- Where an instruction may jump to. -/
@[simp] def target? : Instruction → Option Nat
  | .jump target | .jumpIfFalse target | .jumpIfTrue target | .iterNext _ _ target => some target
  | _ => none

/-- Whether an instruction on `n` operands finds what it pops and leaves the heights of the
offsets that run next. -/
structure Flows (height : Nat → Nat) (pc n : Nat) (instruction : Instruction) : Prop where
  pops_le : instruction.pops ≤ n
  next : instruction.fallsThrough → height (pc + 1) = n - instruction.pops + instruction.pushes
  jump : ∀ target ∈ instruction.target?, height target = n - instruction.pops

end Instruction

namespace Op

variable {height : Nat → Nat} {pc n : Nat}

/-- Whether the operand height of an offset is that of the operation there. -/
def HeightAt (height : Nat → Nat) (pc : Nat) (op : Op) : Prop :=
  height pc = op.height

/-- Whether an operation runs at its height and leaves the heights of the offsets that run next. -/
def Flows (height : Nat → Nat) (pc : Nat) : Op → Prop
  | .plain n instruction => height pc = n ∧ instruction.Flows height pc n
  | .named n _ instruction => height pc = n ∧ ∀ id, (instruction id).Flows height pc n

@[simp] theorem heightAt_plain {instruction : Instruction} :
    HeightAt height pc (.plain n instruction) ↔ height pc = n :=
  Iff.rfl

@[simp] theorem heightAt_named {name : String} {instruction : Nat → Instruction} :
    HeightAt height pc (.named n name instruction) ↔ height pc = n :=
  Iff.rfl

end Op

namespace Place

variable {height : Nat → Nat} {pc n : Nat} {p : Place}

@[simp] theorem heightAt_loadOp : (p.loadOp n).HeightAt height pc ↔ height pc = n := by
  cases p <;> rfl

@[simp] theorem heightAt_storeOp : (p.storeOp n).HeightAt height pc ↔ height pc = n := by
  cases p <;> rfl

/-- Reading a place pushes a value. -/
theorem flows_loadOp (hpc : height pc = n) (hnext : height (pc + 1) = n + 1) :
    (p.loadOp n).Flows height pc := by
  cases p with
  | slot k => exact ⟨hpc, by simp, fun _ => by simpa using hnext, by simp⟩
  | script id => exact ⟨hpc, by simp, fun _ => by simpa using hnext, by simp⟩
  | host name => exact ⟨hpc, fun id => ⟨by simp, fun _ => by simpa using hnext, by simp⟩⟩

/-- Writing a place pops a value. -/
theorem flows_storeOp (hpc : height pc = n + 1) (hnext : height (pc + 1) = n) :
    (p.storeOp (n + 1)).Flows height pc := by
  cases p with
  | slot k => exact ⟨hpc, by simp, fun _ => by simpa using hnext, by simp⟩
  | script id => exact ⟨hpc, by simp, fun _ => by simpa using hnext, by simp⟩
  | host name => exact ⟨hpc, fun id => ⟨by simp, fun _ => by simpa using hnext, by simp⟩⟩

end Place

namespace Bound

section Flows

variable {height : Nat → Nat}

mutual

/-- An expression starts at its height and leaves one operand more. -/
theorem Expr.each_flows (start n : Nat) :
    (x : Expr) → Op.Each (Op.HeightAt height) start (x.code start n) →
      height (start + x.size) = n + 1 →
      height start = n ∧ Op.Each (Op.Flows height) start (x.code start n)
  | .void, h, hnext => by
    have hpc : height start = n := by simpa using h
    exact ⟨hpc,
      Expr.each_void.mpr ⟨hpc, by simp,
      fun _ => by simpa [Expr.size, Nat.add_assoc] using hnext, by simp⟩⟩
  | .number _, h, hnext => by
    have hpc : height start = n := by simpa using h
    exact ⟨hpc, Expr.each_number.mpr
      ⟨hpc, by simp, fun _ => by simpa [Expr.size, Nat.add_assoc] using hnext, by simp⟩⟩
  | .string _, h, hnext => by
    have hpc : height start = n := by simpa using h
    exact ⟨hpc, Expr.each_string.mpr
      ⟨hpc, fun id => ⟨by simp, fun _ => by simpa [Expr.size, Nat.add_assoc] using hnext, by simp⟩⟩⟩
  | .load p, h, hnext => by
    have hpc : height start = n := by simpa using h
    exact ⟨hpc, Expr.each_load.mpr (Place.flows_loadOp hpc hnext)⟩
  | .index base position, h, hnext => by
    obtain ⟨hbase, hposition, hlast⟩ := Expr.each_index.mp h
    obtain ⟨hpc₂, h₂⟩ := Expr.each_flows _ _ position hposition hlast
    obtain ⟨hpc₁, h₁⟩ := Expr.each_flows _ _ base hbase hpc₂
    exact ⟨hpc₁, Expr.each_index.mpr
      ⟨h₁, h₂, hlast, by simp, fun _ => by simpa [Expr.size, Nat.add_assoc] using hnext, by simp⟩⟩
  | .array items, h, hnext => by
    obtain ⟨hitems, hlast⟩ := Expr.each_array.mp h
    obtain ⟨hpc, h₁⟩ := Expr.each_flows_codes _ _ items hitems hlast
    rw [Expr.add_size_array] at hnext
    exact ⟨hpc, Expr.each_array.mpr ⟨h₁, hlast, by simp, fun _ => by simpa using hnext, by simp⟩⟩
  | .callScript function args, h, hnext => by
    obtain ⟨hargs, hlast⟩ := Expr.each_callScript.mp h
    obtain ⟨hpc, h₁⟩ := Expr.each_flows_codes _ _ args hargs hlast
    rw [Expr.add_size_callScript] at hnext
    exact ⟨hpc, Expr.each_callScript.mpr ⟨h₁, hlast, by simp,
        fun _ => by simpa using hnext, by simp⟩⟩
  | .callNative name args, h, hnext => by
    obtain ⟨hargs, hlast⟩ := Expr.each_callNative.mp h
    obtain ⟨hpc, h₁⟩ := Expr.each_flows_codes _ _ args hargs hlast
    rw [Expr.add_size_callNative] at hnext
    refine ⟨hpc, Expr.each_callNative.mpr ⟨h₁, hlast, fun id => ⟨by simp, fun _ => ?_, by simp⟩⟩⟩
    simpa using hnext
  | .callMethod object name args, h, hnext => by
    obtain ⟨hobject, hargs, hlast⟩ := Expr.each_callMethod.mp h
    obtain ⟨hpc₂, h₂⟩ := Expr.each_flows_codes _ _ args hargs hlast
    obtain ⟨hpc₁, h₁⟩ := Expr.each_flows _ _ object hobject hpc₂
    refine ⟨hpc₁, Expr.each_callMethod.mpr ⟨h₁, h₂, hlast, fun id => ⟨?_, fun _ => ?_, by simp⟩⟩⟩
    · simp only [Instruction.pops]
      omega
    · rw [Expr.add_size_callMethod] at hnext
      simp only [hnext, Instruction.pops, Instruction.pushes]
      omega
  | .unary _ operand, h, hnext => by
    obtain ⟨hoperand, hlast⟩ := Expr.each_unary.mp h
    obtain ⟨hpc, h₁⟩ := Expr.each_flows _ _ operand hoperand hlast
    exact ⟨hpc, Expr.each_unary.mpr
      ⟨h₁, hlast, by simp, fun _ => by simpa [Expr.size, Nat.add_assoc] using hnext, by simp⟩⟩
  | .strict op lhs rhs, h, hnext => by
    obtain ⟨hlhs, hrhs, hlast⟩ := Expr.each_strict.mp h
    obtain ⟨hpc₂, h₂⟩ := Expr.each_flows _ _ rhs hrhs hlast
    obtain ⟨hpc₁, h₁⟩ := Expr.each_flows _ _ lhs hlhs hpc₂
    exact ⟨hpc₁, Expr.each_strict.mpr
      ⟨h₁, h₂, hlast, by simp, fun _ => by simpa [Expr.size, Nat.add_assoc] using hnext, by simp⟩⟩
  | .connect op lhs rhs, h, hnext => by
    obtain ⟨hlhs, hskip₁, hrhs, hskip₂, hpush₁, hjump, hpush₂⟩ := Expr.each_connect.mp h
    obtain ⟨hpc₂, h₂⟩ := Expr.each_flows _ _ rhs hrhs hskip₂
    obtain ⟨hpc₁, h₁⟩ := Expr.each_flows _ _ lhs hlhs hskip₁
    have hskip : ∀ pc, height pc = n + 1 → height (pc + 1) = n →
        Op.Flows height pc
          (.plain (n + 1) (Emitter.skip op (start + lhs.size + 1 + rhs.size + 3))) := by
      intro pc hpc hfalls
      cases op <;>
        exact ⟨hpc, by simp [Emitter.skip], fun _ => hfalls, by simpa [Emitter.skip] using hpush₂⟩
    have hend : height (start + lhs.size + 1 + rhs.size + 4) = n + 1 := by
      rwa [Expr.add_size_connect] at hnext
    exact ⟨hpc₁, Expr.each_connect.mpr ⟨h₁, hskip _ hskip₁ hpc₂, h₂, hskip _ hskip₂ hpush₁,
      ⟨hpush₁, by simp, fun _ => by simpa using hjump, by simp⟩,
        ⟨hjump, by simp, by simp, by simpa using hend⟩,
      ⟨hpush₂, by simp, fun _ => by simpa using hend, by simp⟩⟩⟩

/-- Expressions start at their height and leave one operand more each. -/
theorem Expr.each_flows_codes (start n : Nat) :
    (xs : List Expr) → Op.Each (Op.HeightAt height) start (Expr.codes start n xs) →
      height (start + Expr.sizes 0 xs) = n + xs.length →
      height start = n ∧ Op.Each (Op.Flows height) start (Expr.codes start n xs)
  | [], _, hnext => ⟨hnext, Op.each_nil⟩
  | x :: xs, h, hnext => by
    obtain ⟨hx, hxs⟩ := Expr.each_codes_cons.mp h
    rw [Expr.add_sizes_cons] at hnext
    obtain ⟨hpc₂, h₂⟩ := Expr.each_flows_codes _ _ xs hxs (by rw [hnext, List.length_cons]; omega)
    obtain ⟨hpc₁, h₁⟩ := Expr.each_flows _ _ x hx hpc₂
    exact ⟨hpc₁, Expr.each_codes_cons.mpr ⟨h₁, h₂⟩⟩

end

/-- Storing into a target takes the operand that is stored. -/
theorem Target.each_flows (start n : Nat) {t : Target}
    (h : Op.Each (Op.HeightAt height) start (t.code start n))
    (hnext : height (start + t.storeSize) = n) :
    height start = n + 1 ∧ Op.Each (Op.Flows height) start (t.code start n) := by
  induction t generalizing start with
  | place p =>
    have hpc : height start = n + 1 := by simpa using h
    exact ⟨hpc, Target.each_place.mpr (Place.flows_storeOp hpc hnext)⟩
  | element base position ih =>
    obtain ⟨hread, hposition, hlast, hbase⟩ := Target.each_element.mp h
    rw [Target.add_storeSize_element] at hnext
    obtain ⟨hpc₃, h₃⟩ := ih _ hbase hnext
    obtain ⟨hpc₂, h₂⟩ := Expr.each_flows _ _ position hposition hlast
    obtain ⟨hpc₁, h₁⟩ := Expr.each_flows _ _ base.read hread hpc₂
    exact ⟨hpc₁, Target.each_element.mpr
      ⟨h₁, h₂, ⟨hlast, by simp, fun _ => by simpa using hpc₃, by simp⟩, h₃⟩⟩

mutual

/-- A statement runs on an empty operand stack and leaves it empty, wherever it goes. -/
theorem Stmt.each_flows (exits : Exits) (start : Nat) (hbreak : height exits.breakTo = 0)
    (hcontinue : height exits.continueTo = 0) :
    (stmt : Stmt) → Op.Each (Op.HeightAt height) start (stmt.code exits start) →
      height (start + stmt.size) = 0 →
      height start = 0 ∧ Op.Each (Op.Flows height) start (stmt.code exits start)
  | .store target value, h, hnext => by
    obtain ⟨hvalue, htarget⟩ := Stmt.each_store.mp h
    rw [Stmt.add_size_store] at hnext
    obtain ⟨hpc₂, h₂⟩ := Target.each_flows _ _ htarget hnext
    obtain ⟨hpc₁, h₁⟩ := Expr.each_flows _ _ value hvalue hpc₂
    exact ⟨hpc₁, Stmt.each_store.mpr ⟨h₁, h₂⟩⟩
  | .returnVoid, h, _ => by
    have hpc : height start = 0 := by simpa using h
    exact ⟨hpc, Stmt.each_returnVoid.mpr ⟨hpc, by simp, by simp, by simp⟩⟩
  | .returnValue value, h, _ => by
    obtain ⟨hvalue, hlast⟩ := Stmt.each_returnValue.mp h
    obtain ⟨hpc, h₁⟩ := Expr.each_flows _ _ value hvalue hlast
    exact ⟨hpc, Stmt.each_returnValue.mpr ⟨h₁, hlast, by simp, by simp, by simp⟩⟩
  | .whileLoop condition body, h, hnext => by
    obtain ⟨hcondition, htest, hbody, hagain⟩ := Stmt.each_whileLoop.mp h
    have hexit : height (start + condition.size + 1 + body.size + 1) = 0 := by
      rwa [Stmt.add_size_whileLoop] at hnext
    obtain ⟨hpc, h₁⟩ := Expr.each_flows _ _ condition hcondition htest
    obtain ⟨hpc₂, h₂⟩ := Stmt.each_flows _ _ hexit hpc body hbody hagain
    exact ⟨hpc, Stmt.each_whileLoop.mpr ⟨h₁, ⟨htest, by simp, fun _ => hpc₂, by simpa using hexit⟩,
        h₂, ⟨hagain, by simp, by simp, by simpa using hpc⟩⟩⟩
  | .forLoop array cursor item source body, h, hnext => by
    obtain ⟨hsource, harray, hzero, hcursor, hstep, hitem, hbody, hagain⟩ := Stmt.each_forLoop.mp h
    have hexit : height (start + source.size + 5 + body.size + 1) = 0 := by
      rwa [Stmt.add_size_forLoop] at hnext
    obtain ⟨hpc, h₁⟩ := Expr.each_flows _ _ source hsource harray
    have hagain' : height (start + source.size + 3) = 0 := hstep
    obtain ⟨hpc₂, h₂⟩ := Stmt.each_flows _ _ hexit hagain' body hbody hagain
    exact ⟨hpc, Stmt.each_forLoop.mpr ⟨h₁, ⟨harray, by simp, fun _ => hzero, by simp⟩,
      ⟨hzero, by simp, fun _ => hcursor, by simp⟩, ⟨hcursor, by simp, fun _ => hstep, by simp⟩,
      ⟨hstep, by simp, fun _ => hitem, by simpa using hexit⟩,
      ⟨hitem, by simp, fun _ => hpc₂, by simp⟩, h₂,
      ⟨hagain, by simp, by simp, by simpa using hstep⟩⟩⟩
  | .ifThen condition body, h, hnext => by
    obtain ⟨hcondition, htest, hbody⟩ := Stmt.each_ifThen.mp h
    have hexit : height (start + condition.size + 1 + body.size) = 0 := by
      rwa [Stmt.add_size_ifThen] at hnext
    obtain ⟨hpc, h₁⟩ := Expr.each_flows _ _ condition hcondition htest
    obtain ⟨hpc₂, h₂⟩ := Stmt.each_flows _ _ hbreak hcontinue body hbody hexit
    exact ⟨hpc,
      Stmt.each_ifThen.mpr ⟨h₁, ⟨htest, by simp, fun _ => hpc₂, by simpa using hexit⟩, h₂⟩⟩
  | .ifElse condition body otherwise, h, hnext => by
    obtain ⟨hcondition, htest, hbody, hskip, hotherwise⟩ := Stmt.each_ifElse.mp h
    have hexit : height (start + condition.size + 1 + body.size + 1 + otherwise.size) = 0 := by
      rwa [Stmt.add_size_ifElse] at hnext
    obtain ⟨hpc, h₁⟩ := Expr.each_flows _ _ condition hcondition htest
    obtain ⟨hpc₂, h₂⟩ := Stmt.each_flows _ _ hbreak hcontinue body hbody hskip
    obtain ⟨hpc₃, h₃⟩ := Stmt.each_flows _ _ hbreak hcontinue otherwise hotherwise hexit
    exact ⟨hpc, Stmt.each_ifElse.mpr ⟨h₁, ⟨htest, by simp, fun _ => hpc₂, by simpa using hpc₃⟩, h₂,
      ⟨hskip, by simp, by simp, by simpa using hexit⟩, h₃⟩⟩
  | .discard value, h, hnext => by
    obtain ⟨hvalue, hlast⟩ := Stmt.each_discard.mp h
    obtain ⟨hpc, h₁⟩ := Expr.each_flows _ _ value hvalue hlast
    exact ⟨hpc, Stmt.each_discard.mpr ⟨h₁, hlast, by simp, fun _ => hnext, by simp⟩⟩
  | .block statements, h, hnext => by
    obtain ⟨hpc, h₁⟩ :=
      Stmt.each_flows_codes exits start hbreak hcontinue statements (Stmt.each_block.mp h) hnext
    exact ⟨hpc, Stmt.each_block.mpr h₁⟩
  | .breakLoop, h, _ => by
    have hpc : height start = 0 := by simpa using h
    exact ⟨hpc, Stmt.each_breakLoop.mpr ⟨hpc, by simp, by simp, by simpa using hbreak⟩⟩
  | .continueLoop, h, _ => by
    have hpc : height start = 0 := by simpa using h
    exact ⟨hpc, Stmt.each_continueLoop.mpr ⟨hpc, by simp, by simp, by simpa using hcontinue⟩⟩

/-- Statements run on an empty operand stack and leave it empty, wherever they go. -/
theorem Stmt.each_flows_codes (exits : Exits) (start : Nat) (hbreak : height exits.breakTo = 0)
    (hcontinue : height exits.continueTo = 0) :
    (statements : List Stmt) →
      Op.Each (Op.HeightAt height) start (Stmt.codes exits start statements) →
      height (start + Stmt.sizes 0 statements) = 0 →
      height start = 0 ∧ Op.Each (Op.Flows height) start (Stmt.codes exits start statements)
  | [], _, hnext => ⟨hnext, Op.each_nil⟩
  | stmt :: rest, h, hnext => by
    obtain ⟨hstmt, hrest⟩ := Stmt.each_codes_cons.mp h
    rw [Stmt.add_sizes_cons] at hnext
    obtain ⟨hpc₂, h₂⟩ := Stmt.each_flows_codes exits _ hbreak hcontinue rest hrest hnext
    obtain ⟨hpc₁, h₁⟩ := Stmt.each_flows exits _ hbreak hcontinue stmt hstmt hpc₂
    exact ⟨hpc₁, Stmt.each_codes_cons.mpr ⟨h₁, h₂⟩⟩

end

/-- A body starts on an empty operand stack and every instruction of it finds the
operands that it pops. -/
theorem Body.each_flows {b : Body} {start : Nat}
    (h : Op.Each (Op.HeightAt height) start (b.code start)) :
    height start = 0 ∧ Op.Each (Op.Flows height) start (b.code start) := by
  obtain ⟨hstatements, hlast⟩ := Body.each_code.mp h
  have hexit : height (start + Stmt.sizes 0 b.statements) = 0 := hlast
  obtain ⟨hpc, h₁⟩ := Stmt.each_flows_codes _ start hexit hexit b.statements hstatements hexit
  exact ⟨hpc, Body.each_code.mpr ⟨h₁, hlast, by simp, by simp, by simp⟩⟩

end Flows

/-- The operand height at each offset of the unit of a program. -/
def Program.height (program : Program) (pc : Nat) : Nat :=
  (program.code[pc]?.map Op.height).getD 0

/-- The code of a program runs at its heights. -/
theorem Program.each_heightAt (program : Program) :
    Op.Each (Op.HeightAt program.height) 0 program.code := by
  intro k op hop
  simp [Op.HeightAt, Program.height, hop]

end Bound

end HostScript
