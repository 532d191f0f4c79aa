import HostScript.Proofs.Compile.InUse
import HostScript.Proofs.Compile.LineUp
import HostScript.Proofs.Compile.Need
import HostScript.Proofs.Semantics.Rounds

/-!
# Assignments in the code

Every assignment of a program has its code somewhere in the unit: first that of the value and then
that which stores it into the target. The storing code starts with one operand, the value, at the
place that holds the target, and never has more operands than the text of the target says.
-/

namespace HostScript

/-- An assignment in a text: the point where it stands, what it assigns to and what it assigns. -/
structure AssignmentSite where
  here : Point
  target : Expr
  value : Expr

/-- The assignment that a statement at a point is, if it is one. -/
def AssignmentSite.of? : Point × Stmt → Option AssignmentSite
  | (here, .assign target value) => some ⟨here, target, value⟩
  | _ => none

/-- The assignments of a program, in the order of the code. -/
def Program.assignments (p : Program) : List AssignmentSite :=
  p.sites.filterMap AssignmentSite.of?

/-- An assignment in the code: where it starts, what it assigns to and what it assigns. -/
structure Assignment where
  start : Nat
  target : Bound.Target
  value : Bound.Expr

namespace Assignment

variable (a : Assignment)

/-- Where the value has been evaluated. -/
def valued : Nat :=
  a.start + a.value.size

/-- Where the assignment ends. -/
def stop : Nat :=
  a.valued + a.target.storeSize

/-- Whether an assignment of the text is bound to one in the code of a program, in the scopes of the
point where it stands. -/
def Realizes (program : Bound.Program) (s : Signatures) (x : AssignmentSite) (a : Assignment) :
    Prop :=
  ∃ v exits, v.Matches s x.here ∧ bindTarget s v x.target = .ok a.target ∧
    bindExpr s v x.value = .ok a.value ∧
    Op.Each (Op.Of program.code) a.start ((Bound.Stmt.store a.target a.value).code exits a.start)

end Assignment

/-- What a statement has of its own is an assignment, if it is one. -/
theorem gathersInto_assignments (program : Bound.Program) (s : Signatures) :
    GathersInto (fun site => (AssignmentSite.of? site).toList) (Assignment.Realizes program s)
      Assignment.stop s (Op.Of program.code) := by
  rintro around here start b stmt rfl hstmt
  cases stmt with
  | assign target value =>
    obtain ⟨inLoop, v, v', exits, hmatches, -, hbind, hcode⟩ := hstmt
    obtain ⟨-, b, t, hb, ht, hr⟩ := bindStmt_assign.mp hbind
    obtain ⟨rfl, -⟩ := Prod.mk.inj hr
    have hrealizes :
        Assignment.Realizes program around.signatures ⟨here, target, value⟩ ⟨start, t, b⟩ :=
      ⟨v, exits, hmatches, ht, hb, hcode⟩
    have hpos := t.storeSize_pos
    refine ⟨[⟨start, t, b⟩], .singleton hrealizes ?_ ?_⟩
    · change start < start + b.size + t.storeSize
      omega
    · rw [Bound.Stmt.opening_store, Bound.Stmt.add_size_store]
      exact Nat.le_refl _
  | _ => exact ⟨[], .nil ..⟩

/-- The assignments of a program that is bound line up in its code. -/
theorem bind_assignments_lineUp {p : Program} {program : Bound.Program}
    (hbind : p.bind = .ok program) :
    ∃ s as, Signatures.ofProgram p = .ok s ∧
      LineUp (Assignment.Realizes program s) Assignment.stop 0 program.toUnit.code.size
        p.assignments as := by
  rw [Program.assignments, List.filterMap_eq_flatMap_toList]
  exact bind_lineUp hbind (gathersInto_assignments program)

/-- The target under a path of indices from a variable is bound to the place of the variable, and
each index by itself. -/
theorem bindTarget_path {s : Signatures} {v : Visible} {name : String} {indices : List Expr}
    {t : Bound.Target} (hbind : bindTarget s v (indices.foldl Expr.index (.var name)) = .ok t) :
    v.place s name = .ok t.root ∧
      List.Forall₂ (fun x b => bindExpr s v x = .ok b) indices t.indices := by
  induction indices using List.reverseRecOn generalizing t with
  | nil =>
    obtain ⟨p, hp, rfl⟩ := bindTarget_var.mp hbind
    exact ⟨hp, .nil⟩
  | append_singleton indices last ih =>
    rw [List.foldl_append] at hbind
    obtain ⟨base, b, hbase, hb, rfl⟩ := bindTarget_index.mp hbind
    obtain ⟨hroot, hindices⟩ := ih hbase
    exact ⟨hroot, List.rel_append hindices (.cons hb .nil)⟩

namespace Bound.Target

variable {P : Nat → Op → Prop} {start n : Nat} {t : Target}

/-- The code that reads a target starts by reading the place that holds it. -/
theorem each_read_first (h : Op.Each P start (t.read.code start n)) :
    P start (t.root.loadOp n) := by
  induction t with
  | place p => exact Expr.each_load.mp h
  | element base position ih => exact ih (Expr.each_index.mp h).1

/-- The code that stores into a target starts by reading the place that holds it, or by writing
it. -/
theorem each_first (h : Op.Each P start (t.code start n)) :
    P start (t.root.loadOp (n + 1)) ∨ P start (t.root.storeOp (n + 1)) := by
  cases t with
  | place p => exact .inr (Target.each_place.mp h)
  | element base position =>
    have hfirst := each_read_first (Target.each_element.mp h).1
    exact .inl hfirst

end Bound.Target

namespace Assignment.Realizes

variable {program : Bound.Program} {s : Signatures} {x : AssignmentSite} {a : Assignment}

/-- An assignment has the code of its value and then the code that stores it. -/
theorem codes (h : a.Realizes program s x) :
    Op.Each (Op.Of program.code) a.start (a.value.code a.start 0) ∧
      Op.Each (Op.Of program.code) a.valued (a.target.code a.valued 0) := by
  obtain ⟨v, exits, -, -, -, hcode⟩ := h
  exact Bound.Stmt.each_store.mp hcode

/-- An assignment under a path of indices from a variable goes to the place that the name of the
variable stands for, and the indices and the value are bound in the same scopes. -/
theorem resolves {p : Program} {here : Point} {name : String} {indices : List Expr} {value : Expr}
    (h : a.Realizes program s ⟨here, indices.foldl Expr.index (.var name), value⟩)
    (hs : Signatures.ofProgram p = .ok s) :
    here.Resolves p.globalNames name a.target.root ∧
      ∃ v, v.Matches s here ∧
        List.Forall₂ (fun x b => bindExpr s v x = .ok b) indices a.target.indices ∧
        bindExpr s v value = .ok a.value := by
  obtain ⟨v, exits, hmatches, htarget, hvalue, -⟩ := h
  obtain ⟨hroot, hindices⟩ := bindTarget_path htarget
  obtain ⟨-, hglobals⟩ := Signatures.ofProgram_table hs
  exact ⟨hmatches.place_resolves hglobals hroot, v, hmatches, hindices, hvalue⟩

/-- The value is the one operand once it has been evaluated. -/
theorem height_valued (h : a.Realizes program s x) : program.height a.valued = 1 := by
  rcases Bound.Target.each_first (program.each_heightAt.part h.codes.2) with hfirst | hfirst
  · exact (a.target.root.heightAt_loadOp).mp hfirst
  · exact (a.target.root.heightAt_storeOp).mp hfirst

/-- While the value is stored there are no more operands than the text of the target says. -/
theorem height_le (h : a.Realizes program s x) {pc : Nat} (hlo : a.valued ≤ pc)
    (hhi : pc < a.stop) : program.height pc ≤ x.target.storeNeed := by
  have hcode := h.codes.2
  obtain ⟨v, exits, -, htarget, -, -⟩ := h
  have hboth := (program.each_heightAt.part hcode).and
    (bindTarget_atMost a.valued x.target a.target htarget (Nat.le_refl _))
  obtain ⟨op, hop, hneed⟩ := hboth.exists_at hlo (by rwa [Bound.Target.length_code])
  exact hop ▸ hneed

end Assignment.Realizes

end HostScript
