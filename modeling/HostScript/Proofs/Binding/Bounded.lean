import HostScript.Proofs.Compile.Tables
import HostScript.Proofs.Semantics.Statements

/-!
# Loops that are bounded beforehand

A loop over an array keeps its array and its cursor in slots that have no name, so that nothing in
its body stores into them. A program without while loops is therefore bound to one in which the
number of turns of every loop is fixed when the loop starts.
-/

namespace HostScript

mutual

/-- Whether there is no while loop in a statement. -/
def Stmt.isWhileFree : Stmt → Bool
  | .whileLoop .. => false
  | .forLoop _ _ body | .ifThen _ body => body.isWhileFree
  | .ifElse _ body otherwise => body.isWhileFree && otherwise.isWhileFree
  | .block statements => Stmt.allWhileFree statements
  | .assign .. | .returnVoid | .returnValue _ | .discard _ | .declare .. | .breakLoop
  | .continueLoop => true
termination_by structural stmt => stmt

/-- Whether there is no while loop in some statements. -/
def Stmt.allWhileFree : List Stmt → Bool
  | [] => true
  | stmt :: rest => stmt.isWhileFree && Stmt.allWhileFree rest
termination_by structural statements => statements

end

/-- Whether there is no while loop in a program. -/
def Program.isWhileFree (p : Program) : Bool :=
  Stmt.allWhileFree p.statements && p.functions.all (·.body.isWhileFree)

namespace Bound

/-- The slot that storing into a target overwrites. -/
def Target.slot? : Target → Option Nat
  | .place (.slot n) => some n
  | .place _ => none
  | .element base _ => base.slot?

mutual

/-- Whether all loops of a statement are over arrays, and the statement leaves the slots in `kept`
alone. A loop over an array keeps the slots of the array and of the cursor to itself. -/
def Stmt.Bounded (kept : List Nat) : Stmt → Prop
  | .store target _ => ∀ slot ∈ target.slot?, slot ∉ kept
  | .whileLoop .. => False
  | .forLoop array cursor item _ body =>
    array ∉ kept ∧ cursor ∉ array :: kept ∧ item ∉ cursor :: array :: kept ∧
      body.Bounded (cursor :: array :: kept)
  | .ifThen _ body => body.Bounded kept
  | .ifElse _ body otherwise => body.Bounded kept ∧ otherwise.Bounded kept
  | .block statements => Stmt.AllBounded kept statements
  | .returnVoid | .returnValue _ | .discard _ | .breakLoop | .continueLoop => True
termination_by structural stmt => stmt

/-- Whether statements are bounded. -/
def Stmt.AllBounded (kept : List Nat) : List Stmt → Prop
  | [] => True
  | stmt :: rest => stmt.Bounded kept ∧ Stmt.AllBounded kept rest
termination_by structural statements => statements

end

end Bound

/-- An assignment does not store into a slot without a name. -/
theorem bindTarget_hidden {s : Signatures} {v : Visible} {kept : List Nat}
    (hkept : ∀ n ∈ kept, v.scopes.Hidden n) :
    (x : Expr) → (t : Bound.Target) → bindTarget s v x = .ok t → ∀ slot ∈ t.slot?, slot ∉ kept
  | .var name, t, hbind, slot, hslot => by
    obtain ⟨place, hplace, rfl⟩ := bindTarget_var.mp hbind
    rcases place_cases hplace with ⟨n, hn, rfl⟩ | ⟨-, ⟨id, -, rfl⟩ | ⟨-, rfl⟩⟩
    · obtain rfl : n = slot := by simpa [Bound.Target.slot?] using hslot
      rw [← Scopes.find?_eq_slotOf?] at hn
      obtain ⟨scope, hscope, hname⟩ := Scopes.mem_of_find? hn
      exact fun hmem => (hkept n hmem).2 ⟨scope, hscope, name, hname⟩
    · cases hslot
    · cases hslot
  | .index base position, t, hbind, slot, hslot => by
    obtain ⟨t₁, b, ht₁, -, rfl⟩ := bindTarget_index.mp hbind
    exact bindTarget_hidden hkept base t₁ ht₁ slot hslot

section Stmts

variable {around : Surroundings}

/-- The slots of a loop over an array are unlike each other and unlike those without a name around
it, and those of the array and the cursor have no name in its body. -/
theorem Visible.forHeader_hidden {v : Visible} (name : String) (hsound : v.scopes.Sound)
    (hlimit : v.scopes.next + 2 < countLimit) {kept : List Nat}
    (hkept : ∀ n ∈ kept, v.scopes.Hidden n) :
    v.scopes.next ∉ kept ∧ v.scopes.next + 1 ∉ v.scopes.next :: kept ∧
      v.scopes.next + 2 ∉ (v.scopes.next + 1) :: v.scopes.next :: kept ∧
      ∀ n ∈ (v.scopes.next + 1) :: v.scopes.next :: kept,
        (v.forHeader name).enter.scopes.Hidden n := by
  have hlt : ∀ n ∈ kept, n < v.scopes.next := fun n hn => (hkept n hn).1
  have hfirst : v.scopes.enter.grow.Sound :=
    hsound.enter.grow (Nat.lt_trans (Nat.lt_add_of_pos_right (by decide)) hlimit)
  refine ⟨fun h => Nat.lt_irrefl _ (hlt _ h), ?_, ?_, ?_⟩
  · rw [List.mem_cons, not_or]
    exact ⟨by omega, fun h => absurd (hlt _ h) (by omega)⟩
  · rw [List.mem_cons, List.mem_cons, not_or, not_or]
    exact ⟨by omega, by omega, fun h => absurd (hlt _ h) (by omega)⟩
  · refine List.forall_mem_cons.mpr
      ⟨(hfirst.hidden_grow.extend name).enter, List.forall_mem_cons.mpr ⟨?_, ?_⟩⟩
    · exact (hsound.enter.hidden_grow.grow.extend name).enter
    · exact fun n hn => ((hkept n hn).enter.grow.grow.extend name).enter

mutual

/-- A statement without while loops is bound to a bounded one. -/
theorem bindStmt_bounded {kept : List Nat} (inLoop : Bool) (v : Visible) (hsound : v.scopes.Sound)
    (hkept : ∀ n ∈ kept, v.scopes.Hidden n) :
    (stmt : Stmt) → (b : Bound.Stmt) → (v' : Visible) →
      bindStmt around inLoop v stmt = .ok (b, v') →
      stmt.isWhileFree → b.Bounded kept
  | .assign target value, b, v', hbind, _ => by
    obtain ⟨-, b₁, t, -, ht, hr⟩ := bindStmt_assign.mp hbind
    obtain ⟨rfl, -⟩ := Prod.mk.inj hr
    exact bindTarget_hidden hkept target t ht
  | .returnVoid, b, v', hbind, _ => by
    obtain ⟨rfl, -⟩ := Prod.mk.inj (bindStmt_returnVoid.mp hbind)
    trivial
  | .returnValue value, b, v', hbind, _ => by
    obtain ⟨b₁, -, hr⟩ := bindStmt_returnValue.mp hbind
    obtain ⟨rfl, -⟩ := Prod.mk.inj hr
    trivial
  | .discard value, b, v', hbind, _ => by
    obtain ⟨b₁, -, hr⟩ := bindStmt_discard.mp hbind
    obtain ⟨rfl, -⟩ := Prod.mk.inj hr
    trivial
  | .forLoop name source body, b, v', hbind, hfree => by
    obtain ⟨b₁, b₂, v₂, -, hlimit, hb₂, hr⟩ := bindStmt_forLoop.mp hbind
    obtain ⟨rfl, -⟩ := Prod.mk.inj hr
    obtain ⟨harray, hcursor, hitem, hhidden⟩ := Visible.forHeader_hidden name hsound hlimit hkept
    have hheader : (v.forHeader name).scopes.Sound :=
      (Visible.proceeds_forHeader name hlimit).sound hsound.enter
    exact ⟨harray, hcursor, hitem,
      bindStmt_bounded true (v.forHeader name).enter hheader.enter hhidden body b₂ v₂ hb₂ hfree⟩
  | .ifThen condition body, b, v', hbind, hfree => by
    obtain ⟨b₁, b₂, v₂, -, hb₂, hr⟩ := bindStmt_ifThen.mp hbind
    obtain ⟨rfl, -⟩ := Prod.mk.inj hr
    exact bindStmt_bounded inLoop v.enter hsound.enter (fun n hn => (hkept n hn).enter) body
      b₂ v₂ hb₂ hfree
  | .ifElse condition body otherwise, b, v', hbind, hfree => by
    obtain ⟨b₁, b₂, v₂, b₃, v₃, -, hb₂, hb₃, hr⟩ := bindStmt_ifElse.mp hbind
    obtain ⟨rfl, -⟩ := Prod.mk.inj hr
    obtain ⟨hfree₂, hfree₃⟩ := Bool.and_eq_true_iff.mp hfree
    have hleft := bindStmt_proceeds around inLoop v.enter v₂ body b₂ hb₂
    have hkept₃ : ∀ n ∈ kept, v₂.leave.enter.scopes.Hidden n := by
      intro n hn
      have hhidden : v₂.leave.scopes.Hidden n := by
        rw [hleft.rises_leave.eq]
        exact (hkept n hn).of_names rfl rfl (Nat.le_refl _)
      exact hhidden.enter
    have hbody := bindStmt_bounded inLoop v.enter hsound.enter (fun n hn => (hkept n hn).enter) body
      b₂ v₂ hb₂ hfree₂
    have hotherwise := bindStmt_bounded inLoop v₂.leave.enter (hleft.leave.sound hsound).enter
      hkept₃ otherwise b₃ v₃ hb₃ hfree₃
    exact ⟨hbody, hotherwise⟩
  | .declare name initial, b, v', hbind, _ => by
    rw [bindStmt_declare] at hbind
    cases hglobal : around.global? v name with
    | some id =>
      obtain ⟨b₁, -, hr⟩ := (bindDeclaration_global hglobal).mp hbind
      obtain ⟨rfl, -⟩ := Prod.mk.inj hr
      exact fun slot hslot => by cases hslot
    | none =>
      obtain ⟨b₁, -, -, -, hr⟩ := (bindDeclaration_local hglobal).mp hbind
      obtain ⟨rfl, -⟩ := Prod.mk.inj hr
      intro slot hslot hmem
      obtain rfl : v.scopes.next = slot := by simpa [Bound.Target.slot?] using hslot
      exact Nat.lt_irrefl _ (hkept _ hmem).1
  | .block statements, b, v', hbind, hfree => by
    obtain ⟨bs, v₂, hbs, hr⟩ := bindStmt_block.mp hbind
    obtain ⟨rfl, -⟩ := Prod.mk.inj hr
    exact bindStmts_bounded inLoop (v.enter.announceAll statements)
      ((Visible.proceeds_announceAll statements).sound hsound.enter)
      (fun n hn => ((hkept n hn).enter : v.enter.scopes.Hidden n).announceAll statements) statements
      bs v₂ hbs hfree
  | .breakLoop, b, v', hbind, _ => by
    obtain ⟨-, hr⟩ := bindStmt_breakLoop.mp hbind
    obtain ⟨rfl, -⟩ := Prod.mk.inj hr
    trivial
  | .continueLoop, b, v', hbind, _ => by
    obtain ⟨-, hr⟩ := bindStmt_continueLoop.mp hbind
    obtain ⟨rfl, -⟩ := Prod.mk.inj hr
    trivial

/-- Statements without while loops are bound to bounded ones. -/
theorem bindStmts_bounded {kept : List Nat} (inLoop : Bool) (v : Visible) (hsound : v.scopes.Sound)
    (hkept : ∀ n ∈ kept, v.scopes.Hidden n) :
    (statements : List Stmt) → (bs : List Bound.Stmt) → (v' : Visible) →
      bindStmts around inLoop [] v statements = .ok (bs, v') → Stmt.allWhileFree statements →
      Bound.Stmt.AllBounded kept bs
  | [], bs, v', hbind, _ => by
    obtain ⟨rfl, -⟩ := Prod.mk.inj (bindStmts_nil.mp hbind)
    trivial
  | stmt :: rest, bs, v', hbind, hfree => by
    obtain ⟨b, v₁, bs, v₂, hb, hbs, hr⟩ := bindStmts_cons.mp hbind
    obtain ⟨rfl, -⟩ := Prod.mk.inj hr
    obtain ⟨hstmt, hrest⟩ := Bool.and_eq_true_iff.mp hfree
    exact ⟨bindStmt_bounded inLoop v hsound hkept stmt b v₁ hb hstmt,
      bindStmts_bounded inLoop v₁ ((bindStmt_proceeds around inLoop v v₁ stmt b hb).sound hsound)
        (fun n hn => bindStmt_hidden hb (hkept n hn)) rest bs v₂ hbs hrest⟩

end

/-- A body without while loops is bound to bounded statements. -/
theorem bindBody_bounded {v : Visible} (hsound : v.scopes.Sound) {name : String}
    {params : List String} {statements : List Stmt} {b : Bound.Body}
    (hbind : bindBody around v name params statements = .ok b)
    (hfree : Stmt.allWhileFree statements) : Bound.Stmt.AllBounded [] b.statements := by
  obtain ⟨v₁, bs, v₂, hparams, hbs, rfl⟩ := bindBody_eq_ok_iff.mp hbind
  exact bindStmts_bounded false v₁ ((bindParams_proceeds hparams).1.sound hsound)
    (fun n hn => by cases hn) statements bs v₂ hbs hfree

end Stmts

/-- A program without while loops is bound to bodies with bounded statements. -/
theorem bind_bounded {p : Program} {program : Bound.Program} (h : p.bind = .ok program)
    (hfree : p.isWhileFree) {b : Bound.Body} (hb : b ∈ program.bodies) :
    Bound.Stmt.AllBounded [] b.statements := by
  obtain ⟨s, top, functions, -, htop, hfunctions, rfl⟩ := bind_program_eq_ok_iff.mp h
  obtain ⟨hstatements, hall⟩ := Bool.and_eq_true_iff.mp hfree
  rcases List.mem_cons.mp hb with rfl | hmem
  · exact bindBody_bounded Scopes.sound_empty (bindTopLevel_eq_ok_iff.mp htop) hstatements
  · obtain ⟨id, hid⟩ := List.mem_iff_getElem?.mp hmem
    obtain ⟨f, hf, hbind⟩ := bindFunctions_getElem? hfunctions hid
    have hbody : f.body.isWhileFree := List.all_eq_true.mp hall f (List.mem_of_getElem? hf)
    refine bindBody_bounded Scopes.sound_empty (bindFunction_eq_ok_iff.mp hbind) ?_
    rw [Stmt.allWhileFree, hbody]
    rfl

end HostScript
