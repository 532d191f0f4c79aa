import HostScript.Proofs.Compile.Tables
import HostScript.Proofs.WellFormed.Reports

/-!
# Slots in use

Binding hands out slots like a stack: a declaration takes the next slot, and what a block took is
free again behind it. So the slots in use at a statement are the first ones, and a bound statement
reads no others: it stores into the next slot before it reads from it.
-/

namespace HostScript

namespace Bound

/-- The number of slots in use after a statement, if `n` are in use before it. -/
def Stmt.inUseAfter (n : Nat) : Stmt → Nat
  | .store (.place (.slot slot)) _ => max n (slot + 1)
  | _ => n

/-- A statement does not end the use of a slot. -/
theorem Stmt.le_inUseAfter (n : Nat) (stmt : Stmt) : n ≤ stmt.inUseAfter n := by
  unfold Stmt.inUseAfter
  split
  · exact Nat.le_max_left _ _
  · exact Nat.le_refl n

mutual

/-- Whether a statement mentions only slots in use, if the first `n` are in use before it, and
stores into the next ones first. -/
def Stmt.Initialised (u : CodeUnit) (n : Nat) : Stmt → Prop
  | .store target value => value.Valid u n ∧ (target.Valid u n ∨ target = .place (.slot n))
  | .returnVoid | .breakLoop | .continueLoop => True
  | .returnValue value | .discard value => value.Valid u n
  | .whileLoop condition body | .ifThen condition body => condition.Valid u n ∧ body.Initialised u n
  | .forLoop array cursor item source body =>
    array = n ∧ cursor = n + 1 ∧ item = n + 2 ∧ source.Valid u n ∧ body.Initialised u (n + 3)
  | .ifElse condition body otherwise =>
    condition.Valid u n ∧ body.Initialised u n ∧ otherwise.Initialised u n
  | .block statements => Stmt.AllInitialised u n statements
termination_by structural stmt => stmt

/-- Whether statements mention only slots in use. -/
def Stmt.AllInitialised (u : CodeUnit) (n : Nat) : List Stmt → Prop
  | [] => True
  | stmt :: rest => stmt.Initialised u n ∧ Stmt.AllInitialised u (stmt.inUseAfter n) rest
termination_by structural statements => statements

end

/-- Storing into what is in use takes no new slot. -/
theorem Stmt.inUseAfter_store {u : CodeUnit} {n : Nat} {target : Target} (h : target.Valid u n)
    (value : Expr) : (Stmt.store target value).inUseAfter n = n := by
  match target with
  | .place (.slot slot) => exact Nat.max_eq_left h
  | .place (.script _) => rfl
  | .place (.host _) => rfl
  | .element _ _ => rfl

end Bound

section Stmts

variable {around : Surroundings} {u : CodeUnit}

/-- A statement that declares nothing leaves the next slot as it is. -/
theorem bindStmt_next {inLoop : Bool} {v v' : Visible} {stmt : Stmt} {b : Bound.Stmt}
    (h : bindStmt around inLoop v stmt = .ok (b, v')) (hdeclared : stmt.declared? = none) :
    v'.scopes.next = v.scopes.next := by
  have hrises := bindStmt_rises h
  rw [Visible.after, hdeclared] at hrises
  rw [hrises.eq]

/-- A declaration stores into a script global, or into the next slot, which is in use from then
on. -/
theorem bindDeclaration_initialised (hs : around.signatures.Describes u) {v v' : Visible}
    (hsound : v.scopes.Sound) {name : String} {initial : Option Expr} {b : Bound.Stmt}
    (h : bindDeclaration around v name initial = .ok (b, v')) :
    b.Initialised u v.scopes.next ∧ v'.scopes.next = b.inUseAfter v.scopes.next := by
  cases hglobal : around.global? v name with
  | some id =>
    obtain ⟨b₁, hb₁, hr⟩ := (bindDeclaration_global hglobal).mp h
    obtain ⟨rfl, rfl⟩ := Prod.mk.inj hr
    exact ⟨⟨bindInitial_valid hs hsound (Nat.le_refl _) hb₁, Or.inl (global?_lt hs hglobal)⟩, rfl⟩
  | none =>
    obtain ⟨b₁, hb₁, -, -, hr⟩ := (bindDeclaration_local hglobal).mp h
    obtain ⟨rfl, rfl⟩ := Prod.mk.inj hr
    have hnext : (v.announce name).scopes.next ≤ v.scopes.next :=
      Nat.le_of_eq (Scopes.next_announce _ _)
    refine ⟨⟨bindInitial_valid hs (hsound.announce name) hnext hb₁, Or.inr rfl⟩, ?_⟩
    calc (v.scopes.announce name).next + 1 = v.scopes.next + 1 := by rw [Scopes.next_announce]
      _ = max v.scopes.next (v.scopes.next + 1) := (Nat.max_eq_right (Nat.le_succ _)).symm

mutual

/-- A bound statement mentions only slots in use, and those in use after it are those that binding
has handed out by then. -/
theorem bindStmt_initialised (hs : around.signatures.Describes u) (inLoop : Bool) (v : Visible)
    (hsound : v.scopes.Sound) :
    (stmt : Stmt) → (b : Bound.Stmt) → (v' : Visible) →
      bindStmt around inLoop v stmt = .ok (b, v') →
      b.Initialised u v.scopes.next ∧ v'.scopes.next = b.inUseAfter v.scopes.next
  | .assign target value, b, v', h => by
    have hnext := bindStmt_next h rfl
    obtain ⟨-, b₁, t, hb₁, ht, hr⟩ := bindStmt_assign.mp h
    obtain ⟨rfl, -⟩ := Prod.mk.inj hr
    have hvalid := bindTarget_valid hs hsound (Nat.le_refl _) target t ht
    refine ⟨⟨bindExpr_valid hs hsound (Nat.le_refl _) value b₁ hb₁, Or.inl hvalid⟩, ?_⟩
    rw [hnext, Bound.Stmt.inUseAfter_store hvalid]
  | .returnVoid, b, v', h => by
    have hnext := bindStmt_next h rfl
    obtain ⟨rfl, -⟩ := Prod.mk.inj (bindStmt_returnVoid.mp h)
    exact ⟨trivial, hnext⟩
  | .returnValue value, b, v', h => by
    have hnext := bindStmt_next h rfl
    obtain ⟨b₁, hb₁, hr⟩ := bindStmt_returnValue.mp h
    obtain ⟨rfl, -⟩ := Prod.mk.inj hr
    exact ⟨bindExpr_valid hs hsound (Nat.le_refl _) value b₁ hb₁, hnext⟩
  | .discard value, b, v', h => by
    have hnext := bindStmt_next h rfl
    obtain ⟨b₁, hb₁, hr⟩ := bindStmt_discard.mp h
    obtain ⟨rfl, -⟩ := Prod.mk.inj hr
    exact ⟨bindExpr_valid hs hsound (Nat.le_refl _) value b₁ hb₁, hnext⟩
  | .whileLoop condition body, b, v', h => by
    have hnext := bindStmt_next h rfl
    obtain ⟨b₁, b₂, v₂, hb₁, hb₂, hr⟩ := bindStmt_whileLoop.mp h
    obtain ⟨rfl, -⟩ := Prod.mk.inj hr
    exact ⟨⟨bindExpr_valid hs hsound (Nat.le_refl _) condition b₁ hb₁,
      (bindStmt_initialised hs true v.enter hsound.enter body b₂ v₂ hb₂).1⟩, hnext⟩
  | .forLoop name source body, b, v', h => by
    have hnext := bindStmt_next h rfl
    obtain ⟨b₁, b₂, v₂, hb₁, hlimit, hb₂, hr⟩ := bindStmt_forLoop.mp h
    obtain ⟨rfl, -⟩ := Prod.mk.inj hr
    have hheader : (v.forHeader name).scopes.Sound :=
      (Visible.proceeds_forHeader name hlimit).sound hsound.enter
    exact ⟨⟨rfl, rfl, rfl, bindExpr_valid hs hsound (Nat.le_refl _) source b₁ hb₁,
      (bindStmt_initialised hs true (v.forHeader name).enter hheader.enter body b₂ v₂ hb₂).1⟩,
      hnext⟩
  | .ifThen condition body, b, v', h => by
    have hnext := bindStmt_next h rfl
    obtain ⟨b₁, b₂, v₂, hb₁, hb₂, hr⟩ := bindStmt_ifThen.mp h
    obtain ⟨rfl, -⟩ := Prod.mk.inj hr
    exact ⟨⟨bindExpr_valid hs hsound (Nat.le_refl _) condition b₁ hb₁,
      (bindStmt_initialised hs inLoop v.enter hsound.enter body b₂ v₂ hb₂).1⟩, hnext⟩
  | .ifElse condition body otherwise, b, v', h => by
    have hnext := bindStmt_next h rfl
    obtain ⟨b₁, b₂, v₂, b₃, v₃, hb₁, hb₂, hb₃, hr⟩ := bindStmt_ifElse.mp h
    obtain ⟨rfl, -⟩ := Prod.mk.inj hr
    have hleft := bindStmt_proceeds around inLoop v.enter v₂ body b₂ hb₂
    have hnext' : v₂.leave.enter.scopes.next = v.scopes.next := by
      rw [hleft.rises_leave.eq]
      rfl
    have hotherwise :=
      (bindStmt_initialised hs inLoop v₂.leave.enter (hleft.leave.sound hsound).enter
          otherwise b₃ v₃ hb₃).1
    rw [hnext'] at hotherwise
    exact ⟨⟨bindExpr_valid hs hsound (Nat.le_refl _) condition b₁ hb₁,
      (bindStmt_initialised hs inLoop v.enter hsound.enter body b₂ v₂ hb₂).1, hotherwise⟩, hnext⟩
  | .declare name initial, b, v', h => bindDeclaration_initialised hs hsound (bindStmt_declare ▸ h)
  | .block statements, b, v', h => by
    have hnext := bindStmt_next h rfl
    obtain ⟨bs, v₂, hbs, hr⟩ := bindStmt_block.mp h
    obtain ⟨rfl, -⟩ := Prod.mk.inj hr
    have hstatements := bindStmts_initialised hs inLoop (v.enter.announceAll statements)
      ((Visible.proceeds_announceAll statements).sound hsound.enter) statements bs v₂ hbs
    rw [(Visible.announceAll_pending v.enter statements).2.1] at hstatements
    exact ⟨hstatements, hnext⟩
  | .breakLoop, b, v', h => by
    have hnext := bindStmt_next h rfl
    obtain ⟨-, hr⟩ := bindStmt_breakLoop.mp h
    obtain ⟨rfl, -⟩ := Prod.mk.inj hr
    exact ⟨trivial, hnext⟩
  | .continueLoop, b, v', h => by
    have hnext := bindStmt_next h rfl
    obtain ⟨-, hr⟩ := bindStmt_continueLoop.mp h
    obtain ⟨rfl, -⟩ := Prod.mk.inj hr
    exact ⟨trivial, hnext⟩

/-- Bound statements mention only slots in use. -/
theorem bindStmts_initialised (hs : around.signatures.Describes u) (inLoop : Bool) (v : Visible)
    (hsound : v.scopes.Sound) :
    (statements : List Stmt) → (bs : List Bound.Stmt) → (v' : Visible) →
      bindStmts around inLoop [] v statements = .ok (bs, v') →
      Bound.Stmt.AllInitialised u v.scopes.next bs
  | [], bs, v', h => by
    obtain ⟨rfl, -⟩ := Prod.mk.inj (bindStmts_nil.mp h)
    trivial
  | stmt :: rest, bs, v', h => by
    obtain ⟨b, v₁, bs, v₂, hb, hbs, hr⟩ := bindStmts_cons.mp h
    obtain ⟨rfl, -⟩ := Prod.mk.inj hr
    obtain ⟨hstmt, hnext⟩ := bindStmt_initialised hs inLoop v hsound stmt b v₁ hb
    have hrest := bindStmts_initialised hs inLoop v₁
      ((bindStmt_proceeds around inLoop v v₁ stmt b hb).sound hsound) rest bs v₂ hbs
    rw [hnext] at hrest
    exact ⟨hstmt, hrest⟩

end

/-- At the start of a bound body its parameters are in use. -/
theorem bindBody_initialised (hs : around.signatures.Describes u)
    {v : Visible} (hsound : v.scopes.Sound)
    (hfirst : v.scopes.next = 0) {name : String} {params : List String} {statements : List Stmt}
    {b : Bound.Body} (h : bindBody around v name params statements = .ok b) :
    Bound.Stmt.AllInitialised u b.arity b.statements := by
  obtain ⟨v₁, bs, v₂, hparams, hbs, rfl⟩ := bindBody_eq_ok_iff.mp h
  obtain ⟨hproceeds, hnext⟩ := bindParams_proceeds hparams
  have hstatements := bindStmts_initialised hs false v₁ (hproceeds.sound hsound)
    statements bs v₂ hbs
  rwa [hnext, hfirst, Nat.zero_add] at hstatements

end Stmts

/-- At the start of every body of a bound program its parameters are in use, and the body mentions
only slots in use. -/
theorem bind_initialised {p : Program} {program : Bound.Program} (h : p.bind = .ok program)
    {b : Bound.Body} (hb : b ∈ program.bodies) :
    Bound.Stmt.AllInitialised program.toUnit b.arity b.statements := by
  obtain ⟨s, top, functions, hs, htop, hfunctions, hprogram⟩ := bind_program_eq_ok_iff.mp h
  have hdescribes := describes_toUnit hs h
  subst hprogram
  rcases List.mem_cons.mp hb with rfl | hmem
  · refine bindBody_initialised ?_ Scopes.sound_empty rfl (bindTopLevel_eq_ok_iff.mp htop)
    exact hdescribes
  · obtain ⟨id, hid⟩ := List.mem_iff_getElem?.mp hmem
    obtain ⟨f, -, hf⟩ := bindFunctions_getElem? hfunctions hid
    refine bindBody_initialised ?_ Scopes.sound_empty rfl (bindFunction_eq_ok_iff.mp hf)
    exact hdescribes

end HostScript
