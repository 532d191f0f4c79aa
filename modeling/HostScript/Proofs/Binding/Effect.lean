import HostScript.Proofs.Binding.Inversion

/-!
# What binding does to the scopes

Binding a statement works in the innermost scope. Whatever the statement opens it closes again,
so that all that is left of it is a higher peak and, for a declaration, one more name or one
more script global.
-/

namespace HostScript

namespace Visible

/-- What binding a statement keeps of what can be seen. -/
structure Proceeds (v v' : Visible) : Prop where
  inside : v.scopes.Inside v'.scopes
  reached : v.scopes.outer ≠ [] → v'.reached = v.reached
  sound : v.scopes.Sound → v'.scopes.Sound

/-- What can be seen after the statement itself, not counting how far the peak rises. -/
def after (around : Surroundings) (v : Visible) (stmt : Stmt) : Visible :=
  match stmt.declared? with
  | none => v
  | some name =>
    match around.global? v name with
    | some id => { v with reached := id + 1 }
    | none => { v with scopes := (v.scopes.announce name).extend name }

/-- Whether two views differ at most in the peak, which is not lower in the second. -/
structure Rises (v v' : Visible) : Prop where
  eq : v' = { v with scopes := { v.scopes with peak := v'.scopes.peak } }
  peak_le : v.scopes.peak ≤ v'.scopes.peak

variable {v v₁ v₂ : Visible} {around : Surroundings} {name : String}

theorem Proceeds.refl (v : Visible) : v.Proceeds v :=
  ⟨Scopes.Inside.refl _, fun _ => rfl, fun hs => hs⟩

theorem Proceeds.trans (h : v.Proceeds v₁) (h' : v₁.Proceeds v₂) : v.Proceeds v₂ := by
  refine ⟨h.inside.trans h'.inside, fun houter => ?_, fun hs => h'.sound (h.sound hs)⟩
  rw [h'.reached (by rw [h.inside.outer_eq]; exact houter), h.reached houter]

/-- Work in a scope that is opened for it and left again. -/
theorem Proceeds.leave (h : v.enter.Proceeds v₁) : v.Proceeds v₁.leave := by
  have hleave := h.inside.leave
  have hpeak : v.scopes.peak ≤ v₁.scopes.peak := h.inside.peak_le
  refine ⟨?_, fun _ => h.reached (List.cons_ne_nil _ _), fun hs => (h.sound hs.enter).leave⟩
  rw [Visible.leave, hleave]
  exact ⟨rfl, rfl, Nat.le_refl _, hpeak⟩

/-- All that is left of a scope is a higher peak. -/
theorem Proceeds.rises_leave (h : v.enter.Proceeds v₁) : v.Rises v₁.leave := by
  have hreached : v₁.reached = v.reached := h.reached (List.cons_ne_nil _ _)
  have hpeak : v.scopes.peak ≤ v₁.scopes.peak := h.inside.peak_le
  constructor
  · simp only [Visible.leave, h.inside.leave, hreached]
  · rw [Visible.leave, h.inside.leave]
    exact hpeak

theorem Rises.refl (v : Visible) : v.Rises v :=
  ⟨rfl, Nat.le_refl _⟩

theorem Rises.trans (h : v.Rises v₁) (h' : v₁.Rises v₂) : v.Rises v₂ := by
  refine ⟨?_, Nat.le_trans h.peak_le h'.peak_le⟩
  rw [h'.eq, h.eq]

theorem proceeds_announce (name : String) : v.Proceeds (v.announce name) :=
  ⟨Scopes.inside_announce name, fun _ => rfl, fun hs => hs.announce name⟩

theorem proceeds_announceAll (statements : List Stmt) : v.Proceeds (v.announceAll statements) := by
  unfold announceAll
  induction statements generalizing v with
  | nil => exact Proceeds.refl v
  | cons stmt rest ih =>
    rw [List.foldl_cons]
    cases stmt.declared? with
    | none => exact ih
    | some name => exact (proceeds_announce name).trans ih

theorem proceeds_extend (name : String) (hnext : v.scopes.next < countLimit) :
    v.Proceeds { v with scopes := v.scopes.extend name } :=
  ⟨Scopes.inside_extend name, fun _ => rfl, fun hs => hs.extend name hnext⟩

theorem proceeds_grow (hnext : v.scopes.next < countLimit) :
    v.Proceeds { v with scopes := v.scopes.grow } :=
  ⟨Scopes.inside_grow, fun _ => rfl, fun hs => hs.grow hnext⟩

/-- The slots of a loop over an array are taken in the scope that is opened for the loop. -/
theorem proceeds_forHeader (name : String) (hnext : v.scopes.next + 2 < countLimit) :
    v.enter.Proceeds (v.forHeader name) := by
  have h₀ : v.enter.scopes.next < countLimit :=
    Nat.lt_trans (Nat.lt_add_of_pos_right (by decide)) hnext
  have h₁ : v.enter.scopes.grow.next < countLimit := Nat.lt_of_succ_lt hnext
  exact ((proceeds_grow h₀).trans (proceeds_grow h₁)).trans (proceeds_extend name hnext)

end Visible

open Visible

variable {around : Surroundings} {inLoop : Bool} {v v' : Visible}

/-- Inside a scope no declaration is one of a script global. -/
theorem global?_enter (around : Surroundings) (v : Visible) (name : String) :
    around.global? v.enter name = none := by
  simp [Surroundings.global?, Visible.enter, Scopes.enter, Scopes.isOutermost]

/-- What a declaration is for does not change while statements of its scope are bound. -/
theorem global?_proceeds {v' : Visible} (h : v.Proceeds v') (name : String) :
    around.global? v' name = around.global? v name := by
  simp [Surroundings.global?, Scopes.isOutermost, h.inside.outer_eq]

/-- No declaration in a block is one of a script global. -/
theorem global?_block (around : Surroundings) (v : Visible) (statements : List Stmt)
    (name : String) : around.global? (v.enter.announceAll statements) name = none :=
  (global?_proceeds (proceeds_announceAll statements) name).trans (global?_enter around v name)

/-- A declaration works in the innermost scope or completes a script global. -/
theorem bindDeclaration_proceeds {name : String} {initial : Option Expr} {b : Bound.Stmt}
    (h : bindDeclaration around v name initial = .ok (b, v')) : v.Proceeds v' := by
  rcases hglobal : around.global? v name with _ | id
  · obtain ⟨_, _, _, hnext, hr⟩ := (bindDeclaration_local hglobal).mp h
    obtain ⟨-, rfl⟩ := Prod.mk.inj hr
    have hannounced : (v.announce name).scopes.next < countLimit := by
      simpa [Visible.announce] using hnext
    exact (proceeds_announce name).trans (proceeds_extend name hannounced)
  · obtain ⟨_, _, hr⟩ := (bindDeclaration_global hglobal).mp h
    obtain ⟨-, rfl⟩ := Prod.mk.inj hr
    refine ⟨Scopes.Inside.refl _, fun houter => ?_, fun hs => hs⟩
    -- Inside a scope no declaration is one of a script global.
    simp [Surroundings.global?, Scopes.isOutermost, houter] at hglobal

mutual

/-- Binding a statement works in the innermost scope. -/
theorem bindStmt_proceeds (around : Surroundings) (inLoop : Bool) :
    (v v' : Visible) → (stmt : Stmt) → (b : Bound.Stmt) →
      bindStmt around inLoop v stmt = .ok (b, v') → v.Proceeds v'
  | v, _, .assign _ _, _, h => by
    obtain ⟨-, _, _, _, _, hr⟩ := bindStmt_assign.mp h
    obtain ⟨-, rfl⟩ := Prod.mk.inj hr
    exact Proceeds.refl v
  | v, _, .returnVoid, _, h => by
    obtain ⟨-, rfl⟩ := Prod.mk.inj (bindStmt_returnVoid.mp h)
    exact Proceeds.refl v
  | v, _, .returnValue _, _, h => by
    obtain ⟨_, _, hr⟩ := bindStmt_returnValue.mp h
    obtain ⟨-, rfl⟩ := Prod.mk.inj hr
    exact Proceeds.refl v
  | v, _, .whileLoop _ body, _, h => by
    obtain ⟨_, b₂, v₂, _, hbody, hr⟩ := bindStmt_whileLoop.mp h
    obtain ⟨-, rfl⟩ := Prod.mk.inj hr
    exact (bindStmt_proceeds around true v.enter v₂ body b₂ hbody).leave
  | v, _, .forLoop name _ body, _, h => by
    obtain ⟨_, b₂, v₂, _, hnext, hbody, hr⟩ := bindStmt_forLoop.mp h
    obtain ⟨-, rfl⟩ := Prod.mk.inj hr
    have hinner := bindStmt_proceeds around true (v.forHeader name).enter v₂ body b₂ hbody
    exact ((proceeds_forHeader name hnext).trans hinner.leave).leave
  | v, _, .ifThen _ body, _, h => by
    obtain ⟨_, b₂, v₂, _, hbody, hr⟩ := bindStmt_ifThen.mp h
    obtain ⟨-, rfl⟩ := Prod.mk.inj hr
    exact (bindStmt_proceeds around inLoop v.enter v₂ body b₂ hbody).leave
  | v, _, .ifElse _ body otherwise, _, h => by
    obtain ⟨_, b₂, v₂, b₃, v₃, _, hbody, hotherwise, hr⟩ := bindStmt_ifElse.mp h
    obtain ⟨-, rfl⟩ := Prod.mk.inj hr
    exact (bindStmt_proceeds around inLoop v.enter v₂ body b₂ hbody).leave.trans
      (bindStmt_proceeds around inLoop v₂.leave.enter v₃ otherwise b₃ hotherwise).leave
  | v, _, .discard _, _, h => by
    obtain ⟨_, _, hr⟩ := bindStmt_discard.mp h
    obtain ⟨-, rfl⟩ := Prod.mk.inj hr
    exact Proceeds.refl v
  | _, _, .declare _ _, _, h => bindDeclaration_proceeds (bindStmt_declare ▸ h)
  | v, _, .block statements, _, h => by
    obtain ⟨bs, v₂, hbody, hr⟩ := bindStmt_block.mp h
    obtain ⟨-, rfl⟩ := Prod.mk.inj hr
    exact ((proceeds_announceAll statements).trans
      (bindStmts_proceeds around inLoop _ v₂ statements bs hbody)).leave
  | v, _, .breakLoop, _, h => by
    obtain ⟨-, hr⟩ := bindStmt_breakLoop.mp h
    obtain ⟨-, rfl⟩ := Prod.mk.inj hr
    exact Proceeds.refl v
  | v, _, .continueLoop, _, h => by
    obtain ⟨-, hr⟩ := bindStmt_continueLoop.mp h
    obtain ⟨-, rfl⟩ := Prod.mk.inj hr
    exact Proceeds.refl v

/-- Binding statements works in the innermost scope. -/
theorem bindStmts_proceeds (around : Surroundings) (inLoop : Bool) :
    (v v' : Visible) → (statements : List Stmt) → (bs : List Bound.Stmt) →
      bindStmts around inLoop [] v statements = .ok (bs, v') → v.Proceeds v'
  | v, _, [], _, h => by
    obtain ⟨-, rfl⟩ := Prod.mk.inj (bindStmts_nil.mp h)
    exact Proceeds.refl v
  | v, _, stmt :: rest, _, h => by
    obtain ⟨b, v₁, bs, v₂, hstmt, hrest, hr⟩ := bindStmts_cons.mp h
    obtain ⟨-, rfl⟩ := Prod.mk.inj hr
    exact (bindStmt_proceeds around inLoop v v₁ stmt b hstmt).trans
      (bindStmts_proceeds around inLoop v₁ v₂ rest bs hrest)

end

/-- A statement that declares nothing leaves at most a higher peak behind, and a declaration
does what it says. -/
theorem bindStmt_rises {stmt : Stmt} {b : Bound.Stmt}
    (h : bindStmt around inLoop v stmt = .ok (b, v')) : (v.after around stmt).Rises v' := by
  cases stmt with
  | assign target value =>
    obtain ⟨-, _, _, _, _, hr⟩ := bindStmt_assign.mp h
    obtain ⟨-, rfl⟩ := Prod.mk.inj hr
    exact Rises.refl v
  | returnVoid =>
    obtain ⟨-, rfl⟩ := Prod.mk.inj (bindStmt_returnVoid.mp h)
    exact Rises.refl v
  | returnValue value =>
    obtain ⟨_, _, hr⟩ := bindStmt_returnValue.mp h
    obtain ⟨-, rfl⟩ := Prod.mk.inj hr
    exact Rises.refl v
  | whileLoop condition body =>
    obtain ⟨_, b₂, v₂, _, hbody, hr⟩ := bindStmt_whileLoop.mp h
    obtain ⟨-, rfl⟩ := Prod.mk.inj hr
    exact (bindStmt_proceeds around true v.enter v₂ body b₂ hbody).rises_leave
  | forLoop name source body =>
    obtain ⟨_, b₂, v₂, _, hnext, hbody, hr⟩ := bindStmt_forLoop.mp h
    obtain ⟨-, rfl⟩ := Prod.mk.inj hr
    have hinner := bindStmt_proceeds around true (v.forHeader name).enter v₂ body b₂ hbody
    exact ((proceeds_forHeader name hnext).trans hinner.leave).rises_leave
  | ifThen condition body =>
    obtain ⟨_, b₂, v₂, _, hbody, hr⟩ := bindStmt_ifThen.mp h
    obtain ⟨-, rfl⟩ := Prod.mk.inj hr
    exact (bindStmt_proceeds around inLoop v.enter v₂ body b₂ hbody).rises_leave
  | ifElse condition body otherwise =>
    obtain ⟨_, b₂, v₂, b₃, v₃, _, hbody, hotherwise, hr⟩ := bindStmt_ifElse.mp h
    obtain ⟨-, rfl⟩ := Prod.mk.inj hr
    exact (bindStmt_proceeds around inLoop v.enter v₂ body b₂ hbody).rises_leave.trans
      (bindStmt_proceeds around inLoop v₂.leave.enter v₃ otherwise b₃ hotherwise).rises_leave
  | discard value =>
    obtain ⟨_, _, hr⟩ := bindStmt_discard.mp h
    obtain ⟨-, rfl⟩ := Prod.mk.inj hr
    exact Rises.refl v
  | declare name initial =>
    rw [bindStmt_declare] at h
    rcases hglobal : around.global? v name with _ | id
    · obtain ⟨_, _, _, _, hr⟩ := (bindDeclaration_local hglobal).mp h
      obtain ⟨-, rfl⟩ := Prod.mk.inj hr
      simpa [Visible.after, Stmt.declared?, hglobal] using Rises.refl _
    · obtain ⟨_, _, hr⟩ := (bindDeclaration_global hglobal).mp h
      obtain ⟨-, rfl⟩ := Prod.mk.inj hr
      simpa [Visible.after, Stmt.declared?, hglobal] using Rises.refl _
  | block statements =>
    obtain ⟨bs, v₂, hbody, hr⟩ := bindStmt_block.mp h
    obtain ⟨-, rfl⟩ := Prod.mk.inj hr
    exact ((proceeds_announceAll statements).trans
      (bindStmts_proceeds around inLoop _ v₂ statements bs hbody)).rises_leave
  | breakLoop =>
    obtain ⟨-, hr⟩ := bindStmt_breakLoop.mp h
    obtain ⟨-, rfl⟩ := Prod.mk.inj hr
    exact Rises.refl v
  | continueLoop =>
    obtain ⟨-, hr⟩ := bindStmt_continueLoop.mp h
    obtain ⟨-, rfl⟩ := Prod.mk.inj hr
    exact Rises.refl v

/-- Parameters take the next slots in order. -/
theorem bindParams_proceeds {params : List String} (h : bindParams v params = .ok v') :
    v.Proceeds v' ∧ v'.scopes.next = v.scopes.next + params.length := by
  induction params generalizing v with
  | nil =>
    obtain rfl := bindParams_nil.mp h
    exact ⟨Proceeds.refl v, rfl⟩
  | cons name rest ih =>
    obtain ⟨-, hnext, hrest⟩ := bindParams_cons.mp h
    obtain ⟨hproceeds, hslots⟩ := ih hrest
    refine ⟨(proceeds_extend name hnext).trans hproceeds, ?_⟩
    rw [hslots, List.length_cons]
    simp only [Scopes.extend, Scopes.grow]
    omega

end HostScript
