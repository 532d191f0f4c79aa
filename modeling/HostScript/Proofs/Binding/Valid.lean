import HostScript.Proofs.Binding.Effect
import HostScript.Proofs.Binding.Signatures

/-!
# Bound programs refer to what is there

Every slot, script global and function that a bound tree mentions exists: slots lie below the size
of the frame, script globals and functions in the tables of the unit, and a call of a function
brings as many arguments as the function has parameters. The tables are those of any unit that the
signatures describe.
-/

namespace HostScript

/-- Whether a place is in the frame or in the tables of a unit. -/
def Place.Valid (u : CodeUnit) (locals : Nat) : Place → Prop
  | .slot n => n < locals
  | .script id => id < u.globals.size
  | .host _ => True

namespace Bound

mutual

/-- Whether all that an expression mentions is there. -/
def Expr.Valid (u : CodeUnit) (locals : Nat) : Expr → Prop
  | .void | .number _ | .string _ => True
  | .load place => place.Valid u locals
  | .index base position => base.Valid u locals ∧ position.Valid u locals
  | .array items => Expr.AllValid u locals items
  | .callScript function args =>
    u.functions[function]?.map (·.arity) = some args.length ∧ Expr.AllValid u locals args
  | .callNative _ args => Expr.AllValid u locals args
  | .callMethod object _ args => object.Valid u locals ∧ Expr.AllValid u locals args
  | .unary _ operand => operand.Valid u locals
  | .strict op lhs rhs => op.connective? = none ∧ lhs.Valid u locals ∧ rhs.Valid u locals
  | .connect _ lhs rhs => lhs.Valid u locals ∧ rhs.Valid u locals
termination_by structural expr => expr

/-- Whether all that some expressions mention is there. -/
def Expr.AllValid (u : CodeUnit) (locals : Nat) : List Expr → Prop
  | [] => True
  | expr :: rest => expr.Valid u locals ∧ Expr.AllValid u locals rest
termination_by structural exprs => exprs

end

/-- Whether all that a target mentions is there. -/
def Target.Valid (u : CodeUnit) (locals : Nat) : Target → Prop
  | .place p => p.Valid u locals
  | .element base position => base.Valid u locals ∧ position.Valid u locals

mutual

/-- Whether all that a statement mentions is there. -/
def Stmt.Valid (u : CodeUnit) (locals : Nat) : Stmt → Prop
  | .store target value => target.Valid u locals ∧ value.Valid u locals
  | .returnVoid | .breakLoop | .continueLoop => True
  | .returnValue value | .discard value => value.Valid u locals
  | .whileLoop condition body | .ifThen condition body =>
    condition.Valid u locals ∧ body.Valid u locals
  | .forLoop array cursor item source body =>
    array < locals ∧ cursor < locals ∧ item < locals ∧ source.Valid u locals ∧ body.Valid u locals
  | .ifElse condition body otherwise =>
    condition.Valid u locals ∧ body.Valid u locals ∧ otherwise.Valid u locals
  | .block statements => Stmt.AllValid u locals statements
termination_by structural stmt => stmt

/-- Whether all that some statements mention is there. -/
def Stmt.AllValid (u : CodeUnit) (locals : Nat) : List Stmt → Prop
  | [] => True
  | stmt :: rest => stmt.Valid u locals ∧ Stmt.AllValid u locals rest
termination_by structural statements => statements

end

end Bound

/-- Reading a target mentions what the target does. -/
theorem Bound.Target.Valid.read {u : CodeUnit} {locals : Nat} {t : Target} (h : t.Valid u locals) :
    t.read.Valid u locals := by
  induction t with
  | place p => exact h
  | element base position ih => exact ⟨ih h.1, h.2⟩

/-- Whether the tables of a unit are those that binding worked with. -/
structure Signatures.Describes (s : Signatures) (u : CodeUnit) : Prop where
  functions : ∀ (name : String) (signature : Signature), s.functions[name]? = some signature →
    u.functions[signature.id]?.map (·.arity) = some signature.arity
  globals : ∀ (name : String) (id : Nat), s.globals[name]? = some id → id < u.globals.size

section Binding

variable {s : Signatures} {u : CodeUnit} {v : Visible} {locals : Nat}

/-- A variable lives in a place that is there. -/
theorem place_valid (hs : s.Describes u) (hv : v.scopes.Sound) (hnext : v.scopes.next ≤ locals)
    {name : String} {p : Place} (h : v.place s name = .ok p) : p.Valid u locals := by
  unfold Visible.place at h
  split at h
  next slot hfind =>
    obtain rfl := Except.ok.inj h
    exact Nat.lt_of_lt_of_le (hv.find?_lt hfind) hnext
  next =>
    split at h
    next id hid =>
      split at h
      · obtain rfl := Except.ok.inj h
        exact hs.globals name id hid
      · cases h
    next =>
      split at h
      · cases h
      · obtain rfl := Except.ok.inj h
        trivial

mutual

/-- A bound expression mentions only what is there. -/
theorem bindExpr_valid (hs : s.Describes u) (hv : v.scopes.Sound) (hnext : v.scopes.next ≤ locals) :
    (x : Expr) → (b : Bound.Expr) → bindExpr s v x = .ok b → b.Valid u locals
  | .var _, _, h => by
    obtain ⟨p, hp, rfl⟩ := bindExpr_var.mp h
    exact place_valid hs hv hnext hp
  | .number _, _, h => by
    obtain rfl := bindExpr_number.mp h
    trivial
  | .string _, _, h => by
    obtain rfl := bindExpr_string.mp h
    trivial
  | .array items, _, h => by
    obtain ⟨-, bs, hbs, rfl⟩ := bindExpr_array.mp h
    exact (bindExprs_valid hs hv hnext items bs hbs).2
  | .index base position, _, h => by
    obtain ⟨b₁, b₂, h₁, h₂, rfl⟩ := bindExpr_index.mp h
    exact ⟨bindExpr_valid hs hv hnext base b₁ h₁, bindExpr_valid hs hv hnext position b₂ h₂⟩
  | .call function args, _, h => by
    rcases hfunction : s.functions[function]? with _ | signature
    · obtain ⟨-, bs, hbs, rfl⟩ := (bindExpr_call_native hfunction).mp h
      exact (bindExprs_valid hs hv hnext args bs hbs).2
    · obtain ⟨harity, -, bs, hbs, rfl⟩ := (bindExpr_call_script hfunction).mp h
      obtain ⟨hlength, hvalid⟩ := bindExprs_valid hs hv hnext args bs hbs
      refine ⟨?_, hvalid⟩
      rw [hs.functions function signature hfunction, harity, hlength]
  | .method object _ args, _, h => by
    obtain ⟨b₁, h₁, -, bs, hbs, rfl⟩ := bindExpr_method.mp h
    exact ⟨bindExpr_valid hs hv hnext object b₁ h₁, (bindExprs_valid hs hv hnext args bs hbs).2⟩
  | .unary _ operand, _, h => by
    obtain ⟨b₁, h₁, rfl⟩ := bindExpr_unary.mp h
    exact bindExpr_valid hs hv hnext operand b₁ h₁
  | .binary op lhs rhs, _, h => by
    obtain ⟨b₁, b₂, h₁, h₂, rfl⟩ := bindExpr_binary.mp h
    have hlhs := bindExpr_valid hs hv hnext lhs b₁ h₁
    have hrhs := bindExpr_valid hs hv hnext rhs b₂ h₂
    split
    next => exact ⟨hlhs, hrhs⟩
    next hop => exact ⟨hop, hlhs, hrhs⟩

/-- Bound expressions are as many as there were, and mention only what is there. -/
theorem bindExprs_valid (hs : s.Describes u) (hv : v.scopes.Sound)
    (hnext : v.scopes.next ≤ locals) :
    (xs : List Expr) → (bs : List Bound.Expr) → bindExprs s v [] xs = .ok bs →
      xs.length = bs.length ∧ Bound.Expr.AllValid u locals bs
  | [], _, h => by
    obtain rfl := bindExprs_nil.mp h
    exact ⟨rfl, trivial⟩
  | x :: xs, _, h => by
    obtain ⟨b, bs, hb, hbs, rfl⟩ := bindExprs_cons.mp h
    obtain ⟨hlength, hvalid⟩ := bindExprs_valid hs hv hnext xs bs hbs
    exact ⟨congrArg (· + 1) hlength, bindExpr_valid hs hv hnext x b hb, hvalid⟩

end

/-- A bound target mentions only what is there. -/
theorem bindTarget_valid (hs : s.Describes u) (hv : v.scopes.Sound)
    (hnext : v.scopes.next ≤ locals) :
    (x : Expr) → (t : Bound.Target) → bindTarget s v x = .ok t → t.Valid u locals
  | .var _, _, h => by
    obtain ⟨p, hp, rfl⟩ := bindTarget_var.mp h
    exact place_valid hs hv hnext hp
  | .index base position, _, h => by
    obtain ⟨t, b, ht, hb, rfl⟩ := bindTarget_index.mp h
    exact ⟨bindTarget_valid hs hv hnext base t ht, bindExpr_valid hs hv hnext position b hb⟩

/-- A bound initial value mentions only what is there. -/
theorem bindInitial_valid (hs : s.Describes u) (hv : v.scopes.Sound)
    (hnext : v.scopes.next ≤ locals) {initial : Option Expr} {b : Bound.Expr}
    (h : bindInitial s v initial = .ok b) : b.Valid u locals := by
  cases initial with
  | none =>
    obtain rfl := Except.ok.inj h
    trivial
  | some x => exact bindExpr_valid hs hv hnext x b h

end Binding

section Statements

open Visible

variable {around : Surroundings} {u : CodeUnit} {locals : Nat}

/-- The global that a declaration is found to be is in the table. -/
theorem global?_lt (hs : around.signatures.Describes u) {v : Visible} {name : String} {id : Nat}
    (h : around.global? v name = some id) : id < u.globals.size := by
  unfold Surroundings.global? at h
  split at h
  · exact hs.globals name id h
  · cases h

/-- A bound declaration mentions only what is there. -/
theorem bindDeclaration_valid (hs : around.signatures.Describes u) {v v' : Visible}
    (hv : v.scopes.Sound) {name : String} {initial : Option Expr} {b : Bound.Stmt}
    (h : bindDeclaration around v name initial = .ok (b, v')) (hpeak : v'.scopes.peak ≤ locals) :
    b.Valid u locals := by
  have hle := (bindDeclaration_proceeds h).inside.peak_le
  have hnext : v.scopes.next ≤ locals := Nat.le_trans hv.next_le (Nat.le_trans hle hpeak)
  rcases hglobal : around.global? v name with _ | id
  · obtain ⟨b₁, hb, -, -, hr⟩ := (bindDeclaration_local hglobal).mp h
    obtain ⟨rfl, rfl⟩ := Prod.mk.inj hr
    have hnext' : (v.announce name).scopes.next ≤ locals := by simpa [Visible.announce] using hnext
    refine ⟨?_, bindInitial_valid hs (hv.announce name) hnext' hb⟩
    -- The slot that is taken counts towards the peak.
    have htaken : v.scopes.next + 1 ≤ ((v.scopes.announce name).extend name).peak := by
      rw [← Scopes.next_announce v.scopes name]
      exact Nat.le_max_right _ _
    exact Nat.le_trans htaken hpeak
  · obtain ⟨b₁, hb, hr⟩ := (bindDeclaration_global hglobal).mp h
    obtain ⟨rfl, rfl⟩ := Prod.mk.inj hr
    exact ⟨global?_lt hs hglobal, bindInitial_valid hs hv hnext hb⟩

mutual

/-- A bound statement mentions only what is there, in a frame of the size that binding has found. -/
theorem bindStmt_valid (hs : around.signatures.Describes u) (inLoop : Bool) :
    (v v' : Visible) → v.scopes.Sound → v'.scopes.peak ≤ locals → (stmt : Stmt) → (b : Bound.Stmt) →
      bindStmt around inLoop v stmt = .ok (b, v') → b.Valid u locals
  | v, v', hv, hpeak, stmt, b, h => by
    have hpeak' : v.scopes.peak ≤ locals :=
      Nat.le_trans (bindStmt_proceeds around inLoop v v' stmt b h).inside.peak_le hpeak
    have hnext : v.scopes.next ≤ locals := Nat.le_trans hv.next_le hpeak'
    match stmt with
    | .assign target value =>
      obtain ⟨-, b₁, t, hb, ht, hr⟩ := bindStmt_assign.mp h
      obtain ⟨rfl, -⟩ := Prod.mk.inj hr
      exact ⟨bindTarget_valid hs hv hnext target t ht, bindExpr_valid hs hv hnext value b₁ hb⟩
    | .returnVoid =>
      obtain ⟨rfl, -⟩ := Prod.mk.inj (bindStmt_returnVoid.mp h)
      trivial
    | .returnValue value =>
      obtain ⟨b₁, hb, hr⟩ := bindStmt_returnValue.mp h
      obtain ⟨rfl, -⟩ := Prod.mk.inj hr
      exact bindExpr_valid hs hv hnext value b₁ hb
    | .whileLoop condition body =>
      obtain ⟨b₁, b₂, v₂, hb, hbody, hr⟩ := bindStmt_whileLoop.mp h
      obtain ⟨rfl, rfl⟩ := Prod.mk.inj hr
      exact ⟨bindExpr_valid hs hv hnext condition b₁ hb,
        bindStmt_valid hs true v.enter v₂ hv.enter (Scopes.peak_leave _ ▸ hpeak) body b₂ hbody⟩
    | .forLoop name source body =>
      obtain ⟨b₁, b₂, v₂, hb, hlimit, hbody, hr⟩ := bindStmt_forLoop.mp h
      obtain ⟨rfl, rfl⟩ := Prod.mk.inj hr
      have hpeak₂ : v₂.scopes.peak ≤ locals := by simpa [Visible.leave] using hpeak
      have hinner := bindStmt_proceeds around true (v.forHeader name).enter v₂ body b₂ hbody
      have hheader := (proceeds_forHeader name hlimit).sound hv.enter
      have hslots : v.scopes.next + 3 ≤ locals :=
        Nat.le_trans hheader.next_le (Nat.le_trans hinner.inside.peak_le hpeak₂)
      exact ⟨by omega, by omega, by omega, bindExpr_valid hs hv hnext source b₁ hb,
        bindStmt_valid hs true (v.forHeader name).enter v₂ hheader.enter hpeak₂ body b₂ hbody⟩
    | .ifThen condition body =>
      obtain ⟨b₁, b₂, v₂, hb, hbody, hr⟩ := bindStmt_ifThen.mp h
      obtain ⟨rfl, rfl⟩ := Prod.mk.inj hr
      exact ⟨bindExpr_valid hs hv hnext condition b₁ hb,
        bindStmt_valid hs inLoop v.enter v₂ hv.enter (Scopes.peak_leave _ ▸ hpeak) body b₂ hbody⟩
    | .ifElse condition body otherwise =>
      obtain ⟨b₁, b₂, v₂, b₃, v₃, hb, hbody, hotherwise, hr⟩ := bindStmt_ifElse.mp h
      obtain ⟨rfl, rfl⟩ := Prod.mk.inj hr
      have hpeak₃ : v₃.scopes.peak ≤ locals := Scopes.peak_leave _ ▸ hpeak
      have hsecond := bindStmt_proceeds around inLoop v₂.leave.enter v₃ otherwise b₃ hotherwise
      have hfirst := bindStmt_proceeds around inLoop v.enter v₂ body b₂ hbody
      have hpeak₂ : v₂.scopes.peak ≤ locals :=
        Scopes.peak_leave v₂.scopes ▸ Nat.le_trans hsecond.inside.peak_le hpeak₃
      exact ⟨bindExpr_valid hs hv hnext condition b₁ hb,
        bindStmt_valid hs inLoop v.enter v₂ hv.enter hpeak₂ body b₂ hbody,
        bindStmt_valid hs inLoop v₂.leave.enter v₃
          (hfirst.leave.sound hv).enter hpeak₃ otherwise b₃ hotherwise⟩
    | .discard value =>
      obtain ⟨b₁, hb, hr⟩ := bindStmt_discard.mp h
      obtain ⟨rfl, -⟩ := Prod.mk.inj hr
      exact bindExpr_valid hs hv hnext value b₁ hb
    | .declare name initial => exact bindDeclaration_valid hs hv (bindStmt_declare ▸ h) hpeak
    | .block statements =>
      obtain ⟨bs, v₂, hbody, hr⟩ := bindStmt_block.mp h
      obtain ⟨rfl, rfl⟩ := Prod.mk.inj hr
      exact bindStmts_valid hs inLoop _ v₂ ((proceeds_announceAll statements).sound hv.enter)
        (Scopes.peak_leave _ ▸ hpeak) statements bs hbody
    | .breakLoop =>
      obtain ⟨-, hr⟩ := bindStmt_breakLoop.mp h
      obtain ⟨rfl, -⟩ := Prod.mk.inj hr
      trivial
    | .continueLoop =>
      obtain ⟨-, hr⟩ := bindStmt_continueLoop.mp h
      obtain ⟨rfl, -⟩ := Prod.mk.inj hr
      trivial

/-- Bound statements mention only what is there, in a frame of the size that binding has found. -/
theorem bindStmts_valid (hs : around.signatures.Describes u) (inLoop : Bool) :
    (v v' : Visible) → v.scopes.Sound → v'.scopes.peak ≤ locals → (statements : List Stmt) →
      (bs : List Bound.Stmt) → bindStmts around inLoop [] v statements = .ok (bs, v') →
      Bound.Stmt.AllValid u locals bs
  | _, _, _, _, [], _, h => by
    obtain ⟨rfl, -⟩ := Prod.mk.inj (bindStmts_nil.mp h)
    trivial
  | v, _, hv, hpeak, stmt :: rest, _, h => by
    obtain ⟨b, v₁, bs, v₂, hstmt, hrest, hr⟩ := bindStmts_cons.mp h
    obtain ⟨rfl, rfl⟩ := Prod.mk.inj hr
    have hfirst := bindStmt_proceeds around inLoop v v₁ stmt b hstmt
    have hsecond := bindStmts_proceeds around inLoop v₁ v₂ rest bs hrest
    exact ⟨bindStmt_valid hs inLoop v v₁ hv (Nat.le_trans hsecond.inside.peak_le hpeak) stmt b
        hstmt, bindStmts_valid hs inLoop v₁ v₂ (hfirst.sound hv) hpeak rest bs hrest⟩

end

/-- A bound body has a slot for each parameter and mentions only what is there. -/
theorem bindBody_valid (hs : around.signatures.Describes u) {v : Visible} (hv : v.scopes.Sound)
    {name : String} {params : List String} {statements : List Stmt} {b : Bound.Body}
    (h : bindBody around v name params statements = .ok b) :
    b.arity ≤ b.locals ∧ Bound.Stmt.AllValid u b.locals b.statements := by
  obtain ⟨v₁, bs, v₂, hparams, hbody, rfl⟩ := bindBody_eq_ok_iff.mp h
  obtain ⟨hproceeds, hnext⟩ := bindParams_proceeds hparams
  have hsound := hproceeds.sound hv
  have hrest := bindStmts_proceeds around false v₁ v₂ statements bs hbody
  refine ⟨?_, bindStmts_valid hs false v₁ v₂ hsound (Nat.le_refl _) statements bs hbody⟩
  calc params.length ≤ v₁.scopes.next := by omega
    _ ≤ v₁.scopes.peak := hsound.next_le
    _ ≤ v₂.scopes.peak := hrest.inside.peak_le

end Statements

end HostScript
