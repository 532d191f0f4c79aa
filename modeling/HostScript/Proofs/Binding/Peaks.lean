import HostScript.Proofs.Binding.Effect
import HostScript.Proofs.WellFormed.Rules

/-!
# The peak of a body

How many slots a body has in use is counted along its statements. A declaration takes one slot for
the rest of its scope, a loop over an array takes three while it runs, and what a scope took is free
again after it. Binding keeps the count in a cell that rises and falls and the peak in another; the
peak is the largest count that there was.
-/

namespace HostScript

/-- The number of slots in use after a statement, from the number before it. -/
def Stmt.usedAfter : Stmt → Nat → Nat
  | .declare .., n => n + 1
  | _, n => n

mutual

/-- The most slots in use at once in a statement, from the number in use before it. -/
def Stmt.peakFrom : Stmt → Nat → Nat
  | .declare .., n => n + 1
  | .whileLoop _ body, n | .ifThen _ body, n => body.peakFrom n
  | .forLoop _ _ body, n => body.peakFrom (n + 3)
  | .ifElse _ body otherwise, n => max (body.peakFrom n) (otherwise.peakFrom n)
  | .block statements, n => Stmt.peakOf statements n
  | .assign .., n | .returnVoid, n | .returnValue _, n | .discard _, n | .breakLoop, n
  | .continueLoop, n => n
termination_by structural stmt => stmt

/-- The most slots in use at once in the statements of one scope, from the number in use before
them. -/
def Stmt.peakOf : List Stmt → Nat → Nat
  | [], n => n
  | stmt :: rest, n => max (stmt.peakFrom n) (Stmt.peakOf rest (stmt.usedAfter n))
termination_by structural statements => statements

end

/-- The most slots in use at once in top-level statements, from the number in use before them.
Script globals take no slots. -/
def Stmt.topPeakOf : List Stmt → Nat → Nat
  | [], n => n
  | .declare .. :: rest, n => Stmt.topPeakOf rest n
  | stmt :: rest, n => max (stmt.peakFrom n) (Stmt.topPeakOf rest n)

/-- The number of slots in the frames of a function, whose parameters have the first ones. -/
def FunctionDecl.frameSize (f : FunctionDecl) : Nat :=
  f.body.peakFrom f.params.length

/-- The number of slots in the frame of the top-level code. -/
def Program.frameSize (p : Program) : Nat :=
  Stmt.topPeakOf p.statements 0

theorem Stmt.usedAfter_eq (stmt : Stmt) (n : Nat) : stmt.usedAfter n = n + stmt.kept := by
  cases stmt <;> rfl

mutual

/-- The slots of a statement come on top of those in use before it. -/
theorem Stmt.peakFrom_eq : (stmt : Stmt) → (n : Nat) → stmt.peakFrom n = n + stmt.slots
  | .declare .., _ => rfl
  | .whileLoop _ body, n | .ifThen _ body, n => body.peakFrom_eq n
  | .forLoop _ _ body, n => by
    rw [Stmt.peakFrom, Stmt.slots, body.peakFrom_eq, Nat.add_assoc]
  | .ifElse _ body otherwise, n => by
    rw [Stmt.peakFrom, Stmt.slots, body.peakFrom_eq, otherwise.peakFrom_eq, Nat.add_max_add_left]
  | .block statements, n => Stmt.peakOf_eq statements n
  | .assign .., _ | .returnVoid, _ | .returnValue _, _ | .discard _, _ | .breakLoop, _
  | .continueLoop, _ => rfl
termination_by structural stmt => stmt

/-- The slots of the statements of one scope come on top of those in use before them. -/
theorem Stmt.peakOf_eq : (statements : List Stmt) → (n : Nat) →
    Stmt.peakOf statements n = n + Stmt.slotsOf statements
  | [], _ => rfl
  | stmt :: rest, n => by
    rw [Stmt.peakOf, Stmt.slotsOf, stmt.peakFrom_eq, Stmt.peakOf_eq rest, stmt.usedAfter_eq,
      Nat.add_assoc, Nat.add_max_add_left]
termination_by structural statements => statements

end

/-- A top-level statement that declares nothing has the slots that it would have elsewhere. -/
theorem Stmt.topPeakOf_cons {stmt : Stmt} (h : stmt.declared? = none) (rest : List Stmt) (n : Nat) :
    Stmt.topPeakOf (stmt :: rest) n = max (stmt.peakFrom n) (Stmt.topPeakOf rest n) := by
  cases stmt with
  | declare name initial => cases h
  | _ => rfl

/-- The slots of top-level statements come on top of those in use before them. -/
theorem Stmt.topPeakOf_eq (statements : List Stmt) (n : Nat) :
    Stmt.topPeakOf statements n = n + Stmt.topSlots statements := by
  induction statements with
  | nil => rfl
  | cons stmt rest ih =>
    cases hdeclared : stmt.declared? with
    | none =>
      rw [Stmt.topPeakOf_cons hdeclared, ih, stmt.peakFrom_eq, Nat.add_max_add_left]
      simp [Stmt.topSlots, hdeclared]
    | some name =>
      obtain ⟨initial, rfl⟩ := Stmt.eq_declare hdeclared
      simp [Stmt.topPeakOf, ih, Stmt.topSlots, hdeclared]

theorem Stmt.le_peakFrom (stmt : Stmt) (n : Nat) : n ≤ stmt.peakFrom n := by
  rw [stmt.peakFrom_eq]
  exact Nat.le_add_right n _

/-- A body of one statement has the peak of that statement. -/
theorem Stmt.peakOf_singleton (stmt : Stmt) (n : Nat) : Stmt.peakOf [stmt] n = stmt.peakFrom n := by
  have hafter : stmt.usedAfter n ≤ stmt.peakFrom n := by
    cases stmt with
    | declare name initial => exact Nat.le_refl _
    | _ => exact Stmt.le_peakFrom _ n
  exact Nat.max_eq_left hafter

section Binding

variable {around : Surroundings} {v v' : Visible}

/-- Where nothing is taken the peak stays. -/
theorem Scopes.Sound.peak_eq_max {s : Scopes} (h : s.Sound) : s.peak = max s.peak s.next :=
  (Nat.max_eq_left h.next_le).symm

/-- Announcing names leaves the counts alone. -/
theorem Visible.counts_announceAll (v : Visible) (statements : List Stmt) :
    (v.announceAll statements).scopes.next = v.scopes.next ∧
      (v.announceAll statements).scopes.peak = v.scopes.peak := by
  unfold announceAll
  induction statements generalizing v with
  | nil => exact ⟨rfl, rfl⟩
  | cons stmt rest ih =>
    rw [List.foldl_cons]
    cases stmt.declared? with
    | none => exact ih v
    | some name => simpa [announce] using ih (v.announce name)

/-- The peak of a scope stays when it is left. -/
theorem Visible.peak_leave (v : Visible) : v.leave.scopes.peak = v.scopes.peak :=
  v.scopes.peak_leave

/-- A loop over an array takes three slots. -/
theorem Visible.peak_forHeader (v : Visible) (name : String) :
    (v.forHeader name).enter.scopes.peak = max v.scopes.peak (v.scopes.next + 3) := by
  simp only [forHeader, enter, Scopes.enter, Scopes.extend, Scopes.grow]
  omega

/-- After a statement as many slots are in use as were before, and one more for a declaration. -/
theorem next_bindStmt {inLoop : Bool} {stmt : Stmt} {b : Bound.Stmt}
    (hlocal : ∀ name ∈ stmt.declared?, around.global? v name = none)
    (h : bindStmt around inLoop v stmt = .ok (b, v')) :
    v'.scopes.next = stmt.usedAfter v.scopes.next := by
  have hnext : v'.scopes.next = (v.after around stmt).scopes.next := by rw [(bindStmt_rises h).eq]
  rw [hnext]
  cases stmt with
  | declare name initial =>
    simp [Visible.after, Stmt.declared?, hlocal name rfl, Stmt.usedAfter,
      Scopes.extend, Scopes.grow]
  | _ => rfl

mutual

/-- Binding a statement raises the peak to that of the statement. -/
theorem bindStmt_peak (around : Surroundings) (inLoop : Bool) :
    (v v' : Visible) → (stmt : Stmt) → (b : Bound.Stmt) →
      (∀ name ∈ stmt.declared?, around.global? v name = none) → v.scopes.Sound →
      bindStmt around inLoop v stmt = .ok (b, v') →
      v'.scopes.peak = max v.scopes.peak (stmt.peakFrom v.scopes.next)
  | v, _, .assign _ _, _, _, hs, h => by
    obtain ⟨-, _, _, _, _, hr⟩ := bindStmt_assign.mp h
    obtain ⟨-, rfl⟩ := Prod.mk.inj hr
    exact hs.peak_eq_max
  | v, _, .returnVoid, _, _, hs, h => by
    obtain ⟨-, rfl⟩ := Prod.mk.inj (bindStmt_returnVoid.mp h)
    exact hs.peak_eq_max
  | v, _, .returnValue _, _, _, hs, h => by
    obtain ⟨_, _, hr⟩ := bindStmt_returnValue.mp h
    obtain ⟨-, rfl⟩ := Prod.mk.inj hr
    exact hs.peak_eq_max
  | v, _, .discard _, _, _, hs, h => by
    obtain ⟨_, _, hr⟩ := bindStmt_discard.mp h
    obtain ⟨-, rfl⟩ := Prod.mk.inj hr
    exact hs.peak_eq_max
  | v, _, .breakLoop, _, _, hs, h => by
    obtain ⟨-, hr⟩ := bindStmt_breakLoop.mp h
    obtain ⟨-, rfl⟩ := Prod.mk.inj hr
    exact hs.peak_eq_max
  | v, _, .continueLoop, _, _, hs, h => by
    obtain ⟨-, hr⟩ := bindStmt_continueLoop.mp h
    obtain ⟨-, rfl⟩ := Prod.mk.inj hr
    exact hs.peak_eq_max
  | v, _, .declare name _, _, hlocal, hs, h => by
    obtain ⟨_, _, _, _, hr⟩ := (bindDeclaration_local (hlocal name rfl)).mp (bindStmt_declare ▸ h)
    obtain ⟨-, rfl⟩ := Prod.mk.inj hr
    simp [Scopes.extend, Scopes.grow, Stmt.peakFrom]
  | v, _, .whileLoop _ body, _, _, hs, h => by
    obtain ⟨_, b₂, v₂, _, hbody, hr⟩ := bindStmt_whileLoop.mp h
    obtain ⟨-, rfl⟩ := Prod.mk.inj hr
    rw [v₂.peak_leave]
    exact bindStmt_peak around true v.enter v₂ body b₂ (fun name _ => global?_enter around v name)
      hs.enter hbody
  | v, _, .ifThen _ body, _, _, hs, h => by
    obtain ⟨_, b₂, v₂, _, hbody, hr⟩ := bindStmt_ifThen.mp h
    obtain ⟨-, rfl⟩ := Prod.mk.inj hr
    rw [v₂.peak_leave]
    exact bindStmt_peak around inLoop v.enter v₂ body b₂ (fun name _ => global?_enter around v name)
      hs.enter hbody
  | v, _, .forLoop name _ body, _, _, hs, h => by
    obtain ⟨_, b₂, v₂, _, hnext, hbody, hr⟩ := bindStmt_forLoop.mp h
    obtain ⟨-, rfl⟩ := Prod.mk.inj hr
    have hheader := (Visible.proceeds_forHeader name hnext).sound hs.enter
    have hpeak := bindStmt_peak around true (v.forHeader name).enter v₂ body b₂
      (fun other _ => global?_enter around _ other) hheader.enter hbody
    -- The three slots of the loop are in use before its body, whose peak covers them.
    have hle := body.le_peakFrom (v.scopes.next + 3)
    rw [v₂.leave.peak_leave, v₂.peak_leave, hpeak, v.peak_forHeader, Stmt.peakFrom, Nat.max_assoc]
    exact congrArg _ (Nat.max_eq_right hle)
  | v, _, .ifElse _ body otherwise, _, _, hs, h => by
    obtain ⟨_, b₂, v₂, b₃, v₃, _, hbody, hotherwise, hr⟩ := bindStmt_ifElse.mp h
    obtain ⟨-, rfl⟩ := Prod.mk.inj hr
    have hproceeds := bindStmt_proceeds around inLoop v.enter v₂ body b₂ hbody
    -- The second branch starts from the count that the first one started from, but with its peak.
    have hbetween : v₂.leave.scopes.next = v.scopes.next := by rw [hproceeds.rises_leave.eq]
    have hfirst := bindStmt_peak around inLoop v.enter v₂ body b₂
      (fun name _ => global?_enter around v name) hs.enter hbody
    have hsecond := bindStmt_peak around inLoop v₂.leave.enter v₃ otherwise b₃
      (fun name _ => global?_enter around v₂.leave name) (hproceeds.leave.sound hs).enter hotherwise
    calc v₃.leave.scopes.peak = v₃.scopes.peak := v₃.peak_leave
      _ = max v₂.leave.scopes.peak (otherwise.peakFrom v₂.leave.scopes.next) := hsecond
      _ = max (max v.scopes.peak (body.peakFrom v.scopes.next))
          (otherwise.peakFrom v.scopes.next) := by
        rw [v₂.peak_leave, hfirst, hbetween]
        rfl
      _ = max v.scopes.peak (max (body.peakFrom v.scopes.next)
            (otherwise.peakFrom v.scopes.next)) :=
        Nat.max_assoc ..
  | v, _, .block statements, _, _, hs, h => by
    obtain ⟨bs, v₂, hbody, hr⟩ := bindStmt_block.mp h
    obtain ⟨-, rfl⟩ := Prod.mk.inj hr
    have hannounced := Visible.proceeds_announceAll (v := v.enter) statements
    obtain ⟨hnext, hpeak⟩ := v.enter.counts_announceAll statements
    have hstatements := bindStmts_peak around inLoop (v.enter.announceAll statements) v₂ statements
      bs (global?_block around v statements) (hannounced.sound hs.enter) hbody
    rw [hnext, hpeak] at hstatements
    rw [v₂.peak_leave]
    exact hstatements

/-- Binding the statements of one scope raises the peak to that of the statements. -/
theorem bindStmts_peak (around : Surroundings) (inLoop : Bool) :
    (v v' : Visible) → (statements : List Stmt) → (bs : List Bound.Stmt) →
      (∀ name, around.global? v name = none) → v.scopes.Sound →
      bindStmts around inLoop [] v statements = .ok (bs, v') →
      v'.scopes.peak = max v.scopes.peak (Stmt.peakOf statements v.scopes.next)
  | v, _, [], _, _, hs, h => by
    obtain ⟨-, rfl⟩ := Prod.mk.inj (bindStmts_nil.mp h)
    exact hs.peak_eq_max
  | v, _, stmt :: rest, _, hlocal, hs, h => by
    obtain ⟨b, v₁, bs, v₂, hstmt, hrest, hr⟩ := bindStmts_cons.mp h
    obtain ⟨-, rfl⟩ := Prod.mk.inj hr
    have hproceeds := bindStmt_proceeds around inLoop v v₁ stmt b hstmt
    have hfirst := bindStmt_peak around inLoop v v₁ stmt b (fun name _ => hlocal name) hs hstmt
    have hothers := bindStmts_peak around inLoop v₁ v₂ rest bs
      (fun name => (global?_proceeds hproceeds name).trans (hlocal name)) (hproceeds.sound hs) hrest
    rw [hothers, hfirst, next_bindStmt (fun name _ => hlocal name) hstmt, Stmt.peakOf,
      Nat.max_assoc]

end

/-- Binding parameters raises the peak to their number. -/
theorem bindParams_peak {params : List String} (hs : v.scopes.Sound)
    (h : bindParams v params = .ok v') :
    v'.scopes.peak = max v.scopes.peak (v.scopes.next + params.length) := by
  induction params generalizing v with
  | nil =>
    obtain rfl := bindParams_nil.mp h
    exact hs.peak_eq_max
  | cons name rest ih =>
    obtain ⟨-, hnext, hrest⟩ := bindParams_cons.mp h
    rw [ih (hs.extend name hnext) hrest, List.length_cons]
    simp only [Scopes.extend, Scopes.grow]
    omega

/-- Binding top-level statements raises the peak to that of the statements, of which the
declarations are those of script globals. -/
theorem bindStmts_topPeak {s : Signatures} {statements : List Stmt} {bs : List Bound.Stmt}
    (hglobals : ∀ name ∈ declaredNames statements, name ∈ s.globals) (houter : v.scopes.outer = [])
    (hs : v.scopes.Sound)
    (h : bindStmts { signatures := s, topLevel := true } false [] v statements = .ok (bs, v')) :
    v'.scopes.peak = max v.scopes.peak (Stmt.topPeakOf statements v.scopes.next) := by
  induction statements generalizing v bs with
  | nil =>
    obtain ⟨-, rfl⟩ := Prod.mk.inj (bindStmts_nil.mp h)
    exact hs.peak_eq_max
  | cons stmt rest ih =>
    obtain ⟨b, v₁, bs, v₂, hstmt, hrest, hr⟩ := bindStmts_cons.mp h
    obtain ⟨-, rfl⟩ := Prod.mk.inj hr
    rw [declaredNames_cons, List.forall_mem_append] at hglobals
    have hproceeds := bindStmt_proceeds _ false v v₁ stmt b hstmt
    have hothers := ih hglobals.2 (hproceeds.inside.outer_eq.trans houter)
      (hproceeds.sound hs) hrest
    cases hdeclared : stmt.declared? with
    | none =>
      have hfirst := bindStmt_peak _ false v v₁ stmt b (by simp [hdeclared]) hs hstmt
      have hnext : v₁.scopes.next = v.scopes.next := by
        rw [next_bindStmt (by simp [hdeclared]) hstmt, stmt.usedAfter_eq, Stmt.kept, hdeclared]
        rfl
      rw [hothers, hfirst, hnext, Stmt.topPeakOf_cons hdeclared, Nat.max_assoc]
    | some name =>
      obtain ⟨initial, rfl⟩ := Stmt.eq_declare hdeclared
      obtain ⟨id, hid⟩ : ∃ id, s.globals[name]? = some id := by
        have hmem := hglobals.1 name (by simp [Stmt.declared?])
        rw [Std.TreeMap.mem_iff_isSome_getElem?, Option.isSome_iff_exists] at hmem
        exact hmem
      have hglobal :
          Surroundings.global? { signatures := s, topLevel := true } v name = some id := by
        simp [Surroundings.global?, Scopes.isOutermost, houter, hid]
      obtain ⟨_, _, hr⟩ := (bindDeclaration_global hglobal).mp (bindStmt_declare ▸ hstmt)
      obtain ⟨-, rfl⟩ := Prod.mk.inj hr
      rw [hothers, Stmt.topPeakOf]

end Binding

end HostScript
