import HostScript.Proofs.Emission.Heights

/-!
# Statement boundaries

The offsets where statements start and end, where loops go back to and where they are left. Nothing
is on the operand stack there.
-/

namespace HostScript

namespace Bound

mutual

/-- The boundaries inside a statement that starts at an offset: where the statements in it start and
end, where the next turn of a loop starts, and where `break` and `continue` go. -/
def Stmt.inside (exits : Exits) (start : Nat) : Stmt → List Nat
  | .whileLoop condition body =>
    let first := start + condition.size + 1
    first :: (first + body.size) :: body.inside ⟨first + body.size + 1, start⟩ first
  | .forLoop _ _ _ source body =>
    let next := start + source.size + 3
    let first := start + source.size + 5
    next :: first :: (first + body.size) :: body.inside ⟨first + body.size + 1, next⟩ first
  | .ifThen condition body =>
    let first := start + condition.size + 1
    first :: (first + body.size) :: body.inside exits first
  | .ifElse condition body otherwise =>
    let first := start + condition.size + 1
    let second := first + body.size + 1
    first :: (first + body.size) :: second :: (second + otherwise.size) ::
      (body.inside exits first ++ otherwise.inside exits second)
  | .block statements => Stmt.insideAll exits start statements
  | .breakLoop => [exits.breakTo]
  | .continueLoop => [exits.continueTo]
  | .store .. | .returnVoid | .returnValue _ | .discard _ => []
termination_by structural stmt => stmt

/-- The boundaries of statements that stand one after the other from an offset on. -/
def Stmt.insideAll (exits : Exits) (start : Nat) : List Stmt → List Nat
  | [] => []
  | stmt :: rest =>
    start :: (start + stmt.size) ::
      (stmt.inside exits start ++ Stmt.insideAll exits (start + stmt.size) rest)
termination_by structural statements => statements

end

/-- The boundaries of a body that starts at an offset. -/
def Body.boundaries (start : Nat) (b : Body) : List Nat :=
  let stop := start + Stmt.sizes 0 b.statements
  start :: stop :: Stmt.insideAll ⟨stop, stop⟩ start b.statements

/-- The boundaries of bodies that stand one after the other. -/
def Body.boundariesAll (start : Nat) : List Body → List Nat
  | [] => []
  | b :: rest => b.boundaries start ++ Body.boundariesAll (start + b.size) rest

/-- The statement boundaries of the unit of a program. -/
def Program.boundaries (program : Program) : List Nat :=
  Body.boundariesAll 0 program.bodies

variable {height : Nat → Nat}

mutual

/-- Nothing is on the operand stack at the boundaries inside a statement. -/
theorem Stmt.height_inside (exits : Exits) (start : Nat) (hbreak : height exits.breakTo = 0)
    (hcontinue : height exits.continueTo = 0) :
    (stmt : Stmt) → Op.Each (Op.HeightAt height) start (stmt.code exits start) →
      height (start + stmt.size) = 0 → ∀ pc ∈ stmt.inside exits start, height pc = 0
  | .whileLoop condition body, h, hnext => by
    have hpc := (Stmt.each_flows exits start hbreak hcontinue _ h hnext).1
    obtain ⟨-, -, hbody, hagain⟩ := Stmt.each_whileLoop.mp h
    have hexit : height (start + condition.size + 1 + body.size + 1) = 0 := by
      rwa [Stmt.add_size_whileLoop] at hnext
    have hfirst := (Stmt.each_flows _ _ hexit hpc body hbody hagain).1
    have hinside := Stmt.height_inside _ _ hexit hpc body hbody hagain
    simpa [Stmt.inside] using ⟨hfirst, hagain, hinside⟩
  | .forLoop array cursor item source body, h, hnext => by
    obtain ⟨-, -, -, -, hstep, -, hbody, hagain⟩ := Stmt.each_forLoop.mp h
    have hexit : height (start + source.size + 5 + body.size + 1) = 0 := by
      rwa [Stmt.add_size_forLoop] at hnext
    have hnext' : height (start + source.size + 3) = 0 := hstep
    have hfirst := (Stmt.each_flows _ _ hexit hnext' body hbody hagain).1
    have hinside := Stmt.height_inside _ _ hexit hnext' body hbody hagain
    simpa [Stmt.inside] using ⟨hnext', hfirst, hagain, hinside⟩
  | .ifThen condition body, h, hnext => by
    obtain ⟨-, -, hbody⟩ := Stmt.each_ifThen.mp h
    have hexit : height (start + condition.size + 1 + body.size) = 0 := by
      rwa [Stmt.add_size_ifThen] at hnext
    have hfirst := (Stmt.each_flows _ _ hbreak hcontinue body hbody hexit).1
    have hinside := Stmt.height_inside _ _ hbreak hcontinue body hbody hexit
    simpa [Stmt.inside] using ⟨hfirst, hexit, hinside⟩
  | .ifElse condition body otherwise, h, hnext => by
    obtain ⟨-, -, hbody, hskip, hotherwise⟩ := Stmt.each_ifElse.mp h
    have hexit : height (start + condition.size + 1 + body.size + 1 + otherwise.size) = 0 := by
      rwa [Stmt.add_size_ifElse] at hnext
    have hfirst := (Stmt.each_flows _ _ hbreak hcontinue body hbody hskip).1
    have hsecond := (Stmt.each_flows _ _ hbreak hcontinue otherwise hotherwise hexit).1
    have hinside := Stmt.height_inside _ _ hbreak hcontinue body hbody hskip
    have hinside' := Stmt.height_inside _ _ hbreak hcontinue otherwise hotherwise hexit
    simp only [Stmt.inside, List.forall_mem_cons, List.forall_mem_append]
    exact ⟨hfirst, hskip, hsecond, hexit, hinside, hinside'⟩
  | .block statements, h, hnext =>
    Stmt.height_insideAll exits start hbreak hcontinue statements (Stmt.each_block.mp h) hnext
  | .breakLoop, _, _ => by simpa [Stmt.inside] using hbreak
  | .continueLoop, _, _ => by simpa [Stmt.inside] using hcontinue
  | .store target value, _, _ => by simp [Stmt.inside]
  | .returnVoid, _, _ => by simp [Stmt.inside]
  | .returnValue value, _, _ => by simp [Stmt.inside]
  | .discard value, _, _ => by simp [Stmt.inside]

/-- Nothing is on the operand stack at the boundaries of statements. -/
theorem Stmt.height_insideAll (exits : Exits) (start : Nat) (hbreak : height exits.breakTo = 0)
    (hcontinue : height exits.continueTo = 0) :
    (statements : List Stmt) →
      Op.Each (Op.HeightAt height) start (Stmt.codes exits start statements) →
      height (start + Stmt.sizes 0 statements) = 0 →
      ∀ pc ∈ Stmt.insideAll exits start statements, height pc = 0
  | [], _, _ => by simp [Stmt.insideAll]
  | stmt :: rest, h, hnext => by
    obtain ⟨hstmt, hrest⟩ := Stmt.each_codes_cons.mp h
    rw [Stmt.add_sizes_cons] at hnext
    have hend := (Stmt.each_flows_codes exits _ hbreak hcontinue rest hrest hnext).1
    have hpc := (Stmt.each_flows exits _ hbreak hcontinue stmt hstmt hend).1
    have hinside := Stmt.height_inside exits start hbreak hcontinue stmt hstmt hend
    have hinside' := Stmt.height_insideAll exits _ hbreak hcontinue rest hrest hnext
    simp only [Stmt.insideAll, List.forall_mem_cons, List.forall_mem_append]
    exact ⟨hpc, hend, hinside, hinside'⟩

end

/-- Nothing is on the operand stack at the boundaries of bodies. -/
theorem Body.height_boundariesAll (start : Nat) (bs : List Body)
    (h : Op.Each (Op.HeightAt height) start (Body.codes start bs)) :
    ∀ pc ∈ Body.boundariesAll start bs, height pc = 0 := by
  induction bs generalizing start with
  | nil => simp [Body.boundariesAll]
  | cons b rest ih =>
    obtain ⟨hb, hrest⟩ := Op.each_append.mp h
    rw [Body.length_code] at hrest
    obtain ⟨hstatements, hstop⟩ := Body.each_code.mp hb
    have hstop : height (start + Stmt.sizes 0 b.statements) = 0 := hstop
    have hinside := Stmt.height_insideAll _ start hstop hstop b.statements hstatements hstop
    simp only [Body.boundariesAll, Body.boundaries, List.forall_mem_append, List.forall_mem_cons]
    exact ⟨⟨(Body.each_flows hb).1, hstop, hinside⟩, ih (start + b.size) hrest⟩

/-- Nothing is on the operand stack at the statement boundaries of a program. -/
theorem Program.height_boundaries (program : Program) :
    ∀ pc ∈ program.boundaries, program.height pc = 0 :=
  Body.height_boundariesAll 0 program.bodies (program.code_eq_codes ▸ program.each_heightAt)

end Bound

end HostScript
