import HostScript.Proofs.Compile.LineUp

/-!
# The loops of a program and their code

Every loop over an array in a program that compiles has its own place in the code. The loops stand
there in the order of the text: a loop starts after the loops before it, and the loops in its body
start after itself.
-/

namespace HostScript

/-- A loop over an array in the code of a unit: where its code starts, its parts, and its slots. -/
structure Loop where
  start : Nat
  source : Bound.Expr
  body : Bound.Stmt
  array : Nat
  cursor : Nat
  item : Nat

namespace Loop

variable (l : Loop)

/-- The loop as a statement. -/
def stmt : Bound.Stmt :=
  .forLoop l.array l.cursor l.item l.source l.body

/-- Where the first instruction of the loop has been executed. -/
def begun : Nat :=
  l.start + 1

/-- Where the source has been evaluated. -/
def loaded : Nat :=
  l.start + l.source.size

/-- Where every turn begins. -/
def next : Nat :=
  l.loaded + 3

/-- Where the body starts. -/
def first : Nat :=
  l.loaded + 5

/-- Where the body ends. -/
def close : Nat :=
  l.first + l.body.size

/-- Where the run goes on after the loop. -/
def exit : Nat :=
  l.close + 1

/-- Whether a loop is what a loop of a program is bound to, with its code in that of the program. -/
def IsOf (program : Bound.Program) (around : Surroundings) (v : Visible) (name : String)
    (source : Expr) (body : Stmt) : Prop :=
  ∃ inLoop v' exits, v.scopes.Sound ∧
    bindStmt around inLoop v (.forLoop name source body) = .ok (l.stmt, v') ∧
    Op.Each (Op.Of program.code) l.start (l.stmt.code exits l.start)

/-- Whether a statement of a program is bound to a loop. -/
def Realizes (program : Bound.Program) (s : Signatures) (stmt : Stmt) (l : Loop) : Prop :=
  ∃ around v name source body, stmt = .forLoop name source body ∧ around.signatures = s ∧
    l.IsOf program around v name source body

end Loop

/-- Whether a statement is a loop over an array. -/
def Stmt.isForLoop : Stmt → Bool
  | .forLoop _ _ _ => true
  | _ => false

/-- A loop over an array is bound to one that begins where its code starts. -/
theorem Stmt.IsEmitted.exists_realizes {program : Bound.Program} {around : Surroundings}
    {here : Point} {start : Nat} {b : Bound.Stmt} {name : String} {source : Expr} {body : Stmt}
    (h : (Stmt.forLoop name source body).IsEmitted around (Op.Of program.code) here start b) :
    ∃ l : Loop, l.start = start ∧ l.stmt = b ∧
      l.Realizes program around.signatures (.forLoop name source body) := by
  obtain ⟨inLoop, v, v', exits, -, hsound, hbind, hcode⟩ := h
  obtain ⟨b₁, b₂, v₂, -, -, -, hr⟩ := bindStmt_forLoop.mp hbind
  obtain ⟨rfl, -⟩ := Prod.mk.inj hr
  exact ⟨⟨start, b₁, b₂, v.scopes.next, v.scopes.next + 1, v.scopes.next + 2⟩, rfl, rfl,
    around, v, name, source, body, rfl, rfl, inLoop, v', exits, hsound, hbind, hcode⟩

/-- What a statement has of its own is a loop, if it is one. -/
theorem gathersInto_loops (program : Bound.Program) (s : Signatures) :
    GathersInto (fun site => [site.2].filter Stmt.isForLoop) (Loop.Realizes program s) Loop.begun s
      (Op.Of program.code) := by
  rintro around here start b stmt rfl hstmt
  cases stmt with
  | forLoop name source body =>
    obtain ⟨l, rfl, rfl, hl⟩ := hstmt.exists_realizes
    have hbegun : l.begun ≤ l.start + l.stmt.opening := by
      change l.start + 1 ≤ l.start + (l.source.size + 5)
      omega
    exact ⟨[l], .singleton hl (Nat.lt_succ_self _) hbegun⟩
  | _ => exact ⟨[], .nil ..⟩

/-- The loops of a program that is bound line up in its code. -/
theorem bind_loops_lineUp {p : Program} {program : Bound.Program} (h : p.bind = .ok program) :
    ∃ s loops, Signatures.ofProgram p = .ok s ∧
      LineUp (Loop.Realizes program s) Loop.begun 0 program.toUnit.code.size
        (p.stmts.filter Stmt.isForLoop) loops := by
  rw [← p.map_sites, List.map_eq_flatMap, List.filter_flatMap]
  exact bind_lineUp h (gathersInto_loops program)

/-- In the body of a loop its variable is in the slot of the item. -/
theorem Visible.place_forHeader (v : Visible) (s : Signatures) (name : String) :
    (v.forHeader name).enter.place s name = .ok (.slot (v.scopes.next + 2)) := by
  have hfind : (v.forHeader name).enter.scopes.find? name = some (v.scopes.next + 2) := by
    simp [Visible.enter, Scopes.enter, Scopes.find?, Visible.forHeader, Scopes.extend, Scopes.grow]
  rw [Visible.place, hfind]

theorem Loop.IsOf.place_item {l : Loop} {program : Bound.Program} {around : Surroundings}
    {v : Visible} {name : String} {source : Expr} {body : Stmt}
    (h : l.IsOf program around v name source body) :
    (v.forHeader name).enter.place around.signatures name = .ok (.slot l.item) := by
  obtain ⟨inLoop, v', exits, -, hbind, -⟩ := h
  obtain ⟨b₁, b₂, v₂, -, -, -, hr⟩ := bindStmt_forLoop.mp hbind
  obtain ⟨-, -, hitem, -, -⟩ := Bound.Stmt.forLoop.inj (Prod.mk.inj hr).1
  rw [Visible.place_forHeader, hitem]

end HostScript
