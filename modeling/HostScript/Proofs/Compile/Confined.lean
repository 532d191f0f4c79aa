import HostScript.Proofs.Binding.Bounded
import HostScript.Proofs.Emission.Each
import HostScript.Proofs.Machine.Transitions

/-!
# Where code may go and what it may overwrite

The code of an expression jumps only inside itself or to its end, and overwrites no slot. The
code of a statement may also jump to where a break or a continue of a loop around it goes,
and it overwrites the slots that it assigns to, or that its loops use. Slots without a name
are not among these.
-/

namespace HostScript

/-- Whether an instruction jumps only to certain offsets and overwrites only certain slots. -/
structure Instruction.KeepsTo (offsets slots : Nat → Prop) (i : Instruction) : Prop where
  jumps : ∀ target ∈ i.target?, offsets target
  writes : ∀ slot ∈ i.writes, slots slot

/-- Whether an operation jumps only to certain offsets and overwrites only certain slots, whichever
number its string gets. -/
def Op.KeepsTo (offsets slots : Nat → Prop) : Op → Prop
  | .plain _ i => i.KeepsTo offsets slots
  | .named _ _ i => ∀ id, (i id).KeepsTo offsets slots

section Operations

variable {offsets slots : Nat → Prop} {n : Nat}

/-- An instruction that neither jumps nor overwrites a slot is as good as any. -/
theorem Instruction.keepsTo_of_none {i : Instruction} (htarget : i.target? = none)
    (hwrites : i.writes = []) : i.KeepsTo offsets slots := by
  refine ⟨?_, ?_⟩
  · rw [htarget]
    exact nofun
  · rw [hwrites]
    exact nofun

/-- An instruction that jumps and overwrites no slot. -/
theorem Instruction.keepsTo_of_target {i : Instruction} {target : Nat}
    (htarget : i.target? = some target) (hwrites : i.writes = []) (h : offsets target) :
    i.KeepsTo offsets slots := by
  refine ⟨?_, ?_⟩
  · rw [htarget]
    rintro _ ⟨⟩
    exact h
  · rw [hwrites]
    exact nofun

theorem Instruction.keepsTo_storeLocal {slot : Nat} (h : slots slot) :
    (Instruction.storeLocal slot).KeepsTo offsets slots :=
  ⟨nofun, List.forall_mem_singleton.mpr h⟩

theorem Place.keepsTo_loadOp (p : Place) : (p.loadOp n).KeepsTo offsets slots := by
  cases p with
  | slot k => exact Instruction.keepsTo_of_none rfl rfl
  | script id => exact Instruction.keepsTo_of_none rfl rfl
  | host name => exact fun id => Instruction.keepsTo_of_none rfl rfl

theorem Emitter.keepsTo_skip {op : Connective} {target : Nat} (h : offsets target) :
    (Emitter.skip op target).KeepsTo offsets slots := by
  cases op with
  | and => exact Instruction.keepsTo_of_target rfl rfl h
  | or => exact Instruction.keepsTo_of_target rfl rfl h

/-- An operation that is there is an instruction that keeps to the same offsets and slots. -/
theorem CodeUnit.Has.keepsTo {u : CodeUnit} {pc : Nat} {op : Op} (h : u.Has pc op)
    (hop : op.KeepsTo offsets slots) : ∃ i, u.code[pc]? = some i ∧ i.KeepsTo offsets slots := by
  cases op with
  | plain n i => exact ⟨i, h, hop⟩
  | named n name i =>
    obtain ⟨id, -, hcode⟩ := h
    exact ⟨i id, hcode, hop id⟩

end Operations

namespace Bound

mutual

/-- The slots that the code of a statement overwrites. -/
def Stmt.written : Stmt → List Nat
  | .store target _ => target.slot?.toList
  | .returnVoid | .returnValue _ | .discard _ | .breakLoop | .continueLoop => []
  | .whileLoop _ body | .ifThen _ body => body.written
  | .forLoop array cursor item _ body => array :: cursor :: item :: body.written
  | .ifElse _ body otherwise => body.written ++ otherwise.written
  | .block statements => Stmt.writtenBy statements
termination_by structural stmt => stmt

/-- The slots that the code of statements overwrites. -/
def Stmt.writtenBy : List Stmt → List Nat
  | [] => []
  | stmt :: rest => stmt.written ++ Stmt.writtenBy rest
termination_by structural statements => statements

end

section Code

variable {offsets slots : Nat → Prop} {lo hi : Nat}

mutual

/-- The code of an expression jumps inside itself or to its end, and overwrites no slot. -/
theorem Expr.each_keepsTo (hoffsets : ∀ pc, lo ≤ pc → pc ≤ hi → offsets pc) (start n : Nat)
    (hlo : lo ≤ start) :
    (x : Expr) → start + x.size ≤ hi →
      Op.Each (fun _ op => op.KeepsTo offsets slots) start (x.code start n)
  | .void, _ => Expr.each_void.mpr (Instruction.keepsTo_of_none rfl rfl)
  | .number _, _ => Expr.each_number.mpr (Instruction.keepsTo_of_none rfl rfl)
  | .string _, _ => Expr.each_string.mpr fun _ => Instruction.keepsTo_of_none rfl rfl
  | .load p, _ => Expr.each_load.mpr p.keepsTo_loadOp
  | .index base position, hhi => by
    rw [Expr.add_size_index] at hhi
    exact Expr.each_index.mpr ⟨Expr.each_keepsTo hoffsets _ _ hlo base (by omega),
      Expr.each_keepsTo hoffsets _ _ (by omega) position (by omega),
      Instruction.keepsTo_of_none rfl rfl⟩
  | .array items, hhi => by
    rw [Expr.add_size_array] at hhi
    exact Expr.each_array.mpr ⟨Expr.each_codes_keepsTo hoffsets _ _ hlo items (by omega),
      Instruction.keepsTo_of_none rfl rfl⟩
  | .callScript _ args, hhi => by
    rw [Expr.add_size_callScript] at hhi
    exact Expr.each_callScript.mpr ⟨Expr.each_codes_keepsTo hoffsets _ _ hlo args (by omega),
      Instruction.keepsTo_of_none rfl rfl⟩
  | .callNative _ args, hhi => by
    rw [Expr.add_size_callNative] at hhi
    exact Expr.each_callNative.mpr ⟨Expr.each_codes_keepsTo hoffsets _ _ hlo args (by omega),
      fun _ => Instruction.keepsTo_of_none rfl rfl⟩
  | .callMethod object _ args, hhi => by
    rw [Expr.add_size_callMethod] at hhi
    exact Expr.each_callMethod.mpr ⟨Expr.each_keepsTo hoffsets _ _ hlo object (by omega),
      Expr.each_codes_keepsTo hoffsets _ _ (by omega) args (by omega),
      fun _ => Instruction.keepsTo_of_none rfl rfl⟩
  | .unary _ operand, hhi => by
    rw [Expr.add_size_unary] at hhi
    exact Expr.each_unary.mpr ⟨Expr.each_keepsTo hoffsets _ _ hlo operand (by omega),
      Instruction.keepsTo_of_none rfl rfl⟩
  | .strict _ lhs rhs, hhi => by
    rw [Expr.add_size_strict] at hhi
    exact Expr.each_strict.mpr ⟨Expr.each_keepsTo hoffsets _ _ hlo lhs (by omega),
      Expr.each_keepsTo hoffsets _ _ (by omega) rhs (by omega), Instruction.keepsTo_of_none rfl rfl⟩
  | .connect _ lhs rhs, hhi => by
    rw [Expr.add_size_connect] at hhi
    have hdecided : offsets (start + lhs.size + 1 + rhs.size + 3) :=
      hoffsets _ (by omega) (by omega)
    have hend : offsets (start + lhs.size + 1 + rhs.size + 4) := hoffsets _ (by omega) (by omega)
    exact Expr.each_connect.mpr ⟨Expr.each_keepsTo hoffsets _ _ hlo lhs (by omega),
      Emitter.keepsTo_skip hdecided, Expr.each_keepsTo hoffsets _ _ (by omega) rhs (by omega),
      Emitter.keepsTo_skip hdecided, Instruction.keepsTo_of_none rfl rfl,
      Instruction.keepsTo_of_target rfl rfl hend, Instruction.keepsTo_of_none rfl rfl⟩
termination_by structural x => x

/-- The code of expressions jumps inside itself or to its end, and overwrites no slot. -/
theorem Expr.each_codes_keepsTo (hoffsets : ∀ pc, lo ≤ pc → pc ≤ hi → offsets pc) (start n : Nat)
    (hlo : lo ≤ start) : (xs : List Expr) → start + Expr.sizes 0 xs ≤ hi →
      Op.Each (fun _ op => op.KeepsTo offsets slots) start (Expr.codes start n xs)
  | [], _ => Op.each_nil
  | x :: xs, hhi => by
    rw [Expr.add_sizes_cons] at hhi
    exact Expr.each_codes_cons.mpr ⟨Expr.each_keepsTo hoffsets _ _ hlo x (by omega),
      Expr.each_codes_keepsTo hoffsets _ _ (by omega) xs (by omega)⟩
termination_by structural xs => xs

end

/-- The code of a target overwrites the slot of the target. -/
theorem Target.each_keepsTo (hoffsets : ∀ pc, lo ≤ pc → pc ≤ hi → offsets pc) (n : Nat) {t : Target}
    (start : Nat) (hlo : lo ≤ start) (hhi : start + t.storeSize ≤ hi)
    (hslots : ∀ slot ∈ t.slot?, slots slot) :
    Op.Each (fun _ op => op.KeepsTo offsets slots) start (t.code start n) := by
  induction t generalizing start with
  | place p =>
    rw [Target.each_place]
    cases p with
    | slot k => exact Instruction.keepsTo_storeLocal (hslots k rfl)
    | script id => exact Instruction.keepsTo_of_none rfl rfl
    | host name => exact fun _ => Instruction.keepsTo_of_none rfl rfl
  | element base position ih =>
    rw [Target.add_storeSize_element] at hhi
    exact Target.each_element.mpr ⟨base.read.each_keepsTo hoffsets _ _ hlo (by omega),
      position.each_keepsTo hoffsets _ _ (by omega) (by omega), Instruction.keepsTo_of_none rfl rfl,
      ih _ (by omega) (by omega) hslots⟩

mutual

/-- The code of a statement jumps inside itself, to its end or to where it breaks off to, and
overwrites only slots of the statement. -/
theorem Stmt.each_keepsTo (hoffsets : ∀ pc, lo ≤ pc → pc ≤ hi → offsets pc) (exits : Exits)
    (hbreak : offsets exits.breakTo) (hcontinue : offsets exits.continueTo) (start : Nat)
    (hlo : lo ≤ start) :
    (stmt : Stmt) → start + stmt.size ≤ hi → (∀ slot ∈ stmt.written, slots slot) →
      Op.Each (fun _ op => op.KeepsTo offsets slots) start (stmt.code exits start)
  | .store target value, hhi, hslots => by
    rw [Stmt.add_size_store] at hhi
    exact Stmt.each_store.mpr ⟨value.each_keepsTo hoffsets _ _ hlo (by omega),
      target.each_keepsTo hoffsets _ _ (by omega) (by omega) fun slot hslot =>
        hslots slot (Option.mem_toList.mpr hslot)⟩
  | .returnVoid, _, _ => Stmt.each_returnVoid.mpr (Instruction.keepsTo_of_none rfl rfl)
  | .returnValue value, hhi, _ => by
    rw [Stmt.size] at hhi
    exact Stmt.each_returnValue.mpr ⟨value.each_keepsTo hoffsets _ _ hlo (by omega),
      Instruction.keepsTo_of_none rfl rfl⟩
  | .discard value, hhi, _ => by
    rw [Stmt.size] at hhi
    exact Stmt.each_discard.mpr ⟨value.each_keepsTo hoffsets _ _ hlo (by omega),
      Instruction.keepsTo_of_none rfl rfl⟩
  | .whileLoop condition body, hhi, hslots => by
    rw [Stmt.add_size_whileLoop] at hhi
    have hexit : offsets (start + condition.size + 1 + body.size + 1) :=
      hoffsets _ (by omega) (by omega)
    have hstart : offsets start := hoffsets _ hlo (by omega)
    exact Stmt.each_whileLoop.mpr ⟨condition.each_keepsTo hoffsets _ _ hlo (by omega),
      Instruction.keepsTo_of_target rfl rfl hexit,
      Stmt.each_keepsTo hoffsets _ hexit hstart _ (by omega) body (by omega) hslots,
      Instruction.keepsTo_of_target rfl rfl hstart⟩
  | .forLoop array cursor item source body, hhi, hslots => by
    rw [Stmt.add_size_forLoop] at hhi
    obtain ⟨harray, hslots⟩ := List.forall_mem_cons.mp hslots
    obtain ⟨hcursor, hslots⟩ := List.forall_mem_cons.mp hslots
    obtain ⟨hitem, hslots⟩ := List.forall_mem_cons.mp hslots
    have hexit : offsets (start + source.size + 5 + body.size + 1) :=
      hoffsets _ (by omega) (by omega)
    have hnext : offsets (start + source.size + 3) := hoffsets _ (by omega) (by omega)
    have hstep :
        (Instruction.iterNext array cursor (start + source.size + 5 + body.size + 1)).KeepsTo
        offsets slots := by
      refine ⟨?_, List.forall_mem_singleton.mpr hcursor⟩
      rintro _ ⟨⟩
      exact hexit
    exact Stmt.each_forLoop.mpr ⟨source.each_keepsTo hoffsets _ _ hlo (by omega),
      Instruction.keepsTo_storeLocal harray, Instruction.keepsTo_of_none rfl rfl,
      Instruction.keepsTo_storeLocal hcursor, hstep, Instruction.keepsTo_storeLocal hitem,
      Stmt.each_keepsTo hoffsets _ hexit hnext _ (by omega) body (by omega) hslots,
      Instruction.keepsTo_of_target rfl rfl hnext⟩
  | .ifThen condition body, hhi, hslots => by
    rw [Stmt.add_size_ifThen] at hhi
    have hexit : offsets (start + condition.size + 1 + body.size) :=
      hoffsets _ (by omega) (by omega)
    exact Stmt.each_ifThen.mpr ⟨condition.each_keepsTo hoffsets _ _ hlo (by omega),
      Instruction.keepsTo_of_target rfl rfl hexit,
      Stmt.each_keepsTo hoffsets exits hbreak hcontinue _ (by omega) body (by omega) hslots⟩
  | .ifElse condition body otherwise, hhi, hslots => by
    rw [Stmt.add_size_ifElse] at hhi
    obtain ⟨hbody, hotherwise⟩ := List.forall_mem_append.mp hslots
    have helse : offsets (start + condition.size + 1 + body.size + 1) :=
      hoffsets _ (by omega) (by omega)
    have hexit : offsets (start + condition.size + 1 + body.size + 1 + otherwise.size) :=
      hoffsets _ (by omega) (by omega)
    exact Stmt.each_ifElse.mpr ⟨condition.each_keepsTo hoffsets _ _ hlo (by omega),
      Instruction.keepsTo_of_target rfl rfl helse,
      Stmt.each_keepsTo hoffsets exits hbreak hcontinue _ (by omega) body (by omega) hbody,
      Instruction.keepsTo_of_target rfl rfl hexit,
      Stmt.each_keepsTo hoffsets exits hbreak hcontinue _ (by omega)
        otherwise (by omega) hotherwise⟩
  | .block statements, hhi, hslots =>
    Stmt.each_block.mpr (Stmt.each_codes_keepsTo hoffsets exits hbreak hcontinue start hlo
        statements hhi hslots)
  | .breakLoop, _, _ => Stmt.each_breakLoop.mpr (Instruction.keepsTo_of_target rfl rfl hbreak)
  | .continueLoop, _, _ =>
    Stmt.each_continueLoop.mpr (Instruction.keepsTo_of_target rfl rfl hcontinue)
termination_by structural stmt => stmt

/-- The code of statements jumps inside itself, to its end or to where it breaks off to, and
overwrites only slots of the statements. -/
theorem Stmt.each_codes_keepsTo (hoffsets : ∀ pc, lo ≤ pc → pc ≤ hi → offsets pc) (exits : Exits)
    (hbreak : offsets exits.breakTo) (hcontinue : offsets exits.continueTo) (start : Nat)
    (hlo : lo ≤ start) :
    (statements : List Stmt) → start + Stmt.sizes 0 statements ≤ hi →
      (∀ slot ∈ Stmt.writtenBy statements, slots slot) →
      Op.Each (fun _ op => op.KeepsTo offsets slots) start (Stmt.codes exits start statements)
  | [], _, _ => Op.each_nil
  | stmt :: rest, hhi, hslots => by
    rw [Stmt.add_sizes_cons] at hhi
    obtain ⟨hstmt, hrest⟩ := List.forall_mem_append.mp hslots
    exact Stmt.each_codes_cons.mpr
      ⟨Stmt.each_keepsTo hoffsets exits hbreak hcontinue _ hlo stmt (by omega) hstmt,
        Stmt.each_codes_keepsTo hoffsets exits hbreak hcontinue _ (by omega) rest (by omega) hrest⟩
termination_by structural statements => statements

end

end Code

end Bound

section Binding

variable {around : Surroundings} {n : Nat}

mutual

/-- A statement does not overwrite a slot that has no name where it stands. -/
theorem bindStmt_written (inLoop : Bool) : (stmt : Stmt) → (v v' : Visible) → (b : Bound.Stmt) →
    v.scopes.Hidden n → bindStmt around inLoop v stmt = .ok (b, v') → n ∉ b.written
  | .assign target value, v, _, _, hn, hbind => by
    obtain ⟨-, b, t, -, ht, hr⟩ := bindStmt_assign.mp hbind
    obtain ⟨rfl, -⟩ := Prod.mk.inj hr
    intro hmem
    have hkept : ∀ slot ∈ [n], v.scopes.Hidden slot := List.forall_mem_singleton.mpr hn
    exact bindTarget_hidden hkept target t ht n (Option.mem_toList.mp hmem) List.mem_cons_self
  | .returnVoid, v, _, _, _, hbind => by
    obtain ⟨rfl, -⟩ := Prod.mk.inj (bindStmt_returnVoid.mp hbind)
    exact List.not_mem_nil
  | .returnValue value, v, _, _, _, hbind => by
    obtain ⟨b, -, hr⟩ := bindStmt_returnValue.mp hbind
    obtain ⟨rfl, -⟩ := Prod.mk.inj hr
    exact List.not_mem_nil
  | .discard value, v, _, _, _, hbind => by
    obtain ⟨b, -, hr⟩ := bindStmt_discard.mp hbind
    obtain ⟨rfl, -⟩ := Prod.mk.inj hr
    exact List.not_mem_nil
  | .whileLoop condition body, v, _, _, hn, hbind => by
    obtain ⟨b₁, b₂, v₂, -, hbody, hr⟩ := bindStmt_whileLoop.mp hbind
    obtain ⟨rfl, -⟩ := Prod.mk.inj hr
    exact bindStmt_written true body v.enter v₂ b₂ hn.enter hbody
  | .forLoop name source body, v, _, _, hn, hbind => by
    obtain ⟨b₁, b₂, v₂, -, -, hbody, hr⟩ := bindStmt_forLoop.mp hbind
    obtain ⟨rfl, -⟩ := Prod.mk.inj hr
    have hinner := bindStmt_written true body (v.forHeader name).enter v₂ b₂
      (hn.enter.grow.grow.extend name).enter hbody
    have hlt := hn.1
    rw [Bound.Stmt.written, List.mem_cons, List.mem_cons, List.mem_cons, not_or, not_or, not_or]
    exact ⟨by omega, by omega, by omega, hinner⟩
  | .ifThen condition body, v, _, _, hn, hbind => by
    obtain ⟨b₁, b₂, v₂, -, hbody, hr⟩ := bindStmt_ifThen.mp hbind
    obtain ⟨rfl, -⟩ := Prod.mk.inj hr
    exact bindStmt_written inLoop body v.enter v₂ b₂ hn.enter hbody
  | .ifElse condition body otherwise, v, _, _, hn, hbind => by
    obtain ⟨b₁, b₂, v₂, b₃, v₃, -, hbody, hotherwise, hr⟩ := bindStmt_ifElse.mp hbind
    obtain ⟨rfl, -⟩ := Prod.mk.inj hr
    have hleft : v₂.leave.scopes.Hidden n := by
      rw [(bindStmt_proceeds around inLoop v.enter v₂ body b₂ hbody).rises_leave.eq]
      exact hn.of_names rfl rfl (Nat.le_refl _)
    rw [Bound.Stmt.written, List.mem_append, not_or]
    exact ⟨bindStmt_written inLoop body v.enter v₂ b₂ hn.enter hbody,
      bindStmt_written inLoop otherwise v₂.leave.enter v₃ b₃ hleft.enter hotherwise⟩
  | .declare name initial, v, _, _, hn, hbind => by
    rw [bindStmt_declare] at hbind
    cases hglobal : around.global? v name with
    | some id =>
      obtain ⟨b, -, hr⟩ := (bindDeclaration_global hglobal).mp hbind
      obtain ⟨rfl, -⟩ := Prod.mk.inj hr
      exact List.not_mem_nil
    | none =>
      obtain ⟨b, -, -, -, hr⟩ := (bindDeclaration_local hglobal).mp hbind
      obtain ⟨rfl, -⟩ := Prod.mk.inj hr
      intro hmem
      exact Nat.ne_of_lt hn.1 (List.mem_singleton.mp hmem)
  | .block statements, v, _, _, hn, hbind => by
    obtain ⟨bs, v₂, hbody, hr⟩ := bindStmt_block.mp hbind
    obtain ⟨rfl, -⟩ := Prod.mk.inj hr
    have hinside : (v.enter.announceAll statements).scopes.Hidden n :=
      (hn.enter : v.enter.scopes.Hidden n).announceAll statements
    exact bindStmts_written inLoop statements _ v₂ bs hinside hbody
  | .breakLoop, v, _, _, _, hbind => by
    obtain ⟨-, hr⟩ := bindStmt_breakLoop.mp hbind
    obtain ⟨rfl, -⟩ := Prod.mk.inj hr
    exact List.not_mem_nil
  | .continueLoop, v, _, _, _, hbind => by
    obtain ⟨-, hr⟩ := bindStmt_continueLoop.mp hbind
    obtain ⟨rfl, -⟩ := Prod.mk.inj hr
    exact List.not_mem_nil
termination_by structural stmt => stmt

/-- Statements do not overwrite a slot that has no name where they stand. -/
theorem bindStmts_written (inLoop : Bool) :
    (statements : List Stmt) → (v v' : Visible) → (bs : List Bound.Stmt) →
    v.scopes.Hidden n → bindStmts around inLoop [] v statements = .ok (bs, v') →
    n ∉ Bound.Stmt.writtenBy bs
  | [], v, _, _, _, hbind => by
    obtain ⟨rfl, -⟩ := Prod.mk.inj (bindStmts_nil.mp hbind)
    exact List.not_mem_nil
  | stmt :: rest, v, _, _, hn, hbind => by
    obtain ⟨b, v₁, bs, v₂, hstmt, hrest, hr⟩ := bindStmts_cons.mp hbind
    obtain ⟨rfl, -⟩ := Prod.mk.inj hr
    rw [Bound.Stmt.writtenBy, List.mem_append, not_or]
    exact ⟨bindStmt_written inLoop stmt v v₁ b hn hstmt,
      bindStmts_written inLoop rest v₁ v₂ bs (bindStmt_hidden hstmt hn) hrest⟩
termination_by structural statements => statements

end

end Binding

end HostScript
