import HostScript.Proofs.Binding.Valid
import HostScript.Proofs.Emission.Each
import HostScript.Proofs.Emission.Regions

/-!
# Operands of emitted code

The operands of every emitted instruction are in range: slots lie in the frame, numbers of globals,
strings and functions in the tables of the unit, and jumps stay in the region they stand in. A
conditional jump and the step of a loop only go forward.
-/

namespace HostScript

/-- Whether the operands of an instruction at an offset of a region are in range. -/
def Instruction.Valid (u : CodeUnit) (r : Region) (pc : Nat) : Instruction → Prop
  | .pushString id | .loadHost id | .storeHost id | .callNative id _ | .callMethod id _ =>
    id < u.strings.size
  | .loadLocal slot | .storeLocal slot => slot < r.locals
  | .loadGlobal id | .storeGlobal id => id < u.globals.size
  | .jump target => target ∈ r
  | .jumpIfFalse target | .jumpIfTrue target => target ∈ r ∧ pc < target
  | .iterNext array cursor exit => array < r.locals ∧ cursor < r.locals ∧ exit ∈ r ∧ pc < exit
  | .callScript function argc => u.functions[function]?.map (·.arity) = some argc
  | .binary op => op ≠ .and ∧ op ≠ .or
  | .pushNumber _ | .pushBool _ | .pushVoid | .pop | .makeArray _ | .loadIndex | .storeIndex
  | .unary _ | .returnValue | .returnVoid => True

/-- Whether the operands of an operation are in range, whichever number its string gets. -/
def Op.Valid (u : CodeUnit) (r : Region) (pc : Nat) : Op → Prop
  | .plain _ instruction => instruction.Valid u r pc
  | .named _ _ instruction => ∀ id < u.strings.size, (instruction id).Valid u r pc

/-- An operation that is there with its string is an instruction with operands in range. -/
theorem CodeUnit.Has.valid {u : CodeUnit} {r : Region} {pc : Nat} {op : Op}
    {instruction : Instruction} (h : u.Has pc op) (hop : op.Valid u r pc)
    (hcode : u.code[pc]? = some instruction) : instruction.Valid u r pc := by
  obtain ⟨n, rfl⟩ | ⟨n, name, i, id, rfl, hid, rfl⟩ := h.eq_instruction hcode
  · exact hop
  · exact hop id hid

/-- An operator that is no connective is neither `and` nor `or`. -/
theorem BinaryOp.ne_of_connective? {op : BinaryOp} (h : op.connective? = none) :
    op ≠ .and ∧ op ≠ .or := by
  cases op <;> simp_all [BinaryOp.connective?]

section Places

variable {u : CodeUnit} {r : Region} {pc n : Nat} {p : Place}

theorem Place.valid_loadOp (h : p.Valid u r.locals) : (p.loadOp n).Valid u r pc := by
  cases p with
  | slot n => exact h
  | script id => exact h
  | host name => exact fun id hid => hid

theorem Place.valid_storeOp (h : p.Valid u r.locals) : (p.storeOp n).Valid u r pc := by
  cases p with
  | slot n => exact h
  | script id => exact h
  | host name => exact fun id hid => hid

end Places

namespace Bound

variable {u : CodeUnit} {r : Region}

mutual

/-- The code of an expression has its operands in range, if something follows it in its region. -/
theorem Expr.each_valid (start n : Nat) (hstart : r.start ≤ start) :
    (x : Expr) → x.Valid u r.locals → start + x.size < r.stop →
      Op.Each (Op.Valid u r) start (x.code start n)
  | .void, _, _ | .number _, _, _ => by simp [Op.Valid, Instruction.Valid]
  | .string _, _, _ => by simp [Op.Valid, Instruction.Valid]
  | .load p, h, _ => by simpa using Place.valid_loadOp (p := p) h
  | .index base position, ⟨hbase, hposition⟩, hstop => by
    rw [Expr.add_size_index] at hstop
    have h₁ := Expr.each_valid start n hstart base hbase (by omega)
    have h₂ := Expr.each_valid (start + base.size) (n + 1) (by omega) position hposition (by omega)
    exact Expr.each_index.mpr ⟨h₁, h₂, trivial⟩
  | .array items, h, hstop => by
    rw [Expr.add_size_array] at hstop
    exact Expr.each_array.mpr ⟨Expr.each_valid_codes start _ hstart items h (by omega), trivial⟩
  | .callScript function args, ⟨harity, hargs⟩, hstop => by
    rw [Expr.add_size_callScript] at hstop
    exact Expr.each_callScript.mpr
      ⟨Expr.each_valid_codes start _ hstart args hargs (by omega), harity⟩
  | .callNative name args, h, hstop => by
    rw [Expr.add_size_callNative] at hstop
    exact Expr.each_callNative.mpr ⟨Expr.each_valid_codes start _ hstart args h (by omega),
      fun id hid => hid⟩
  | .callMethod object name args, ⟨hobject, hargs⟩, hstop => by
    rw [Expr.add_size_callMethod] at hstop
    have h₁ := Expr.each_valid start n hstart object hobject (by omega)
    have h₂ := Expr.each_valid_codes (start + object.size) (n + 1) (by omega) args hargs (by omega)
    exact Expr.each_callMethod.mpr ⟨h₁, h₂, fun id hid => hid⟩
  | .unary _ operand, h, hstop => by
    rw [Expr.add_size_unary] at hstop
    exact Expr.each_unary.mpr ⟨Expr.each_valid start _ hstart operand h (by omega), trivial⟩
  | .strict op lhs rhs, ⟨hop, hlhs, hrhs⟩, hstop => by
    rw [Expr.add_size_strict] at hstop
    have h₁ := Expr.each_valid start n hstart lhs hlhs (by omega)
    have h₂ := Expr.each_valid (start + lhs.size) (n + 1) (by omega) rhs hrhs (by omega)
    exact Expr.each_strict.mpr ⟨h₁, h₂, BinaryOp.ne_of_connective? hop⟩
  | .connect op lhs rhs, ⟨hlhs, hrhs⟩, hstop => by
    rw [Expr.add_size_connect] at hstop
    have h₁ := Expr.each_valid start n hstart lhs hlhs (by omega)
    have h₂ := Expr.each_valid (start + lhs.size + 1) n (by omega) rhs hrhs (by omega)
    have hskip : ∀ pc < start + lhs.size + 1 + rhs.size + 3,
        Op.Valid u r pc
          (.plain (n + 1) (Emitter.skip op (start + lhs.size + 1 + rhs.size + 3))) := by
      intro pc hpc
      cases op <;> exact ⟨⟨by omega, by omega⟩, hpc⟩
    exact Expr.each_connect.mpr
      ⟨h₁, hskip _ (by omega), h₂, hskip _ (by omega), trivial, ⟨by omega, by omega⟩, trivial⟩

/-- The code of expressions has its operands in range, if something follows it in its region. -/
theorem Expr.each_valid_codes (start n : Nat) (hstart : r.start ≤ start) :
    (xs : List Expr) → Expr.AllValid u r.locals xs → start + Expr.sizes 0 xs < r.stop →
      Op.Each (Op.Valid u r) start (Expr.codes start n xs)
  | [], _, _ => Op.each_nil
  | x :: xs, ⟨hx, hxs⟩, hstop => by
    rw [Expr.add_sizes_cons] at hstop
    exact Expr.each_codes_cons.mpr
      ⟨Expr.each_valid start _ hstart x hx (by omega),
      Expr.each_valid_codes _ _ (by omega) xs hxs (by omega)⟩

end

/-- The code that stores into a target has its operands in range, if something
follows it in its region. -/
theorem Target.each_valid (start n : Nat) (hstart : r.start ≤ start) {t : Target}
    (h : t.Valid u r.locals) (hstop : start + t.storeSize < r.stop) :
    Op.Each (Op.Valid u r) start (t.code start n) := by
  induction t generalizing start with
  | place p => simpa using Place.valid_storeOp (p := p) h
  | element base position ih =>
    obtain ⟨hbase, hposition⟩ := h
    rw [Target.add_storeSize_element] at hstop
    have h₁ := Expr.each_valid start (n + 1) hstart base.read hbase.read (by omega)
    have h₂ := Expr.each_valid (start + base.read.size)
      (n + 2) (by omega) position hposition (by omega)
    have h₃ := ih (start + base.read.size + position.size + 1) (by omega) hbase (by omega)
    exact Target.each_element.mpr ⟨h₁, h₂, trivial, h₃⟩

mutual

/-- The code of a statement has its operands in range, if its exits lie in its region and
something follows it there. -/
theorem Stmt.each_valid (exits : Exits) (start : Nat) (hbreak : exits.breakTo ∈ r)
    (hcontinue : exits.continueTo ∈ r) (hstart : r.start ≤ start) :
    (stmt : Stmt) → stmt.Valid u r.locals → start + stmt.size < r.stop →
      Op.Each (Op.Valid u r) start (stmt.code exits start)
  | .store target value, ⟨htarget, hvalue⟩, hstop => by
    rw [Stmt.add_size_store] at hstop
    exact Stmt.each_store.mpr
      ⟨Expr.each_valid start _ hstart value hvalue (by omega),
        Target.each_valid _ _ (by omega) htarget (by omega)⟩
  | .returnVoid, _, _ => Stmt.each_returnVoid.mpr trivial
  | .returnValue value, h, hstop => by
    rw [Stmt.size] at hstop
    exact Stmt.each_returnValue.mpr ⟨Expr.each_valid start _ hstart value h (by omega), trivial⟩
  | .whileLoop condition body, ⟨hcondition, hbody⟩, hstop => by
    rw [Stmt.add_size_whileLoop] at hstop
    have hagain : start ∈ r := ⟨hstart, by omega⟩
    have hexit : start + condition.size + 1 + body.size + 1 ∈ r := ⟨by omega, by omega⟩
    have h₁ := Expr.each_valid start 0 hstart condition hcondition (by omega)
    have h₂ := Stmt.each_valid ⟨start + condition.size + 1 + body.size + 1, start⟩
      (start + condition.size + 1) hexit hagain (by omega) body hbody (by omega)
    exact Stmt.each_whileLoop.mpr ⟨h₁, ⟨hexit, by omega⟩, h₂, hagain⟩
  | .forLoop array cursor item source body, ⟨harray, hcursor, hitem, hsource, hbody⟩, hstop => by
    rw [Stmt.add_size_forLoop] at hstop
    have hnext : start + source.size + 3 ∈ r := ⟨by omega, by omega⟩
    have hexit : start + source.size + 5 + body.size + 1 ∈ r := ⟨by omega, by omega⟩
    have h₁ := Expr.each_valid start 0 hstart source hsource (by omega)
    have h₂ := Stmt.each_valid ⟨start + source.size + 5 + body.size + 1, start + source.size + 3⟩
      (start + source.size + 5) hexit hnext (by omega) body hbody (by omega)
    exact Stmt.each_forLoop.mpr
      ⟨h₁, harray, trivial, hcursor, ⟨harray, hcursor, hexit, by omega⟩, hitem, h₂, hnext⟩
  | .ifThen condition body, ⟨hcondition, hbody⟩, hstop => by
    rw [Stmt.add_size_ifThen] at hstop
    have hexit : start + condition.size + 1 + body.size ∈ r := ⟨by omega, by omega⟩
    have h₁ := Expr.each_valid start 0 hstart condition hcondition (by omega)
    have h₂ := Stmt.each_valid exits (start + condition.size + 1) hbreak hcontinue (by omega) body
      hbody (by omega)
    exact Stmt.each_ifThen.mpr ⟨h₁, ⟨hexit, by omega⟩, h₂⟩
  | .ifElse condition body otherwise, ⟨hcondition, hbody, hotherwise⟩, hstop => by
    rw [Stmt.add_size_ifElse] at hstop
    have helse : start + condition.size + 1 + body.size + 1 ∈ r := ⟨by omega, by omega⟩
    have hexit : start + condition.size + 1 + body.size + 1 + otherwise.size ∈ r :=
      ⟨by omega, by omega⟩
    have h₁ := Expr.each_valid start 0 hstart condition hcondition (by omega)
    have h₂ := Stmt.each_valid exits (start + condition.size + 1) hbreak hcontinue (by omega) body
      hbody (by omega)
    have h₃ := Stmt.each_valid exits (start + condition.size + 1 + body.size + 1) hbreak
      hcontinue (by omega) otherwise hotherwise (by omega)
    exact Stmt.each_ifElse.mpr ⟨h₁, ⟨helse, by omega⟩, h₂, hexit, h₃⟩
  | .discard value, h, hstop => by
    rw [Stmt.size] at hstop
    exact Stmt.each_discard.mpr ⟨Expr.each_valid start _ hstart value h (by omega), trivial⟩
  | .block statements, h, hstop =>
    Stmt.each_block.mpr (Stmt.each_valid_codes exits start hbreak hcontinue hstart
        statements h hstop)
  | .breakLoop, _, _ => Stmt.each_breakLoop.mpr hbreak
  | .continueLoop, _, _ => Stmt.each_continueLoop.mpr hcontinue

/-- The code of statements has its operands in range, if its exits lie in its region and
something follows it there. -/
theorem Stmt.each_valid_codes (exits : Exits) (start : Nat) (hbreak : exits.breakTo ∈ r)
    (hcontinue : exits.continueTo ∈ r) (hstart : r.start ≤ start) :
    (statements : List Stmt) → Stmt.AllValid u r.locals statements →
      start + Stmt.sizes 0 statements < r.stop →
      Op.Each (Op.Valid u r) start (Stmt.codes exits start statements)
  | [], _, _ => Op.each_nil
  | stmt :: rest, ⟨hstmt, hrest⟩, hstop => by
    rw [Stmt.add_sizes_cons] at hstop
    exact Stmt.each_codes_cons.mpr
      ⟨Stmt.each_valid exits start hbreak hcontinue hstart stmt hstmt (by omega),
        Stmt.each_valid_codes exits _ hbreak hcontinue (by omega) rest hrest (by omega)⟩

end

/-- The code of a body that mentions only what is there has its operands in range. -/
theorem Body.each_valid {b : Body} (start : Nat) (h : Stmt.AllValid u b.locals b.statements) :
    Op.Each (Op.Valid u (b.region start)) start (b.code start) := by
  have hlast : start + Stmt.sizes 0 b.statements ∈ b.region start := by
    simp only [Region.mem_iff, Body.region, Body.size]
    omega
  exact Body.each_code.mpr
    ⟨Stmt.each_valid_codes _ start hlast hlast (Nat.le_refl start) b.statements h hlast.2, trivial⟩

end Bound

end HostScript
