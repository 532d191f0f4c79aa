import HostScript.Proofs.Binding.Initialised
import HostScript.Proofs.Machine.Safety
import HostScript.Proofs.Machine.Transitions

/-!
# Slots in use along the code

How many slots are in use when an instruction of emitted code runs. Every instruction reads
only slots in use. Wherever it goes on, the slots in use there were in use before, or it
has stored into them.
-/

namespace HostScript

/-- The local slots that an instruction reads. -/
@[simp]
def Instruction.reads : Instruction → List Nat
  | .loadLocal slot => [slot]
  | .iterNext array cursor _ => [array, cursor]
  | _ => []

/-- Whether an instruction keeps to the slots in use, where `used` is their number at each
offset. -/
structure Instruction.Respects (used : Nat → Nat) (pc : Nat) (i : Instruction) : Prop where
  reads : ∀ slot ∈ i.reads, slot < used pc
  next : i.fallsThrough → ∀ slot < used (pc + 1), slot < used pc ∨ slot ∈ i.writes
  jump : ∀ target ∈ i.target?, used target ≤ used pc

/-- Whether an operation keeps to the slots in use, whichever number its string gets. -/
def Op.Respects (u : CodeUnit) (used : Nat → Nat) (pc : Nat) : Op → Prop
  | .plain _ instruction => instruction.Respects used pc
  | .named _ _ instruction => ∀ id < u.strings.size, (instruction id).Respects used pc

/-- Whether the numbers of a list are those of the slots in use from an offset on. -/
def Marks (used : Nat → Nat) (start : Nat) (numbers : List Nat) : Prop :=
  ∀ k n, numbers[k]? = some n → used (start + k) = n

section Marks

variable {used : Nat → Nat} {start n : Nat} {numbers more : List Nat}

@[simp] theorem marks_nil : Marks used start [] := by
  intro k n h
  simp at h

@[simp] theorem marks_cons :
    Marks used start (n :: numbers) ↔ used start = n ∧ Marks used (start + 1) numbers := by
  constructor
  · intro h
    refine ⟨by simpa using h 0 n rfl, fun k m hm => ?_⟩
    rw [Nat.add_assoc, Nat.add_comm 1]
    exact h (k + 1) m (by simpa using hm)
  · rintro ⟨hn, hnumbers⟩ k m hm
    cases k with
    | zero =>
      obtain rfl : n = m := by simpa using hm
      exact hn
    | succ k =>
      rw [Nat.add_comm k, ← Nat.add_assoc]
      exact hnumbers k m (by simpa using hm)

@[simp] theorem marks_append :
    Marks used start (numbers ++ more) ↔
      Marks used start numbers ∧ Marks used (start + numbers.length) more := by
  induction numbers generalizing start with
  | nil => simp
  | cons n numbers ih => simp [ih, and_assoc, Nat.add_assoc, Nat.add_comm 1]

/-- One number all along. -/
@[simp] theorem marks_replicate {size : Nat} :
    Marks used start (List.replicate size n) ↔ ∀ k < size, used (start + k) = n := by
  simp [Marks, List.getElem?_replicate]

end Marks

namespace Instruction

variable {used : Nat → Nat} {pc target slot : Nat}

/-- Where no slot comes into use, it is enough that an instruction reads and jumps as it should. -/
theorem respects_of_le {i : Instruction} (hreads : ∀ slot ∈ i.reads, slot < used pc)
    (hnext : used (pc + 1) ≤ used pc) (hjump : ∀ target ∈ i.target?, used target ≤ used pc) :
    i.Respects used pc :=
  ⟨hreads, fun _ _ hslot => Or.inl (Nat.lt_of_lt_of_le hslot hnext), hjump⟩

theorem respects_jump (h : used target ≤ used pc) : (jump target).Respects used pc :=
  ⟨by simp, by simp, by simpa using h⟩

theorem respects_jumpIfFalse (hnext : used (pc + 1) ≤ used pc) (h : used target ≤ used pc) :
    (jumpIfFalse target).Respects used pc :=
  respects_of_le (by simp) hnext (by simpa using h)

/-- Storing into the next slot brings it into use. -/
theorem respects_storeLocal (hslot : used pc = slot) (hnext : used (pc + 1) ≤ slot + 1) :
    (storeLocal slot).Respects used pc := by
  refine ⟨by simp, fun _ other hother => ?_, by simp⟩
  rw [hslot, writes, List.mem_singleton]
  omega

end Instruction

section Valid

variable {u : CodeUnit} {r : Region} {used : Nat → Nat} {pc start : Nat}

/-- An instruction with operands in range reads slots in range. -/
theorem Instruction.Valid.reads_lt {i : Instruction} (h : i.Valid u r pc) {slot : Nat}
    (hslot : slot ∈ i.reads) : slot < r.locals := by
  cases i with
  | loadLocal n =>
    obtain rfl : slot = n := by simpa using hslot
    exact h
  | iterNext array cursor exit =>
    obtain rfl | rfl : slot = array ∨ slot = cursor := by simpa using hslot
    · exact h.1
    · exact h.2.1
  | _ => cases hslot

/-- Where the slots in range are those in use, an instruction with operands in range keeps to
them. -/
theorem Instruction.Valid.respects {i : Instruction} (h : i.Valid u r pc) (hpc : used pc = r.locals)
    (hnext : used (pc + 1) ≤ r.locals) (hle : ∀ target ∈ r, used target ≤ r.locals) :
    i.Respects used pc where
  reads _ hslot := hpc ▸ h.reads_lt hslot
  next _ _ hslot := Or.inl (hpc ▸ Nat.lt_of_lt_of_le hslot hnext)
  jump target htarget := hpc ▸ hle target (h.target_mem htarget)

theorem Op.Valid.respects {op : Op} (h : op.Valid u r pc) (hpc : used pc = r.locals)
    (hnext : used (pc + 1) ≤ r.locals) (hle : ∀ target ∈ r, used target ≤ r.locals) :
    op.Respects u used pc := by
  cases op with
  | plain _ i => exact Instruction.Valid.respects h hpc hnext hle
  | named _ _ i => exact fun id hid => Instruction.Valid.respects (h id hid) hpc hnext hle

/-- Code with operands in range keeps to the slots in use, if their number is the same all along and
not larger behind the code. -/
theorem Op.Each.respects {ops : List Op} {n : Nat}
    (h : Op.Each (Op.Valid u ⟨start, start + ops.length + 1, n⟩) start ops)
    (hused : ∀ k < ops.length, used (start + k) = n) (hend : used (start + ops.length) ≤ n) :
    Op.Each (Op.Respects u used) start ops := by
  have hle : ∀ k ≤ ops.length, used (start + k) ≤ n := by
    intro k hk
    rcases Nat.lt_or_eq_of_le hk with hlt | rfl
    · exact Nat.le_of_eq (hused k hlt)
    · exact hend
  intro k op hop
  obtain ⟨hk, -⟩ := List.getElem?_eq_some_iff.mp hop
  refine (h k op hop).respects (hused k hk) (hle (k + 1) hk) fun target htarget => ?_
  obtain ⟨hstart, hstop⟩ := Region.mem_iff.mp htarget
  obtain ⟨j, rfl⟩ := Nat.exists_eq_add_of_le hstart
  exact hle j (by dsimp only at hstop; omega)

end Valid

namespace Bound

mutual

/-- The number of slots in use at each instruction of a statement, if `n` are in use before it. -/
def Stmt.inUse (n : Nat) : Stmt → List Nat
  | .whileLoop condition body => List.replicate (condition.size + 1) n ++ (body.inUse n ++ [n])
  | .forLoop _ _ _ source body =>
    List.replicate (source.size + 1) n ++
      ([n + 1, n + 1, n + 2, n + 2] ++ (body.inUse (n + 3) ++ [n + 2]))
  | .ifThen condition body => List.replicate (condition.size + 1) n ++ body.inUse n
  | .ifElse condition body otherwise =>
    List.replicate (condition.size + 1) n ++ (body.inUse n ++ ([n] ++ otherwise.inUse n))
  | .block statements => Stmt.inUseAll n statements
  | .store target value => List.replicate (value.size + target.storeSize) n
  | .returnValue value | .discard value => List.replicate (value.size + 1) n
  | .returnVoid | .breakLoop | .continueLoop => [n]
termination_by structural stmt => stmt

/-- The number of slots in use at each instruction of some statements. -/
def Stmt.inUseAll (n : Nat) : List Stmt → List Nat
  | [] => []
  | stmt :: rest => stmt.inUse n ++ Stmt.inUseAll (stmt.inUseAfter n) rest
termination_by structural statements => statements

end

/-- The slot of a block is not in use at the start of the next block, although that
one takes it again. -/
example :
    Stmt.inUseAll 2 [.block [.store (.place (.slot 2)) .void, .discard (.load (.slot 2))],
      .block [.store (.place (.slot 2)) .void]] = [2, 2, 3, 3, 2, 2] :=
  rfl

/-- The number of slots in use at each instruction of a body: at first the
parameters, at the end none. -/
def Body.inUse (b : Body) : List Nat :=
  Stmt.inUseAll b.arity b.statements ++ [0]

/-- The number of slots in use at an offset of the unit of a program. -/
def Program.inUse (program : Program) (pc : Nat) : Nat :=
  ((program.bodies.map Body.inUse).flatten[pc]?).getD 0

mutual

@[simp] theorem Stmt.length_inUse (n : Nat) : (stmt : Stmt) → (stmt.inUse n).length = stmt.size
  | .whileLoop condition body => by
    simp only [Stmt.inUse, Stmt.size, List.length_append, List.length_replicate,
      List.length_singleton, Stmt.length_inUse n body]
    omega
  | .forLoop _ _ _ source body => by
    simp only [Stmt.inUse, Stmt.size, List.length_append, List.length_replicate, List.length_cons,
      List.length_nil, Stmt.length_inUse (n + 3) body]
    omega
  | .ifThen condition body => by
    simp only [Stmt.inUse, Stmt.size, List.length_append, List.length_replicate,
      Stmt.length_inUse n body]
    omega
  | .ifElse condition body otherwise => by
    simp only [Stmt.inUse, Stmt.size, List.length_append, List.length_replicate,
      List.length_singleton, Stmt.length_inUse n body, Stmt.length_inUse n otherwise]
    omega
  | .block statements => Stmt.length_inUseAll n statements
  | .store target value => List.length_replicate
  | .returnValue value => List.length_replicate
  | .discard value => List.length_replicate
  | .returnVoid => rfl
  | .breakLoop => rfl
  | .continueLoop => rfl

@[simp] theorem Stmt.length_inUseAll (n : Nat) :
    (statements : List Stmt) → (Stmt.inUseAll n statements).length = Stmt.sizes 0 statements
  | [] => rfl
  | stmt :: rest => by
    rw [Stmt.inUseAll, List.length_append, Stmt.length_inUse n stmt, Stmt.length_inUseAll _ rest,
      Stmt.sizes, Stmt.sizes_eq_add (0 + stmt.size), Nat.zero_add]

end

section Respects

variable {u : CodeUnit} {used : Nat → Nat} {n : Nat}

/-- The code of an expression keeps to the slots in use, if what follows it does not
bring any into use. -/
theorem Expr.each_respects (start m : Nat) {x : Expr} (h : x.Valid u n)
    (hused : ∀ k < x.size + 1, used (start + k) = n) :
    Op.Each (Op.Respects u used) start (x.code start m) ∧ used (start + x.size) = n := by
  have hend := hused x.size (Nat.lt_succ_self _)
  refine ⟨Op.Each.respects (n := n) ?_ ?_ ?_, hend⟩
  · exact Expr.each_valid (r := ⟨start, start + (x.code start m).length + 1, n⟩) start m
      (Nat.le_refl _) x h (by simp)
  · rw [Expr.length_code]
    exact fun k hk => hused k (Nat.lt_succ_of_lt hk)
  · rw [Expr.length_code]
    exact Nat.le_of_eq hend

/-- Storing takes at least one instruction. -/
theorem Target.storeSize_pos (t : Target) : 0 < t.storeSize := by
  cases t with
  | place p => exact Nat.zero_lt_one
  | element base position =>
    rw [Target.storeSize]
    omega

/-- Storing into what is in use keeps to the slots in use. -/
theorem Target.each_respects (start m : Nat) {t : Target} (h : t.Valid u n)
    (hused : ∀ k < t.storeSize, used (start + k) = n) (hend : used (start + t.storeSize) ≤ n) :
    Op.Each (Op.Respects u used) start (t.code start m) := by
  have hvalid :
      Op.Each (Op.Valid u ⟨start, start + (t.code start m).length + 1, n⟩) start (t.code start m) :=
    Target.each_valid (r := ⟨start, start + (t.code start m).length + 1, n⟩) start m
      (Nat.le_refl _) h (by simp)
  refine Op.Each.respects hvalid ?_ ?_
  · rwa [Target.length_code]
  · rwa [Target.length_code]

mutual

/-- The code of a statement keeps to the slots in use, if the exits and what follows the statement
do not expect more than there are. -/
theorem Stmt.each_respects (exits : Exits) (start n : Nat) (hbreak : used exits.breakTo ≤ n)
    (hcontinue : used exits.continueTo ≤ n) :
    (stmt : Stmt) → stmt.Initialised u n → Marks used start (stmt.inUse n) →
      used (start + stmt.size) ≤ stmt.inUseAfter n →
      used start ≤ n ∧ Op.Each (Op.Respects u used) start (stmt.code exits start)
  | .store target value, ⟨hvalue, htarget⟩, hmarks, hend => by
    rw [Stmt.inUse, marks_replicate] at hmarks
    rw [Stmt.add_size_store] at hend
    have hpos := target.storeSize_pos
    obtain ⟨hcode, hstore⟩ := Expr.each_respects start 0 hvalue fun k hk => hmarks k (by omega)
    refine ⟨Nat.le_of_eq (hmarks 0 (by omega)), Stmt.each_store.mpr ⟨hcode, ?_⟩⟩
    rcases htarget with hvalid | rfl
    · rw [Stmt.inUseAfter_store hvalid] at hend
      refine Target.each_respects _ 0 hvalid (fun k hk => ?_) hend
      rw [Nat.add_assoc]
      exact hmarks _ (by omega)
    · rw [Target.each_place]
      refine Instruction.respects_storeLocal hstore (Nat.le_trans hend ?_)
      exact Nat.max_le.mpr ⟨Nat.le_succ n, Nat.le_refl _⟩
  | .returnVoid, _, hmarks, _ => by
    obtain ⟨hstart, -⟩ := marks_cons.mp hmarks
    exact ⟨Nat.le_of_eq hstart, Stmt.each_returnVoid.mpr ⟨by simp, by simp, by simp⟩⟩
  | .returnValue value, hvalue, hmarks, _ => by
    rw [Stmt.inUse, marks_replicate] at hmarks
    obtain ⟨hcode, -⟩ := Expr.each_respects start 0 hvalue hmarks
    exact ⟨Nat.le_of_eq (hmarks 0 (by omega)),
      Stmt.each_returnValue.mpr ⟨hcode, by simp, by simp, by simp⟩⟩
  | .discard value, hvalue, hmarks, hend => by
    rw [Stmt.inUse, marks_replicate] at hmarks
    obtain ⟨hcode, hpop⟩ := Expr.each_respects start 0 hvalue hmarks
    refine ⟨Nat.le_of_eq (hmarks 0 (by omega)), Stmt.each_discard.mpr ⟨hcode, ?_⟩⟩
    exact Instruction.respects_of_le (by simp) (hpop ▸ hend) (by simp)
  | .whileLoop condition body, ⟨hcondition, hbody⟩, hmarks, hend => by
    simp only [Stmt.inUse, marks_append, marks_replicate, marks_cons, List.length_replicate,
      Stmt.length_inUse, ← Nat.add_assoc] at hmarks
    obtain ⟨hfirst, hinside, hagain, -⟩ := hmarks
    have hstart : used start = n := hfirst 0 (by omega)
    have hexit : used (start + condition.size + 1 + body.size + 1) ≤ n := by
      rwa [Stmt.add_size_whileLoop] at hend
    obtain ⟨hcode, htest⟩ := Expr.each_respects start 0 hcondition hfirst
    obtain ⟨henter, hcode'⟩ := Stmt.each_respects
      ⟨start + condition.size + 1 + body.size + 1, start⟩ (start + condition.size + 1) n hexit
      (Nat.le_of_eq hstart) body hbody hinside (hagain ▸ body.le_inUseAfter n)
    exact ⟨Nat.le_of_eq hstart, Stmt.each_whileLoop.mpr ⟨hcode,
      Instruction.respects_jumpIfFalse (htest ▸ henter) (htest ▸ hexit), hcode',
      Instruction.respects_jump (Nat.le_of_eq (hstart.trans hagain.symm))⟩⟩
  | .forLoop _ _ _ source body, ⟨rfl, rfl, rfl, hsource, hbody⟩, hmarks, hend => by
    simp only [Stmt.inUse, marks_append, marks_replicate, marks_cons, marks_nil,
      List.length_replicate, List.length_cons, List.length_nil, Stmt.length_inUse, Nat.add_assoc,
      Nat.reduceAdd, and_true] at hmarks
    simp only [← Nat.add_assoc start, ← Nat.add_assoc (start + source.size)] at hmarks
    obtain ⟨hfirst, ⟨hzero, hcursor, hstep, hitem⟩, hinside, hagain⟩ := hmarks
    have hexit : used (start + source.size + 5 + body.size + 1) ≤ n := by
      rwa [Stmt.add_size_forLoop] at hend
    obtain ⟨hcode, hstore⟩ := Expr.each_respects start 0 hsource hfirst
    obtain ⟨henter, hcode'⟩ := Stmt.each_respects
      ⟨start + source.size + 5 + body.size + 1, start + source.size + 3⟩ (start + source.size + 5)
      (n + 3) (Nat.le_add_right_of_le hexit) (by rw [hstep]; omega) body hbody hinside
      (hagain ▸ Nat.le_trans (Nat.le_succ _) (body.le_inUseAfter (n + 3)))
    -- The array, the cursor and the item come into use one after the other, and are free
    -- again at the exit.
    refine ⟨Nat.le_of_eq (hfirst 0 (by omega)), Stmt.each_forLoop.mpr ⟨hcode,
      Instruction.respects_storeLocal hstore (Nat.le_of_eq hzero),
      Instruction.respects_of_le (by simp) (Nat.le_of_eq (hcursor.trans hzero.symm)) (by simp),
      Instruction.respects_storeLocal hcursor (Nat.le_of_eq hstep),
      Instruction.respects_of_le ?_ (Nat.le_of_eq (hitem.trans hstep.symm)) ?_,
      Instruction.respects_storeLocal hitem henter, hcode',
      Instruction.respects_jump (Nat.le_of_eq (hstep.trans hagain.symm))⟩⟩
    · simp [hstep]
    · simpa [hstep] using Nat.le_add_right_of_le hexit
  | .ifThen condition body, ⟨hcondition, hbody⟩, hmarks, hend => by
    simp only [Stmt.inUse, marks_append, marks_replicate, List.length_replicate,
      ← Nat.add_assoc] at hmarks
    obtain ⟨hfirst, hinside⟩ := hmarks
    have hexit : used (start + condition.size + 1 + body.size) ≤ n := by
      rwa [Stmt.add_size_ifThen] at hend
    obtain ⟨hcode, htest⟩ := Expr.each_respects start 0 hcondition hfirst
    obtain ⟨henter, hcode'⟩ := Stmt.each_respects exits (start + condition.size + 1) n hbreak
      hcontinue body hbody hinside (Nat.le_trans hexit (body.le_inUseAfter n))
    exact ⟨Nat.le_of_eq (hfirst 0 (by omega)), Stmt.each_ifThen.mpr ⟨hcode,
      Instruction.respects_jumpIfFalse (htest ▸ henter) (htest ▸ hexit), hcode'⟩⟩
  | .ifElse condition body otherwise, ⟨hcondition, hbody, hotherwise⟩, hmarks, hend => by
    simp only [Stmt.inUse, marks_append, marks_replicate, marks_cons, marks_nil,
      List.length_replicate, List.length_singleton, Stmt.length_inUse, ← Nat.add_assoc,
      and_true] at hmarks
    obtain ⟨hfirst, hinside, hskip, hinside'⟩ := hmarks
    have hexit : used (start + condition.size + 1 + body.size + 1 + otherwise.size) ≤ n := by
      rwa [Stmt.add_size_ifElse] at hend
    obtain ⟨hcode, htest⟩ := Expr.each_respects start 0 hcondition hfirst
    obtain ⟨henter, hcode'⟩ := Stmt.each_respects exits (start + condition.size + 1) n hbreak
      hcontinue body hbody hinside (hskip ▸ body.le_inUseAfter n)
    obtain ⟨helse, hcode''⟩ := Stmt.each_respects exits
      (start + condition.size + 1 + body.size + 1) n hbreak
      hcontinue otherwise hotherwise hinside' (Nat.le_trans hexit (otherwise.le_inUseAfter n))
    exact ⟨Nat.le_of_eq (hfirst 0 (by omega)), Stmt.each_ifElse.mpr ⟨hcode,
      Instruction.respects_jumpIfFalse (htest ▸ henter) (htest ▸ helse), hcode',
      Instruction.respects_jump (hskip ▸ hexit), hcode''⟩⟩
  | .block statements, h, hmarks, hend => by
    obtain ⟨hstart, hcode⟩ := Stmt.each_respects_codes exits start n hbreak hcontinue
      statements h hmarks hend
    exact ⟨hstart, Stmt.each_block.mpr hcode⟩
  | .breakLoop, _, hmarks, _ => by
    obtain ⟨hstart, -⟩ := marks_cons.mp hmarks
    exact ⟨Nat.le_of_eq hstart,
      Stmt.each_breakLoop.mpr (Instruction.respects_jump (hstart ▸ hbreak))⟩
  | .continueLoop, _, hmarks, _ => by
    obtain ⟨hstart, -⟩ := marks_cons.mp hmarks
    exact ⟨Nat.le_of_eq hstart,
      Stmt.each_continueLoop.mpr (Instruction.respects_jump (hstart ▸ hcontinue))⟩

/-- The code of statements keeps to the slots in use. Behind them no more are
expected than before. -/
theorem Stmt.each_respects_codes (exits : Exits) (start n : Nat) (hbreak : used exits.breakTo ≤ n)
    (hcontinue : used exits.continueTo ≤ n) :
    (statements : List Stmt) → Stmt.AllInitialised u n statements →
      Marks used start (Stmt.inUseAll n statements) → used (start + Stmt.sizes 0 statements) ≤ n →
      used start ≤ n ∧ Op.Each (Op.Respects u used) start (Stmt.codes exits start statements)
  | [], _, _, hend => ⟨hend, Op.each_nil⟩
  | stmt :: rest, ⟨hstmt, hrest⟩, hmarks, hend => by
    rw [Stmt.inUseAll, marks_append, Stmt.length_inUse] at hmarks
    obtain ⟨hmarks₁, hmarks₂⟩ := hmarks
    rw [Stmt.add_sizes_cons] at hend
    have hle := stmt.le_inUseAfter n
    obtain ⟨hbetween, hcode₂⟩ := Stmt.each_respects_codes exits (start + stmt.size)
      (stmt.inUseAfter n) (Nat.le_trans hbreak hle) (Nat.le_trans hcontinue hle) rest hrest hmarks₂
      (Nat.le_trans hend hle)
    obtain ⟨hstart, hcode₁⟩ := Stmt.each_respects exits start n hbreak hcontinue stmt hstmt
      hmarks₁ hbetween
    exact ⟨hstart, Stmt.each_codes_cons.mpr ⟨hcode₁, hcode₂⟩⟩

end

@[simp] theorem Body.length_inUse (b : Body) : b.inUse.length = b.size := by
  simp [Body.inUse, Body.size]

/-- The code of a body keeps to the slots in use, if the parameters are in use at first. -/
theorem Body.each_respects (start : Nat) {b : Body} (h : Stmt.AllInitialised u b.arity b.statements)
    (hmarks : Marks used start b.inUse) :
    used start ≤ b.arity ∧ Op.Each (Op.Respects u used) start (b.code start) := by
  rw [Body.inUse, marks_append, marks_cons, Stmt.length_inUseAll] at hmarks
  obtain ⟨hstatements, hreturn, -⟩ := hmarks
  have hend : used (start + Stmt.sizes 0 b.statements) ≤ b.arity := by
    rw [hreturn]
    exact Nat.zero_le _
  obtain ⟨hstart, hcode⟩ := Stmt.each_respects_codes
    ⟨start + Stmt.sizes 0 b.statements, start + Stmt.sizes 0 b.statements⟩ start b.arity hend hend
    b.statements h hstatements hend
  exact ⟨hstart, Body.each_code.mpr ⟨hcode, by simp, by simp, by simp⟩⟩

/-- The code of bodies keeps to the slots in use, and at the entry of each only its parameters
are. -/
theorem Body.each_respects_codes (start : Nat) (bs : List Body)
    (h : ∀ b ∈ bs, Stmt.AllInitialised u b.arity b.statements)
    (hmarks : Marks used start (bs.map Body.inUse).flatten) :
    (∀ entry ∈ Body.entries start bs, used entry.start ≤ entry.arity) ∧
      Op.Each (Op.Respects u used) start (Body.codes start bs) := by
  induction bs generalizing start with
  | nil => simp [Body.entries, Body.codes]
  | cons b rest ih =>
    rw [List.map_cons, List.flatten_cons, marks_append, Body.length_inUse] at hmarks
    obtain ⟨hbody, hrest⟩ := List.forall_mem_cons.mp h
    obtain ⟨hstart, hcode⟩ := Body.each_respects start hbody hmarks.1
    obtain ⟨hentries, hcodes⟩ := ih (start + b.size) hrest hmarks.2
    refine ⟨List.forall_mem_cons.mpr ⟨hstart, hentries⟩, Op.each_append.mpr ⟨hcode, ?_⟩⟩
    rwa [Body.length_code]

end Respects

end Bound

/-- Whether the code of a unit keeps to the slots in use, and at each entry only the parameters
are. -/
structure CodeUnit.Respects (u : CodeUnit) (used : Nat → Nat) : Prop where
  code : ∀ (pc : Nat) (i : Instruction), u.code[pc]? = some i → i.Respects used pc
  top : used u.top.start = 0
  functions :
    ∀ (id : Nat) (entry : Entry), u.functions[id]? = some entry → used entry.start ≤ entry.arity

/-- An operation that is there and keeps to the slots in use is an instruction that does. -/
theorem CodeUnit.Has.respects {u : CodeUnit} {used : Nat → Nat} {pc : Nat} {op : Op}
    {i : Instruction} (h : u.Has pc op) (hop : op.Respects u used pc)
    (hcode : u.code[pc]? = some i) : i.Respects used pc := by
  obtain ⟨n, rfl⟩ | ⟨n, name, j, id, rfl, hid, rfl⟩ := h.eq_instruction hcode
  · exact hop
  · exact hop id hid

/-- The unit of a bound program keeps to the slots in use. -/
theorem bind_respects {p : Program} {program : Bound.Program} (h : p.bind = .ok program) :
    program.toUnit.Respects program.inUse := by
  have hmarks : Marks program.inUse 0 (program.bodies.map Bound.Body.inUse).flatten := by
    intro k n hn
    rw [Bound.Program.inUse, Nat.zero_add, hn, Option.getD_some]
  obtain ⟨hentries, hcodes⟩ := Bound.Body.each_respects_codes (u := program.toUnit) 0 program.bodies
    (fun b hb => bind_initialised h hb) hmarks
  rw [← Bound.Program.entries_toUnit] at hentries
  rw [← Bound.Program.code_eq_codes] at hcodes
  obtain ⟨htop, hfunctions⟩ := List.forall_mem_cons.mp hentries
  refine ⟨fun pc i hi => ?_, ?_, fun id entry hentry => ?_⟩
  · have hpc : pc < 0 + program.code.length := by
      rw [Nat.zero_add, ← program.size_code_toUnit]
      exact (Array.getElem?_eq_some_iff.mp hi).1
    obtain ⟨op, hhas, hop⟩ := (program.each_has_toUnit.and hcodes).exists_at (Nat.zero_le pc) hpc
    exact hhas.respects hop hi
  · obtain ⟨s, top, functions, -, hbody, -, rfl⟩ := bind_program_eq_ok_iff.mp h
    obtain ⟨-, harity⟩ := bindBody_signature (bindTopLevel_eq_ok_iff.mp hbody)
    rw [Bound.Program.toUnit_eq] at htop ⊢
    exact Nat.le_zero.mp (Nat.le_trans htop (Nat.le_of_eq harity))
  · exact hfunctions entry (Array.mem_toList_iff.mpr (Array.mem_of_getElem? hentry))

end HostScript
