import HostScript.Proofs.Compile.Structure
import HostScript.Proofs.Emission.Relocation
import HostScript.Proofs.Machine.Safety

/-!
# Functions compile independently

Besides its own text, a function is compiled with the signatures of its program only: the names and
the numbers of parameters of the functions, and the names of the script globals. The rest of the
program decides where its code stands and how its strings are numbered. Read with the targets of
jumps relative to its start, and with strings in place of their numbers, its code is the same in
every such program.
-/

namespace HostScript

/-- An instruction as it reads in every unit. -/
structure Portable where
  /-- The instruction with zero for the target of its jump and for the number of its string. -/
  shape : Instruction
  /-- How far the target of its jump is from the start of its body. -/
  distance : Option Int
  /-- The string that it uses. -/
  text : Option String
  deriving DecidableEq

namespace Instruction

/-- The instruction with zero for the target of its jump and for the number of its string. -/
def shape : Instruction → Instruction
  | .jump _ => .jump 0
  | .jumpIfFalse _ => .jumpIfFalse 0
  | .jumpIfTrue _ => .jumpIfTrue 0
  | .iterNext array cursor _ => .iterNext array cursor 0
  | .pushString _ => .pushString 0
  | .loadHost _ => .loadHost 0
  | .storeHost _ => .storeHost 0
  | .callNative _ argc => .callNative 0 argc
  | .callMethod _ argc => .callMethod 0 argc
  | i => i

/-- How an instruction with a given string reads in a body that starts at an offset. -/
def portable (start : Nat) (text : Option String) (i : Instruction) : Portable where
  shape := i.shape
  distance := i.target?.map fun target : Nat => (target : Int) - start
  text

/-- An instruction that is moved along with its body reads the same. -/
theorem portable_move (d start : Nat) (text : Option String) (i : Instruction) :
    (i.move d).portable (start + d) text = i.portable start text := by
  have hdistance :
      ∀ target : Nat, ((target + d : Nat) : Int) - ((start + d : Nat) : Int) = target - start := by
    intro target
    omega
  cases i with
  | jump | jumpIfFalse | jumpIfTrue | iterNext =>
    simp only [move, portable, shape, target?, Option.map_some, hdistance]
  | _ => rfl

end Instruction

/-- How an instruction of a unit reads in a body that starts at an offset. It does not if its string
is not in the pool. -/
def CodeUnit.portable? (u : CodeUnit) (start : Nat) (i : Instruction) : Option Portable :=
  match i.string? with
  | none => some (i.portable start none)
  | some id => u.strings[id]?.map fun text => i.portable start (some text)

namespace Op

/-- How an operation reads in a body that starts at an offset. -/
def portable (start : Nat) : Op → Portable
  | .plain _ i => i.portable start none
  | .named _ name i => (i 0).portable start (some name)

/-- Whether an operation uses a string exactly when it waits for one, and then for nothing else. -/
def Regular : Op → Prop
  | .plain _ i => i.string? = none
  | .named _ _ i =>
    ∀ id, (i id).string? = some id ∧ (i id).target? = none ∧ (i id).shape = (i 0).shape

/-- An operation that is moved along with its body reads the same. -/
theorem Regular.portable_move {op : Op} (h : op.Regular) (d start : Nat) :
    (op.move d).portable (start + d) = op.portable start := by
  cases op with
  | plain n i => exact i.portable_move d start none
  | named n name i =>
    obtain ⟨-, htarget, -⟩ := h 0
    simp only [move, portable, Instruction.portable, htarget, Option.map_none]

theorem regular_loadOp (n : Nat) (p : Place) : (p.loadOp n).Regular := by
  cases p with
  | slot k => rfl
  | script id => rfl
  | host name => exact fun id => ⟨rfl, rfl, rfl⟩

theorem regular_storeOp (n : Nat) (p : Place) : (p.storeOp n).Regular := by
  cases p with
  | slot k => rfl
  | script id => rfl
  | host name => exact fun id => ⟨rfl, rfl, rfl⟩

theorem regular_skip (n target : Nat) (op : Connective) :
    (Op.plain n (Emitter.skip op target)).Regular := by
  cases op <;> rfl

end Op

/-- A regular operation that is there reads as it should. -/
theorem CodeUnit.Has.portable? {u : CodeUnit} {pc : Nat} {op : Op} (h : u.Has pc op)
    (hop : op.Regular) (start : Nat) :
    u.code[pc]?.map (u.portable? start) = some (some (op.portable start)) := by
  cases op with
  | plain n i =>
    have hnone : i.string? = none := hop
    rw [show u.code[pc]? = some i from h, Option.map_some, CodeUnit.portable?, hnone]
    rfl
  | named n name i =>
    obtain ⟨id, hid, hcode⟩ := h
    obtain ⟨hstring, htarget, hshape⟩ := hop id
    obtain ⟨-, htarget', -⟩ := hop 0
    simp only [hcode, Option.map_some, CodeUnit.portable?, hstring, hid, Op.portable,
      Instruction.portable, htarget, htarget', hshape]

namespace Bound

mutual

/-- The operations of an expression are regular. -/
theorem Expr.code_regular (start n : Nat) : (x : Expr) → ∀ op ∈ x.code start n, op.Regular
  | .void | .number _ => List.forall_mem_singleton.mpr rfl
  | .string _ => List.forall_mem_singleton.mpr fun _ => ⟨rfl, rfl, rfl⟩
  | .load p => List.forall_mem_singleton.mpr (Op.regular_loadOp n p)
  | .index base position => by
    rw [Expr.code, List.forall_mem_append, List.forall_mem_append]
    exact ⟨⟨Expr.code_regular _ _ base, Expr.code_regular _ _ position⟩,
      List.forall_mem_singleton.mpr rfl⟩
  | .array items | .callScript _ items => by
    rw [Expr.code, List.forall_mem_append]
    exact ⟨Expr.codes_regular _ _ items, List.forall_mem_singleton.mpr rfl⟩
  | .callNative _ args => by
    rw [Expr.code, List.forall_mem_append]
    exact ⟨Expr.codes_regular _ _ args, List.forall_mem_singleton.mpr fun _ => ⟨rfl, rfl, rfl⟩⟩
  | .callMethod object _ args => by
    rw [Expr.code, List.forall_mem_append, List.forall_mem_append]
    exact ⟨⟨Expr.code_regular _ _ object, Expr.codes_regular _ _ args⟩,
      List.forall_mem_singleton.mpr fun _ => ⟨rfl, rfl, rfl⟩⟩
  | .unary _ operand => by
    rw [Expr.code, List.forall_mem_append]
    exact ⟨Expr.code_regular _ _ operand, List.forall_mem_singleton.mpr rfl⟩
  | .strict _ lhs rhs => by
    rw [Expr.code, List.forall_mem_append, List.forall_mem_append]
    exact ⟨⟨Expr.code_regular _ _ lhs, Expr.code_regular _ _ rhs⟩,
      List.forall_mem_singleton.mpr rfl⟩
  | .connect op lhs rhs => by
    simp only [Expr.code, List.forall_mem_append, List.forall_mem_cons, List.not_mem_nil,
      false_implies, implies_true, and_true]
    exact ⟨⟨⟨Expr.code_regular _ _ lhs, Op.regular_skip _ _ op⟩, Expr.code_regular _ _ rhs⟩,
      Op.regular_skip _ _ op, rfl, rfl, rfl⟩
termination_by structural x => x

/-- The operations of expressions are regular. -/
theorem Expr.codes_regular (start n : Nat) :
    (xs : List Expr) → ∀ op ∈ Expr.codes start n xs, op.Regular
  | [] => List.forall_mem_nil _
  | x :: xs => by
    rw [Expr.codes, List.forall_mem_append]
    exact ⟨Expr.code_regular _ _ x, Expr.codes_regular _ _ xs⟩
termination_by structural xs => xs

end

/-- The operations that store into a target are regular. -/
theorem Target.code_regular (start n : Nat) (t : Target) : ∀ op ∈ t.code start n, op.Regular := by
  induction t generalizing start with
  | place p => exact List.forall_mem_singleton.mpr (Op.regular_storeOp _ p)
  | element base position ih =>
    simp only [Target.code, List.forall_mem_append]
    exact ⟨⟨⟨base.read.code_regular _ _, position.code_regular _ _⟩,
        List.forall_mem_singleton.mpr rfl⟩, ih _⟩

mutual

/-- The operations of a statement are regular. -/
theorem Stmt.code_regular (exits : Exits) (start : Nat) :
    (stmt : Stmt) → ∀ op ∈ stmt.code exits start, op.Regular
  | .returnVoid | .breakLoop | .continueLoop => List.forall_mem_singleton.mpr rfl
  | .store target value => by
    rw [Stmt.code, List.forall_mem_append]
    exact ⟨value.code_regular _ _, target.code_regular _ _⟩
  | .returnValue value | .discard value => by
    rw [Stmt.code, List.forall_mem_append]
    exact ⟨value.code_regular _ _, List.forall_mem_singleton.mpr rfl⟩
  | .whileLoop condition body => by
    simp only [Stmt.code, List.forall_mem_append]
    exact ⟨⟨⟨condition.code_regular _ _, List.forall_mem_singleton.mpr rfl⟩,
        Stmt.code_regular _ _ body⟩, List.forall_mem_singleton.mpr rfl⟩
  | .forLoop array cursor item source body => by
    simp only [Stmt.code, List.forall_mem_append, List.forall_mem_cons, List.not_mem_nil,
      false_implies, implies_true, and_true]
    exact ⟨⟨⟨source.code_regular _ _, rfl, rfl, rfl, rfl, rfl⟩, Stmt.code_regular _ _ body⟩, rfl⟩
  | .ifThen condition body => by
    simp only [Stmt.code, List.forall_mem_append]
    exact ⟨⟨condition.code_regular _ _, List.forall_mem_singleton.mpr rfl⟩,
      Stmt.code_regular _ _ body⟩
  | .ifElse condition body otherwise => by
    simp only [Stmt.code, List.forall_mem_append]
    exact ⟨⟨⟨⟨condition.code_regular _ _, List.forall_mem_singleton.mpr rfl⟩,
          Stmt.code_regular _ _ body⟩, List.forall_mem_singleton.mpr rfl⟩,
      Stmt.code_regular _ _ otherwise⟩
  | .block statements => by
    rw [Stmt.code]
    exact Stmt.codes_regular exits start statements
termination_by structural stmt => stmt

/-- The operations of statements are regular. -/
theorem Stmt.codes_regular (exits : Exits) (start : Nat) :
    (statements : List Stmt) → ∀ op ∈ Stmt.codes exits start statements, op.Regular
  | [] => List.forall_mem_nil _
  | stmt :: rest => by
    rw [Stmt.codes, List.forall_mem_append]
    exact ⟨Stmt.code_regular _ _ stmt, Stmt.codes_regular _ _ rest⟩
termination_by structural statements => statements

end

/-- The operations of a body are regular. -/
theorem Body.code_regular (start : Nat) (b : Body) : ∀ op ∈ b.code start, op.Regular := by
  rw [Body.code, List.forall_mem_append]
  exact ⟨Stmt.codes_regular _ _ b.statements, List.forall_mem_singleton.mpr rfl⟩

/-- How the code of a body reads in every unit. -/
def Body.listing (b : Body) : List Portable :=
  (b.code 0).map (Op.portable 0)

/-- The code of a body reads the same wherever it stands. -/
theorem Body.map_portable_code (start : Nat) (b : Body) :
    (b.code start).map (Op.portable start) = b.listing := by
  have hmove := b.code_move start 0
  rw [Nat.zero_add] at hmove
  rw [hmove, List.map_map, Body.listing]
  refine List.map_congr_left fun op hop => ?_
  have hsame := (b.code_regular 0 op hop).portable_move start 0
  rwa [Nat.zero_add] at hsame

/-- A region that holds the code of a body reads as that code. -/
theorem Body.map_portable?_regionCode {u : CodeUnit} {start : Nat} {b : Body}
    (h : Op.Each u.Has start (b.code start)) :
    (u.regionCode (b.region start)).map (u.portable? start) = b.listing.map some := by
  rw [← b.map_portable_code start, List.map_map]
  apply List.ext_getElem?
  intro k
  rw [List.getElem?_map, List.getElem?_map, CodeUnit.regionCode]
  have hlength : (b.region start).stop - (b.region start).start = (b.code start).length := by
    rw [Body.length_code]
    exact Nat.add_sub_cancel_left start b.size
  rw [hlength, List.getElem?_take]
  split
  next hk =>
    have hop := List.getElem?_eq_getElem hk
    rw [List.getElem?_drop, Array.getElem?_toList, hop]
    exact (h k _ hop).portable? (b.code_regular start _ (List.mem_of_getElem? hop)) start
  next hk => rw [List.getElem?_eq_none (Nat.le_of_not_lt hk), Option.map_none, Option.map_none]

end Bound

namespace Signatures

/-- Functions enter the table with their name and their number of parameters. -/
theorem addFunctions_congr (s : Signatures) (id : Nat) {fs fs' : List FunctionDecl}
    (h : fs.map (fun f => (f.name, f.params.length)) = fs'.map fun f => (f.name, f.params.length)) :
    s.addFunctions id fs = s.addFunctions id fs' := by
  induction fs generalizing s id fs' with
  | nil =>
    rw [List.map_nil, eq_comm, List.map_eq_nil_iff] at h
    rw [h]
  | cons f rest ih =>
    cases fs' with
    | nil => simp at h
    | cons f' rest' =>
      rw [List.map_cons, List.map_cons] at h
      obtain ⟨hhead, hrest⟩ := List.cons.inj h
      obtain ⟨hname, hparams⟩ := Prod.mk.inj hhead
      simp only [addFunctions, hname, hparams, ih _ _ hrest]

/-- Script globals enter the table with the names that are declared, whatever else
the statements do. -/
theorem addGlobals_eq (s : Signatures) (statements : List Stmt) :
    s.addGlobals statements =
      s.addGlobals ((statements.filterMap Stmt.declared?).map fun name => .declare name none) := by
  induction statements generalizing s with
  | nil => rfl
  | cons stmt rest ih =>
    cases hdeclared : stmt.declared? with
    | none => simp only [addGlobals, hdeclared, List.filterMap_cons_none hdeclared, ih s]
    | some name =>
      rw [addGlobals, hdeclared, List.filterMap_cons_some hdeclared, List.map_cons, addGlobals]
      simp only [Stmt.declared?]
      split
      · rfl
      split
      · rfl
      exact ih _

/-- Programs with the same functions, by name and number of parameters, and the same script globals
have the same signatures. -/
theorem ofProgram_congr {p p' : Program}
    (hfunctions : p.functions.map (fun f => (f.name, f.params.length)) =
      p'.functions.map fun f => (f.name, f.params.length))
    (hglobals : p.globalNames = p'.globalNames) : ofProgram p = ofProgram p' := by
  have hstatements : ∀ s : Signatures, s.addGlobals p.statements = s.addGlobals p'.statements := by
    intro s
    rw [addGlobals_eq, addGlobals_eq s p'.statements]
    exact congrArg (fun names => s.addGlobals (names.map fun name => .declare name none)) hglobals
  simp only [ofProgram, addFunctions_congr {} 0 hfunctions, hstatements]

end Signatures

/-- A function of a program that compiles is bound with the signatures of the program, and its
region holds the code of its body. -/
theorem compile_function {p : Program} {u : CodeUnit} (h : compile p = .ok u) {id : Nat}
    {f : FunctionDecl} (hf : p.functions[id]? = some f) :
    ∃ s b entry, Signatures.ofProgram p = .ok s ∧ bindFunction s f = .ok b ∧
      u.functions[id]? = some entry ∧
      entry = b.entry entry.start ∧ u.region? (some id) = some (b.region entry.start) ∧
      Op.Each u.Has entry.start (b.code entry.start) := by
  obtain ⟨program, hbind, rfl⟩ := compile_eq_ok_iff.mp h
  have hentry := congrArg (·[id]?) (functions_toUnit hbind)
  simp only [List.getElem?_map, hf, Option.map_some] at hentry
  obtain ⟨entry, hentry, -⟩ := Option.map_eq_some_iff.mp hentry
  rw [Array.getElem?_toList] at hentry
  obtain ⟨b, hb, heq, hregion⟩ := Bound.Program.function_toUnit hentry
  obtain ⟨start, hregion', hcode⟩ := program.exists_region_toUnit hb
  obtain rfl : entry.start = start := by
    rw [hregion] at hregion'
    exact congrArg Region.start (Option.some.inj hregion')
  obtain ⟨s, top, functions, hs, -, hfunctions, rfl⟩ := bind_program_eq_ok_iff.mp hbind
  obtain ⟨f', hf', hbound⟩ := bindFunctions_getElem? hfunctions hb
  obtain rfl : f = f' := Option.some.inj (hf.symm.trans hf')
  exact ⟨s, b, entry, hs, hbound, hentry, heq, hregion, hcode _ (Bound.Program.each_has_toUnit _)⟩

/-- Whether two units have the same code for the function of some number. Its entries differ in
their start alone, and instruction by instruction its regions read the same. -/
def CodeUnit.SharesFunction (u u' : CodeUnit) (id : Nat) : Prop :=
  ∃ (entry entry' : Entry) (region region' : Region) (listing : List Portable),
    u.functions[id]? = some entry ∧ u'.functions[id]? = some entry' ∧
    entry' = { entry with start := entry'.start } ∧
    u.region? (some id) = some region ∧ u'.region? (some id) = some region' ∧
    region.start = entry.start ∧ region'.start = entry'.start ∧
    (u.regionCode region).map (u.portable? entry.start) = listing.map some ∧
    (u'.regionCode region').map (u'.portable? entry'.start) = listing.map some

/-- A function that two programs have in common compiles to the same code in both, if these have the
same functions, by name and number of parameters, and the same script globals in the same order. -/
theorem compile_function_independent {p p' : Program} {u u' : CodeUnit} (h : compile p = .ok u)
    (h' : compile p' = .ok u')
    (hfunctions : p.functions.map (fun f => (f.name, f.params.length)) =
      p'.functions.map fun f => (f.name, f.params.length))
    (hglobals : p.globalNames = p'.globalNames) {f : FunctionDecl} (hf : f ∈ p.functions)
    (hf' : f ∈ p'.functions) :
    ∃ id, p.functions[id]? = some f ∧ p'.functions[id]? = some f ∧ u.SharesFunction u' id := by
  obtain ⟨id, hid⟩ := List.mem_iff_getElem?.mp hf
  obtain ⟨id', hid'⟩ := List.mem_iff_getElem?.mp hf'
  obtain ⟨s, b, entry, hs, hb, hentry, heq, hregion, hcode⟩ := compile_function h hid
  obtain ⟨s', b', entry', hs', hb', hentry', heq', hregion', hcode'⟩ := compile_function h' hid'
  obtain rfl : s = s' := by
    rw [Signatures.ofProgram_congr hfunctions hglobals, hs'] at hs
    exact (Except.ok.inj hs).symm
  obtain rfl : b = b' := Except.ok.inj (hb.symm.trans hb')
  -- The table has one number for the name of the function.
  obtain rfl : id = id' := by
    have hsignature := ((Signatures.ofProgram_table hs).1 f.name ⟨id, f.params.length⟩).mpr
      ⟨f, hid, rfl, rfl⟩
    have hsignature' := ((Signatures.ofProgram_table hs').1 f.name ⟨id', f.params.length⟩).mpr
      ⟨f, hid', rfl, rfl⟩
    rw [hsignature] at hsignature'
    exact congrArg Signature.id (Option.some.inj hsignature')
  have hsame : entry' = { entry with start := entry'.start } := by
    rw [heq, heq']
    rfl
  exact ⟨id, hid, hid', entry, entry', _, _, b.listing, hentry, hentry', hsame, hregion, hregion',
    rfl, rfl, b.map_portable?_regionCode hcode, b.map_portable?_regionCode hcode'⟩

/-- A function with a loop, jumps over a call, a string and names of the host. -/
def reportFunction : FunctionDecl where
  name := "report"
  params := ["items"]
  body := .block
    [.forLoop "item" (.var "items")
      (.ifThen (.binary .or (.var "verbose") (.call "check" [.var "item"]))
        (.discard (.call "print" [.string "item", .var "item"]))),
     .returnValue (.var "total")]

/-- A program with that function behind one that does nothing. -/
def terseReport : Program where
  functions := [{ name := "check", params := ["value"], body := .returnVoid }, reportFunction]
  statements := [.declare "total" none]

/-- A program with that function behind one that does more, and with more top-level code. -/
def chattyReport : Program where
  functions :=
    [{ name := "check"
       params := ["value"]
       body := .block
        [.discard (.call "print" [.string "checked"]),
         .returnValue (.binary .more (.var "value") (.var "total"))] },
     reportFunction]
  statements := [.declare "total" (some (.string "item")), .discard (.call "report" [.array []])]

/-- The two programs have the same code for the common function, which stands at different offsets
and has different numbers for its strings. -/
theorem reports_independent :
    ∃ u u', compile terseReport = .ok u ∧ compile chattyReport = .ok u' ∧
      u.functions.toList.map (·.start) = [3, 5] ∧ u'.functions.toList.map (·.start) = [6, 14] ∧
      u.strings.toList = ["verbose", "item", "print"] ∧
      u'.strings.toList = ["item", "checked", "print", "verbose"] ∧
      ∃ id, terseReport.functions[id]? = some reportFunction ∧
        chattyReport.functions[id]? = some reportFunction ∧
        u.SharesFunction u' id := by
  have hterse : ((compile terseReport).toOption.map fun u =>
      (u.functions.toList.map (·.start), u.strings.toList)) = some ([3, 5],
        ["verbose", "item", "print"]) := by
    decide +kernel
  have hchatty : ((compile chattyReport).toOption.map fun u =>
      (u.functions.toList.map (·.start), u.strings.toList)) =
        some ([6, 14], ["item", "checked", "print", "verbose"]) := by
    decide +kernel
  obtain ⟨u, hu, hparts⟩ := exists_compile_eq_ok hterse
  obtain ⟨u', hu', hparts'⟩ := exists_compile_eq_ok hchatty
  obtain ⟨hstarts, hstrings⟩ := Prod.mk.inj hparts
  obtain ⟨hstarts', hstrings'⟩ := Prod.mk.inj hparts'
  have hmem : reportFunction ∈ terseReport.functions := List.mem_cons_of_mem _ List.mem_cons_self
  have hmem' : reportFunction ∈ chattyReport.functions := List.mem_cons_of_mem _ List.mem_cons_self
  exact ⟨u, u', hu, hu', hstarts, hstarts', hstrings, hstrings',
    compile_function_independent hu hu' rfl rfl hmem hmem'⟩

end HostScript
