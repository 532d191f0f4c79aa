import HostScript.Proofs.Binding.Peaks
import HostScript.Proofs.Emission.Regions
import HostScript.Proofs.WellFormed.Compile
import HostScript.Proofs.WellFormed.SlotProblems

/-!
# Frame sizes

The number of locals in an entry of a unit is the peak of the body it stands for, neither more nor
less. A program that is orderly but for the size of its frames compiles when no body needs more
slots than an operand can count, and otherwise the first body that needs more is reported.
-/

namespace HostScript

/-- Whether an entry with some parameters and locals has the frames of a function, and their
slots can be counted. -/
structure FunctionDecl.HasFrame (f : FunctionDecl) (arity locals : Nat) : Prop where
  arity_eq : arity = f.params.length
  locals_eq : locals = f.frameSize
  locals_le : locals ≤ 65535

section Bodies

variable {s : Signatures} {b : Bound.Body}

/-- A bound function has as many locals as its frames need. -/
theorem bindFunction_hasFrame {f : FunctionDecl} (h : bindFunction s f = .ok b) :
    f.HasFrame b.arity b.locals := by
  obtain ⟨v₁, bs, v₂, hparams, hbody, rfl⟩ := bindBody_eq_ok_iff.mp (bindFunction_eq_ok_iff.mp h)
  have hstart : Scopes.Sound {} := Scopes.sound_empty
  obtain ⟨hproceeds, hnext⟩ := bindParams_proceeds hparams
  have hsound : v₁.scopes.Sound := hproceeds.sound hstart
  have hfirst : v₁.scopes.next = f.params.length := hnext.trans (Nat.zero_add _)
  have hpeak : v₁.scopes.peak = f.params.length := by simpa using bindParams_peak hstart hparams
  have hlocals : v₂.scopes.peak = f.frameSize := by
    rw [bindStmts_peak _ false v₁ v₂ [f.body] bs (fun name => rfl) hsound hbody, hpeak, hfirst,
      Stmt.peakOf_singleton]
    exact Nat.max_eq_right (f.body.le_peakFrom f.params.length)
  exact ⟨rfl, hlocals, ((bindStmts_proceeds _ false v₁ v₂ [f.body] bs hbody).sound hsound).peak_le⟩

/-- The bound top-level code has as many locals as its frame needs. -/
theorem bindTopLevel_locals {p : Program} (hglobals : s.HasGlobals p.globalNames)
    (h : bindTopLevel s p.statements = .ok b) : b.locals = p.frameSize ∧ b.locals ≤ 65535 := by
  obtain ⟨v₁, bs, v₂, hparams, hbody, rfl⟩ := bindBody_eq_ok_iff.mp (bindTopLevel_eq_ok_iff.mp h)
  obtain rfl := bindParams_nil.mp hparams
  have hstart : Scopes.Sound {} := Scopes.sound_empty
  have hnames : ∀ name ∈ declaredNames p.statements, name ∈ s.globals := by
    intro name hname
    obtain ⟨id, hid⟩ := List.mem_iff_getElem?.mp hname
    rw [Std.TreeMap.mem_iff_isSome_getElem?, (hglobals.id_iff name id).mpr hid]
    rfl
  have hlocals : v₂.scopes.peak = p.frameSize :=
    (bindStmts_topPeak hnames rfl hstart hbody).trans (Nat.zero_max _)
  exact ⟨hlocals, ((bindStmts_proceeds _ false _ v₂ p.statements bs hbody).sound hstart).peak_le⟩

/-- Entries have the frames of their bodies. -/
theorem hasFrame_entries {fs : List FunctionDecl} {bs : List Bound.Body}
    (h : List.Forall₂ (fun f b => f.HasFrame b.arity b.locals) fs bs) (start : Nat) :
    List.Forall₂ (fun f entry => f.HasFrame entry.arity entry.locals) fs
      (Bound.Body.entries start bs) := by
  induction h generalizing start with
  | nil => exact .nil
  | cons hfirst hrest ih => exact .cons hfirst (ih _)

end Bodies

namespace Program

variable {p : Program}

/-- The first body whose frames are too large, if there is one: the top-level code, which has no
name, or a function. -/
def tooLarge? (p : Program) : Option (Option String) :=
  if countLimit < p.frameSize then some none
  else (p.functions.find? fun f => countLimit < f.frameSize).map fun f => some f.name

/-- The error of a body whose frames are too large. -/
def frameError (function : Option String) : CompileError where
  fault := .limitExceeded "local slots" 65535
  function

/-- Problems of a body whose first one is about the size of its frames report them if
they are too large. -/
theorem head?_located {function : Option String} {faults : List CompileFault} {needed : Nat}
    (h : faults.head? = (slotProblem needed).head?) :
    (located function faults).head? =
      if countLimit < needed then some (frameError function) else none := by
  rw [located, List.head?_map, h, slotProblem, reportUnless]
  split_ifs with hroom hlarge hlarge
  · exact absurd hroom (Nat.not_le.mpr hlarge)
  · rfl
  · rfl
  · exact absurd (Nat.not_lt.mp hlarge) hroom

/-- The first problem of functions is the first of their frames that is too large. -/
theorem head?_flatMap_eq_find? {functions : List FunctionDecl}
    {problems : FunctionDecl → List CompileError} (h : ∀ f ∈ functions,
      (problems f).head? = if countLimit < f.frameSize then some (frameError f.name) else none) :
    (functions.flatMap problems).head? =
      (functions.find? fun f => countLimit < f.frameSize).map fun f => frameError f.name := by
  induction functions with
  | nil => rfl
  | cons f rest ih =>
    obtain ⟨hfirst, hrest⟩ := List.forall_mem_cons.mp h
    rw [List.flatMap_cons, List.head?_append, hfirst, ih hrest, List.find?_cons]
    by_cases hlarge : countLimit < f.frameSize <;> simp [hlarge]

/-- The first problem of an orderly program is the first of its frames that is too large. -/
theorem Orderly.head?_problems (h : p.Orderly) : p.problems.head? = p.tooLarge?.map frameError := by
  have htop : (located none (Stmt.topProblemsOf p.functions p.globalNames {} p.statements)).head? =
      if countLimit < p.frameSize then some (frameError none) else none := by
    rw [frameSize, Stmt.topPeakOf_eq, Nat.zero_add]
    exact head?_located (h.top.head?_problems h.functions_nodup)
  have hbodies : ∀ f ∈ p.functions,
      (located f.name (f.problems p.functions p.globalNames p.functionContext)).head? =
        if countLimit < f.frameSize then some (frameError f.name) else none := by
    intro f hf
    rw [FunctionDecl.frameSize, Stmt.peakFrom_eq]
    have hparams := (FunctionDecl.scopeNames_nodup.mp (h.scopes_nodup f hf)).1
    exact head?_located
      (FunctionDecl.head?_problems h.functions_nodup rfl rfl hparams
        (h.params_count f hf) (h.body hf))
  rw [problems, h.tables.1, h.tables.2, List.nil_append, List.nil_append, List.head?_append, htop,
    head?_flatMap_eq_find? hbodies, tooLarge?]
  by_cases hlarge : countLimit < p.frameSize
  · simp [hlarge]
  · simp [hlarge, Function.comp_def]

/-- No body is too large when each frame has at most as many slots as can be counted. -/
theorem tooLarge?_eq_none_iff :
    p.tooLarge? = none ↔ p.frameSize ≤ countLimit ∧
      ∀ f ∈ p.functions, f.frameSize ≤ countLimit := by
  by_cases hlarge : countLimit < p.frameSize
  · rw [tooLarge?, if_pos hlarge]
    exact iff_of_false (Option.some_ne_none none) fun h => absurd h.1 (Nat.not_le.mpr hlarge)
  · rw [tooLarge?, if_neg hlarge]
    simp [Nat.not_lt.mp hlarge]

/-- A program is well-formed when it is orderly and no frame is too large. -/
theorem wellFormed_iff_frameSize :
    p.WellFormed ↔ p.Orderly ∧ p.frameSize ≤ countLimit ∧
      ∀ f ∈ p.functions, f.frameSize ≤ countLimit := by
  rw [wellFormed_iff_orderly, frameSize, Stmt.topPeakOf_eq, Nat.zero_add]
  simp only [FunctionDecl.frameSize, Stmt.peakFrom_eq]

/-- Every entry of a unit has the frames of its body. -/
theorem compile_hasFrame {u : CodeUnit} (h : compile p = .ok u) :
    (u.top.locals = p.frameSize ∧ u.top.locals ≤ 65535) ∧
      List.Forall₂ (fun f entry => f.HasFrame entry.arity entry.locals) p.functions
        u.functions.toList := by
  obtain ⟨program, hbind, rfl⟩ := compile_eq_ok_iff.mp h
  obtain ⟨s, top, functions, hs, htop, hfunctions, rfl⟩ := bind_program_eq_ok_iff.mp hbind
  rw [Bound.Program.toUnit_eq]
  have hbodies := (bindFunctions_eq_ok_iff.mp hfunctions).imp fun f b => bindFunction_hasFrame
  exact ⟨bindTopLevel_locals (Signatures.ofProgram_table hs).2 htop, hasFrame_entries hbodies _⟩

end Program

/-- In the unit of a program every entry has exactly the locals that its body needs, which are not
more than can be counted. A program that follows all rules but the one about frames compiles when
none is larger, and otherwise the error is that of the first body that needs more. -/
theorem compile_frameSizes (p : Program) :
    (∀ u, compile p = .ok u →
      (u.top.locals = p.frameSize ∧ u.top.locals ≤ 65535) ∧
        List.Forall₂ (fun f entry => f.HasFrame entry.arity entry.locals) p.functions
          u.functions.toList) ∧
      (p.WellFormed ↔ p.Orderly ∧ p.frameSize ≤ 65535 ∧ ∀ f ∈ p.functions, f.frameSize ≤ 65535) ∧
      (p.WellFormed → ∃ u, compile p = .ok u) ∧
      (p.Orderly → 65535 < p.frameSize ∨ (∃ f ∈ p.functions, 65535 < f.frameSize) →
        ∃ function, p.tooLarge? = some function ∧
          compile p = .error { fault := .limitExceeded "local slots" 65535, function }) := by
  have hreports : Reports (compile p) p.problems := (bind_reports p).map
  refine ⟨fun u hu => Program.compile_hasFrame hu, Program.wellFormed_iff_frameSize, fun h => ?_,
    fun horderly hlarge => ?_⟩
  · exact hreports.exists_ok_iff.mpr (Program.problems_eq_nil.mpr h)
  · cases hsome : p.tooLarge? with
    | none =>
      obtain ⟨htop, hbodies⟩ := Program.tooLarge?_eq_none_iff.mp hsome
      rcases hlarge with hlarge | ⟨f, hf, hlarge⟩
      · exact absurd htop (Nat.not_le.mpr hlarge)
      · exact absurd (hbodies f hf) (Nat.not_le.mpr hlarge)
    | some function =>
      have hfirst := horderly.head?_problems
      rw [hsome] at hfirst
      exact ⟨function, rfl, hreports.eq_error_iff.mpr hfirst⟩

/-- Loops over empty arrays, each one inside the one before it. -/
def loopNest : Nat → Stmt
  | 0 => .block []
  | depth + 1 => .forLoop "item" (.array []) (loopNest depth)

/-- A program of nested loops, which take three slots each. -/
def loopProgram (depth : Nat) : Program where
  functions := []
  statements := [loopNest depth]

theorem peakFrom_loopNest (depth n : Nat) : (loopNest depth).peakFrom n = n + 3 * depth := by
  induction depth generalizing n with
  | zero => rfl
  | succ depth ih =>
    rw [loopNest, Stmt.peakFrom, ih]
    omega

theorem declared?_loopNest (depth : Nat) : (loopNest depth).declared? = none := by
  cases depth <;> rfl

theorem frameSize_loopProgram (depth : Nat) : (loopProgram depth).frameSize = 3 * depth := by
  rw [Program.frameSize, loopProgram, Stmt.topPeakOf_cons (declared?_loopNest depth),
    peakFrom_loopNest]
  simp [Stmt.topPeakOf]

/-- Nested loops follow the rules, however deep they are. -/
theorem orderly_loopNest (depth : Nat) (inLoop : Bool) (c : Context) :
    (loopNest depth).Orderly [] [] inLoop c := by
  induction depth generalizing inLoop c with
  | zero =>
    have hown : (Stmt.block []).Assigns ∧ (Stmt.block []).DeclaresOnce := ⟨trivial, List.nodup_nil⟩
    exact ⟨List.forall_mem_nil _, List.forall_mem_cons.mpr ⟨hown, List.forall_mem_nil _⟩,
      trivial, trivial,
      by simp [declared?_loopNest]⟩
  | succ depth ih =>
    have hbody := ih true (c.forHeader "item").enter
    have hsource : ∀ expr ∈ (Expr.array []).parts, expr.FitsArity [] ∧ expr.FitsCount := by
      simp [Expr.parts, Expr.partsOf, Expr.FitsArity, Expr.FitsCount]
    have hreads : (Expr.array []).Reads [] c := by
      simp [Expr.Reads, Expr.parts, Expr.partsOf, Context.Names]
    exact ⟨List.forall_mem_append.mpr ⟨hsource, hbody.exprs⟩,
      List.forall_mem_cons.mpr ⟨⟨trivial, trivial⟩, hbody.stmts⟩, hbody.loops,
      ⟨hreads, hbody.reads⟩,
      by simp [declared?_loopNest]⟩

theorem orderly_loopProgram (depth : Nat) : (loopProgram depth).Orderly := by
  have hnest := orderly_loopNest depth false {}
  have hglobals : (loopProgram depth).globalNames = [] := by
    simp [Program.globalNames, loopProgram, declared?_loopNest]
  have hstmts : (loopProgram depth).stmts = (loopNest depth).parts := by
    simp [Program.stmts, loopProgram, Stmt.partsOf]
  have hexprs : (loopProgram depth).exprs = (loopNest depth).exprs := by
    simp [Program.exprs, loopProgram, Stmt.exprsOf]
  have hreads : (loopNest depth).TopReads [] {} := by
    cases depth with
    | zero => exact hnest.reads
    | succ depth => exact hnest.reads
  exact
    { functions_count := Nat.zero_le _
      functions_nodup := List.nodup_nil
      params_count := List.forall_mem_nil _
      globals_count := by rw [hglobals]; exact Nat.zero_le _
      globals_nodup := by rw [hglobals]; exact List.nodup_nil
      scopes_nodup := List.forall_mem_nil _
      blocks_nodup := by rw [hstmts]; exact fun stmt hstmt => (hnest.stmts stmt hstmt).2
      loops := ⟨⟨hnest.loops, trivial⟩, List.forall_mem_nil _⟩
      assignments := by rw [hstmts]; exact fun stmt hstmt => (hnest.stmts stmt hstmt).1
      arities := by rw [hexprs]; exact fun expr hexpr => (hnest.exprs expr hexpr).1
      counts := by rw [hexprs]; exact fun expr hexpr => (hnest.exprs expr hexpr).2
      reads := by rw [hglobals]; exact ⟨⟨hreads, trivial⟩, List.forall_mem_nil _⟩ }

/-- As many nested loops as there are slots for compile, and one more does not. -/
theorem compile_loopProgram_limit :
    (∃ u, compile (loopProgram 21845) = .ok u ∧ u.top.locals = 65535) ∧
      compile (loopProgram 21846) = .error { fault := .limitExceeded "local slots" 65535 } := by
  have hfits := frameSize_loopProgram 21845
  have hlarge : 65535 < (loopProgram 21846).frameSize := by
    rw [frameSize_loopProgram]
    omega
  obtain ⟨hframes, hrules, hcompiles, -⟩ := compile_frameSizes (loopProgram 21845)
  have hroom : (loopProgram 21845).WellFormed :=
    hrules.mpr ⟨orderly_loopProgram 21845, Nat.le_of_eq hfits, List.forall_mem_nil _⟩
  obtain ⟨u, hu⟩ := hcompiles hroom
  obtain ⟨-, -, -, hrefused⟩ := compile_frameSizes (loopProgram 21846)
  obtain ⟨function, hfunction, herror⟩ := hrefused (orderly_loopProgram 21846) (.inl hlarge)
  have htop : (loopProgram 21846).tooLarge? = some none := if_pos hlarge
  obtain rfl : none = function := Option.some.inj (htop.symm.trans hfunction)
  exact ⟨⟨u, hu, (hframes u hu).1.1.trans hfits⟩, herror⟩

end HostScript
