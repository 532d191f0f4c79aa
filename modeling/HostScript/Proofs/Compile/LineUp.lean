import HostScript.Proofs.Compile.Parts

/-!
# Things of a text and their counterparts in the code

The code of a program stands in the order in which the statements are bound, and in a statement all
that is its own comes before the statements inside it. So whatever is gathered from the statements
of a program one by one, with each statement before those inside it, has its counterparts in the
code one after the other.
-/

namespace HostScript

/-- Whether each of some things in a text is realized between two offsets of the code. Every
counterpart has a mark in the code, an offset behind some of its instructions, and the marks are in
the order of the text. -/
structure LineUp {α β : Type} (Realizes : α → β → Prop) (mark : β → Nat) (lo hi : Nat)
    (xs : List α) (ys : List β) : Prop where
  realize : List.Forall₂ Realizes xs ys
  ascend : ys.Pairwise fun y y' => mark y < mark y'
  between : ∀ y ∈ ys, lo < mark y ∧ mark y ≤ hi

namespace LineUp

variable {α β : Type} {Realizes : α → β → Prop} {mark : β → Nat} {lo mid hi lo' hi' : Nat} {x : α}
  {y : β} {xs xs' : List α} {ys ys' : List β}

theorem nil (Realizes : α → β → Prop) (mark : β → Nat) (lo hi : Nat) :
    LineUp Realizes mark lo hi [] [] :=
  ⟨.nil, .nil, nofun⟩

theorem singleton (h : Realizes x y) (hlo : lo < mark y) (hhi : mark y ≤ hi) :
    LineUp Realizes mark lo hi [x] [y] :=
  ⟨.cons h .nil, List.pairwise_singleton .., List.forall_mem_singleton.mpr ⟨hlo, hhi⟩⟩

theorem widen (h : LineUp Realizes mark lo hi xs ys) (hlo : lo' ≤ lo) (hhi : hi ≤ hi') :
    LineUp Realizes mark lo' hi' xs ys := by
  refine ⟨h.realize, h.ascend, fun y hy => ?_⟩
  obtain ⟨hafter, hbefore⟩ := h.between y hy
  exact ⟨Nat.lt_of_le_of_lt hlo hafter, Nat.le_trans hbefore hhi⟩

theorem append (h : LineUp Realizes mark lo mid xs ys) (h' : LineUp Realizes mark mid hi xs' ys')
    (hlo : lo ≤ mid) (hhi : mid ≤ hi) : LineUp Realizes mark lo hi (xs ++ xs') (ys ++ ys') := by
  refine ⟨List.rel_append h.realize h'.realize, ?_, ?_⟩
  · refine List.pairwise_append.mpr ⟨h.ascend, h'.ascend, fun y hy y' hy' => ?_⟩
    exact Nat.lt_of_le_of_lt (h.between y hy).2 (h'.between y' hy').1
  · rw [List.forall_mem_append]
    exact ⟨(h.widen (Nat.le_refl _) hhi).between, (h'.widen hlo (Nat.le_refl _)).between⟩

end LineUp

section Gather

variable {α β : Type} {own : Point × Stmt → List α} {Realizes : α → β → Prop} {mark : β → Nat}
  {P : Nat → Op → Prop}

/-- Whether what every statement has of its own lines up in its code, before that of the statements
inside it. -/
def GathersInto (own : Point × Stmt → List α) (Realizes : α → β → Prop) (mark : β → Nat)
    (s : Signatures) (P : Nat → Op → Prop) : Prop :=
  ∀ ⦃around : Surroundings⦄ ⦃here : Point⦄ ⦃start : Nat⦄ ⦃b : Bound.Stmt⦄ ⦃stmt : Stmt⦄,
    around.signatures = s → stmt.IsEmitted around P here start b →
    ∃ ys, LineUp Realizes mark start (start + b.opening) (own (here, stmt)) ys

namespace GathersInto

/-- What a statement has of its own lines up, and then what is gathered from those inside it. -/
theorem cons {s : Signatures} (h : GathersInto own Realizes mark s P) {around : Surroundings}
    {here : Point} {start : Nat} {b : Bound.Stmt} {stmt : Stmt} (hs : around.signatures = s)
    (hstmt : stmt.IsEmitted around P here start b) {sites : List (Point × Stmt)}
    (hsites : ∃ ys, LineUp Realizes mark (start + b.opening) (start + b.size)
      (sites.flatMap own) ys) :
    ∃ ys, LineUp Realizes mark start (start + b.size) (((here, stmt) :: sites).flatMap own) ys := by
  obtain ⟨ys, hys⟩ := h hs hstmt
  obtain ⟨ys', hys'⟩ := hsites
  have hopening := b.opening_le
  rw [List.flatMap_cons]
  exact ⟨ys ++ ys', hys.append hys' (by omega) (by omega)⟩

/-- What is gathered from a statement without others inside lines up. -/
theorem single {s : Signatures} (h : GathersInto own Realizes mark s P) {around : Surroundings}
    {here : Point} {start : Nat} {b : Bound.Stmt} {stmt : Stmt} (hs : around.signatures = s)
    (hstmt : stmt.IsEmitted around P here start b) :
    ∃ ys, LineUp Realizes mark start (start + b.size) ([(here, stmt)].flatMap own) ys :=
  h.cons hs hstmt ⟨[], .nil ..⟩

mutual

/-- What is gathered from a statement lines up in its code. -/
theorem stmt {s : Signatures} (h : GathersInto own Realizes mark s P) {around : Surroundings}
    (hs : around.signatures = s) : (stmt : Stmt) → {here : Point} → {start : Nat} →
      {b : Bound.Stmt} → stmt.IsEmitted around P here start b →
      ∃ ys, LineUp Realizes mark start (start + b.size) ((stmt.sites here).flatMap own) ys
  | .whileLoop condition body, _, _, _, hstmt => by
    obtain ⟨b₁, b₂, rfl, hbody⟩ := hstmt.whileLoop
    obtain ⟨ys, hys⟩ := h.stmt hs body hbody
    refine h.cons hs hstmt ⟨ys, hys.widen (Nat.le_refl _) ?_⟩
    exact Nat.le_of_lt (Bound.Stmt.add_size_whileLoop ▸ Nat.lt_succ_self _)
  | .forLoop name source body, _, _, _, hstmt => by
    obtain ⟨array, cursor, item, b₁, b₂, rfl, hbody⟩ := hstmt.forLoop
    obtain ⟨ys, hys⟩ := h.stmt hs body hbody
    refine h.cons hs hstmt ⟨ys, hys.widen (Nat.le_refl _) ?_⟩
    exact Nat.le_of_lt (Bound.Stmt.add_size_forLoop ▸ Nat.lt_succ_self _)
  | .ifThen condition body, _, _, _, hstmt => by
    obtain ⟨b₁, b₂, rfl, hbody⟩ := hstmt.ifThen
    obtain ⟨ys, hys⟩ := h.stmt hs body hbody
    refine h.cons hs hstmt ⟨ys, hys.widen (Nat.le_refl _) ?_⟩
    exact Nat.le_of_eq Bound.Stmt.add_size_ifThen.symm
  | .ifElse condition body otherwise, _, start, _, hstmt => by
    obtain ⟨b₁, b₂, b₃, rfl, hbody, hotherwise⟩ := hstmt.ifElse
    obtain ⟨ys, hys⟩ := h.stmt hs body hbody
    obtain ⟨ys', hys'⟩ := h.stmt hs otherwise hotherwise
    have hboth := (hys.widen (Nat.le_refl _) (Nat.le_succ _)).append hys'
      (Nat.le_succ_of_le (Nat.le_add_right _ _)) (Nat.le_add_right _ _)
    refine h.cons hs hstmt ⟨ys ++ ys', ?_⟩
    rw [List.flatMap_append, Bound.Stmt.add_size_ifElse]
    exact hboth
  | .block statements, _, _, _, hstmt => by
    obtain ⟨bs, rfl, hstatements⟩ := hstmt.block
    obtain ⟨ys, hys⟩ := h.stmts hs statements hstatements
    exact h.cons hs hstmt ⟨ys, hys⟩
  | .assign _ _, _, _, _, hstmt => h.single hs hstmt
  | .returnVoid, _, _, _, hstmt => h.single hs hstmt
  | .returnValue _, _, _, _, hstmt => h.single hs hstmt
  | .discard _, _, _, _, hstmt => h.single hs hstmt
  | .declare _ _, _, _, _, hstmt => h.single hs hstmt
  | .breakLoop, _, _, _, hstmt => h.single hs hstmt
  | .continueLoop, _, _, _, hstmt => h.single hs hstmt
termination_by structural stmt => stmt

/-- What is gathered from statements of one scope lines up in their code. -/
theorem stmts {s : Signatures} (h : GathersInto own Realizes mark s P) {around : Surroundings}
    (hs : around.signatures = s) : (statements : List Stmt) → {here : Point} → {start : Nat} →
      {bs : List Bound.Stmt} → Stmt.AreEmitted around P here start bs statements →
      ∃ ys, LineUp Realizes mark start (start + Bound.Stmt.sizes 0 bs)
        ((Stmt.sitesOf here statements).flatMap own) ys
  | [], _, _, _, _ => ⟨[], .nil ..⟩
  | stmt :: rest, _, _, _, hstatements => by
    obtain ⟨b, bs, rfl, hstmt, hrest⟩ := hstatements.cons
    obtain ⟨ys, hys⟩ := h.stmt hs stmt hstmt
    obtain ⟨ys', hys'⟩ := h.stmts hs rest hrest
    rw [Stmt.sitesOf, List.flatMap_append, Bound.Stmt.add_sizes_cons]
    exact ⟨ys ++ ys', hys.append hys' (Nat.le_add_right _ _) (Nat.le_add_right _ _)⟩
termination_by structural statements => statements

end

variable {p : Program} {s : Signatures}

/-- What is gathered from top-level statements lines up in their code. -/
theorem topStmts (h : GathersInto own Realizes mark s P) (hglobals : s.HasGlobals p.globalNames)
    (done : List String) (statements : List Stmt) {v v' : Visible} {here : Point}
    {bs : List Bound.Stmt} {exits : Exits} {start : Nat} (hmatches : v.Matches s here)
    (hsound : v.scopes.Sound) (hdone : p.globalNames = done ++ declaredNames statements)
    (hreached : v.reached = done.length) (houter : v.scopes.outer = [])
    (hbind : bindStmts { signatures := s, topLevel := true } false [] v statements = .ok (bs, v'))
    (hcode : Op.Each P start (Bound.Stmt.codes exits start bs)) :
    ∃ ys, LineUp Realizes mark start (start + Bound.Stmt.sizes 0 bs)
      ((Stmt.topSitesOf here statements).flatMap own) ys := by
  induction statements generalizing v here bs start done with
  | nil => exact ⟨[], .nil ..⟩
  | cons stmt rest ih =>
    obtain ⟨b, v₁, bs, v₂, hstmt, hrest, hr⟩ := bindStmts_cons.mp hbind
    obtain ⟨rfl, rfl⟩ := Prod.mk.inj hr
    obtain ⟨hcode, hcode'⟩ := Bound.Stmt.each_codes_cons.mp hcode
    obtain ⟨hafter, hreached', houter'⟩ :=
      hmatches.afterTop (hdone ▸ hglobals) hreached houter hstmt
    have hsound' := (bindStmt_proceeds _ false v v₁ stmt b hstmt).sound hsound
    obtain ⟨ys, hys⟩ := h.stmt rfl stmt ⟨false, v, v₁, exits, hmatches, hsound, hstmt, hcode⟩
    obtain ⟨ys', hys'⟩ := ih (done ++ stmt.declared?.toList) hafter hsound'
      (by rw [hdone, declaredNames_cons, List.append_assoc]) hreached' houter' hrest hcode'
    rw [Stmt.topSitesOf, List.flatMap_append, Bound.Stmt.add_sizes_cons]
    exact ⟨ys ++ ys', hys.append hys' (Nat.le_add_right _ _) (Nat.le_add_right _ _)⟩

/-- What is gathered from the top-level code of a program lines up in its code. -/
theorem topLevel (h : GathersInto own Realizes mark s P) (hglobals : s.HasGlobals p.globalNames)
    {b : Bound.Body} (hbind : bindTopLevel s p.statements = .ok b) {start : Nat}
    (hcode : Op.Each P start (b.code start)) :
    ∃ ys, LineUp Realizes mark start (start + b.size)
      ((Stmt.topSitesOf {} p.statements).flatMap own) ys := by
  obtain ⟨v₁, bs, v₂, hparams, hbody, rfl⟩ :=
    bindBody_eq_ok_iff.mp (bindTopLevel_eq_ok_iff.mp hbind)
  obtain rfl := bindParams_nil.mp hparams
  have hmatches : Visible.Matches s {} {} := matches_start (by simp)
  obtain ⟨ys, hys⟩ := h.topStmts hglobals [] p.statements hmatches Scopes.sound_empty rfl rfl rfl
    hbody (Bound.Body.each_code.mp hcode).1
  refine ⟨ys, hys.widen (Nat.le_refl _) ?_⟩
  rw [Bound.Body.size, ← Nat.add_assoc]
  exact Nat.le_succ _

/-- What is gathered from a function lines up in the code of its body. -/
theorem function (h : GathersInto own Realizes mark s P) (hglobals : s.HasGlobals p.globalNames)
    {f : FunctionDecl} {b : Bound.Body} (hbind : bindFunction s f = .ok b) {start : Nat}
    (hcode : Op.Each P start (b.code start)) :
    ∃ ys, LineUp Realizes mark start (start + b.size)
      ((f.body.sites (p.functionPoint f)).flatMap own) ys := by
  obtain ⟨v₁, bs, v₂, hparams, hbody, rfl⟩ :=
    bindBody_eq_ok_iff.mp (bindFunction_eq_ok_iff.mp hbind)
  have hmatches := (matches_start (shows_function hglobals).completed).params rfl hparams
  have hsound := (bindParams_proceeds hparams).1.sound Scopes.sound_empty
  obtain ⟨b, v₃, bs, v₄, hstmt, hnil, hr⟩ := bindStmts_cons.mp hbody
  obtain ⟨rfl, -⟩ := Prod.mk.inj hr
  obtain ⟨rfl, -⟩ := Prod.mk.inj (bindStmts_nil.mp hnil)
  obtain ⟨hcode, -⟩ := Bound.Stmt.each_codes_cons.mp (Bound.Body.each_code.mp hcode).1
  obtain ⟨ys, hys⟩ := h.stmt rfl f.body ⟨false, v₁, v₃, _, hmatches, hsound, hstmt, hcode⟩
  refine ⟨ys, hys.widen (Nat.le_refl _) ?_⟩
  rw [Bound.Body.size, ← Nat.add_assoc, Bound.Stmt.add_sizes_cons]
  exact Nat.le_succ_of_le (Nat.le_add_right _ _)

/-- What is gathered from functions lines up in the code of their bodies. -/
theorem functions (h : GathersInto own Realizes mark s P) (hglobals : s.HasGlobals p.globalNames)
    {fs : List FunctionDecl} {bs : List Bound.Body}
    (hbind : List.Forall₂ (fun f b => bindFunction s f = .ok b) fs bs) {start : Nat}
    (hcode : Op.Each P start (Bound.Body.codes start bs)) :
    ∃ ys, LineUp Realizes mark start (start + Bound.Body.sizes bs)
      ((fs.flatMap fun f => f.body.sites (p.functionPoint f)).flatMap own) ys := by
  induction hbind generalizing start with
  | nil => exact ⟨[], .nil ..⟩
  | cons hf _ ih =>
    rw [Bound.Body.codes, Op.each_append, Bound.Body.length_code] at hcode
    obtain ⟨ys, hys⟩ := h.function hglobals hf hcode.1
    obtain ⟨ys', hys'⟩ := ih hcode.2
    rw [List.flatMap_cons, List.flatMap_append, Bound.Body.sizes, ← Nat.add_assoc]
    exact ⟨ys ++ ys', hys.append hys' (Nat.le_add_right _ _) (Nat.le_add_right _ _)⟩

end GathersInto

/-- What is gathered from a program that is bound lines up in its code. -/
theorem bind_lineUp {Realizes : Signatures → α → β → Prop} {p : Program} {program : Bound.Program}
    (hbind : p.bind = .ok program)
    (h : ∀ s, GathersInto own (Realizes s) mark s (Op.Of program.code)) :
    ∃ s ys, Signatures.ofProgram p = .ok s ∧
      LineUp (Realizes s) mark 0 program.toUnit.code.size (p.sites.flatMap own) ys := by
  have hcode := Op.each_of program.code
  nth_rewrite 2 [Bound.Program.code_eq_codes] at hcode
  obtain ⟨s, top, functions, hs, htop, hfunctions, hprogram⟩ := bind_program_eq_ok_iff.mp hbind
  have hbodies : program.bodies = top :: functions := by rw [← hprogram, Bound.Program.bodies]
  rw [hbodies, Bound.Body.codes, Op.each_append, Bound.Body.length_code] at hcode
  obtain ⟨-, hglobals⟩ := Signatures.ofProgram_table hs
  obtain ⟨ys, hys⟩ := (h s).topLevel hglobals htop hcode.1
  obtain ⟨ys', hys'⟩ :=
    (h s).functions hglobals (bindFunctions_eq_ok_iff.mp hfunctions) hcode.2
  rw [Bound.Program.size_code_eq_sizes, hbodies, Bound.Body.sizes, ← Nat.zero_add top.size,
    Program.sites, List.flatMap_append]
  exact ⟨s, ys ++ ys', hs, hys.append hys' (Nat.zero_le _) (Nat.le_add_right _ _)⟩

end Gather

end HostScript
