import HostScript.Proofs.Binding.Effect
import HostScript.Proofs.WellFormed.Problems

/-!
# Binding reports the first problem

Binding stops where the list of problems begins: it succeeds when there are none, and otherwise it
fails with the first one. Scopes and the context of the rules say the same about which names are
declared, announced and complete and how many slots are taken.
-/

namespace HostScript

/-- Whether a result is a success when there are no problems and otherwise fails with
the first of them. -/
def Reports {ε α : Type} (result : Except ε α) (problems : List ε) : Prop :=
  match result with
  | .ok _ => problems = []
  | .error problem => problems.head? = some problem

namespace Reports

variable {ε δ α β : Type} {result : Except ε α} {problems rest : List ε}

theorem ok (a : α) : Reports (.ok a : Except ε α) [] :=
  rfl

/-- A result is a success exactly when there are no problems. -/
theorem exists_ok_iff (h : Reports result problems) : (∃ a, result = .ok a) ↔ problems = [] := by
  cases result with
  | ok a => exact iff_of_true ⟨a, rfl⟩ h
  | error problem =>
    refine iff_of_false nofun fun hnil => ?_
    have hfirst : problems.head? = some problem := h
    simp [hnil] at hfirst

/-- A result fails exactly with the first of the problems. -/
theorem eq_error_iff (h : Reports result problems) {problem : ε} :
    result = .error problem ↔ problems.head? = some problem := by
  cases result with
  | ok a =>
    obtain rfl : problems = [] := h
    simp
  | error first =>
    have hfirst : problems.head? = some first := h
    simp [hfirst]

/-- What follows a success is reported after it. -/
theorem bind {next : α → Except ε β} (h : Reports result problems)
    (hnext : ∀ a, result = .ok a → Reports (next a) rest) :
    Reports (result >>= next) (problems ++ rest) := by
  cases result with
  | ok a =>
    obtain rfl : problems = [] := h
    exact hnext a rfl
  | error problem =>
    have hfirst : problems.head? = some problem := h
    change (problems ++ rest).head? = some problem
    rw [List.head?_append, hfirst, Option.some_or]

/-- Only the first problem matters. -/
theorem congr {others : List ε} (h : Reports result problems)
    (hfirst : problems.head? = others.head?) : Reports result others := by
  cases result with
  | ok a =>
    obtain rfl : problems = [] := h
    exact List.head?_eq_none_iff.mp hfirst.symm
  | error problem => exact hfirst.symm.trans h

/-- What is made of a success at the end does not matter. -/
theorem map {f : α → β} (h : Reports result problems) :
    Reports (result >>= fun a => pure (f a)) problems := by
  cases result with
  | ok a => exact h
  | error problem => exact h

/-- A condition that holds is no problem. -/
theorem held {ok : Prop} [Decidable ok] {problem : ε} {a : α} (h : ok) :
    Reports (.ok a) (reportUnless ok problem) :=
  if_pos h

/-- A condition that fails is reported. -/
theorem failed {ok : Prop} [Decidable ok] {problem : ε} (h : ¬ok) :
    Reports (.error problem : Except ε α) (reportUnless ok problem) := by
  rw [reportUnless, if_neg h]
  exact rfl

/-- A condition that is tested reports its problem. -/
theorem test {ok : Prop} [Decidable ok] {problem : ε} (h : ok → Reports result problems) :
    Reports (if ok then result else .error problem) (reportUnless ok problem ++ problems) := by
  unfold reportUnless
  split
  next hok => exact h hok
  next => exact rfl

/-- A condition that is refused reports its problem. -/
theorem refuse {bad ok : Prop} [Decidable bad] [Decidable ok] {problem : ε} (hbad : bad ↔ ¬ok)
    (h : ok → Reports result problems) :
    Reports (if bad then .error problem else result) (reportUnless ok problem ++ problems) := by
  have hswap :
      (if bad then .error problem else result) = if ok then result else .error problem := by
    by_cases hok : ok <;> simp [hbad, hok]
  rw [hswap]
  exact test h

/-- Problems are reported in the place that an error is given. -/
theorem mapError {f : ε → δ} (h : Reports result problems) :
    Reports (result.mapError f) (problems.map f) := by
  cases result with
  | ok a =>
    obtain rfl : problems = [] := h
    exact rfl
  | error problem =>
    have hfirst : problems.head? = some problem := h
    change (problems.map f).head? = some (f problem)
    rw [List.head?_map, hfirst, Option.map_some]

end Reports

namespace Scopes

variable {scopes : Scopes}

theorem isPending_announce (name other : String) :
    (scopes.announce name).isPending other ↔
      scopes.isPending other ∨ (other = name ∧ other ∉ scopes.inner.names) := by
  unfold announce isPending
  split
  next hname =>
    have hdeclared : ¬(other = name ∧ other ∉ scopes.inner.names) := by
      rintro ⟨rfl, hother⟩
      exact hother (Std.TreeMap.mem_iff_contains.mpr hname)
    simp [hdeclared]
  next hname =>
    have hnew :
        name ∉ scopes.inner.names := fun hmem => hname (Std.TreeMap.mem_iff_contains.mp hmem)
    simp only [Std.TreeSet.contains_insert, Bool.or_eq_true]
    grind

/-- Declaring a name leaves every other name as pending as it was. -/
theorem isPending_extend (name other : String) :
    ((scopes.extend name).isPending other → scopes.isPending other) ∧
      (scopes.isPending other → (scopes.extend name).isPending other ∨ other = name) := by
  unfold extend grow isPending
  simp only [Std.TreeSet.contains_erase, Bool.or_eq_true, Bool.and_eq_true]
  grind

/-- A name that was announced for its declaration only is not pending after it. -/
theorem isPending_of_extend_announce {name other : String}
    (h : ((scopes.announce name).extend name).isPending other) : scopes.isPending other := by
  by_cases hname : other = name
  · subst hname
    have houter : (scopes.announce other).outer = scopes.outer := (inside_announce other).outer_eq
    simp only [extend, grow, isPending, Std.TreeSet.contains_erase, houter, Bool.or_eq_true,
      Bool.and_eq_true] at h
    rcases h with ⟨hne, -⟩ | hpending
    · simp at hne
    · simp [isPending, hpending]
  · rcases (isPending_announce name other).mp
      ((isPending_extend name other).1 h) with hpending | ⟨heq, -⟩
    · exact hpending
    · exact absurd heq hname

/-- A name is visible when one of the open scopes has declared it. -/
theorem isSome_find? {name : String} :
    (scopes.find? name).isSome ↔
      name ∈ scopes.inner.names ∨ ∃ scope ∈ scopes.outer, name ∈ scope.names := by
  simp [find?, Option.isSome_or]

end Scopes

/-- What announcing the declarations of a scope does: every name that is not declared
yet becomes pending. -/
theorem Visible.announceAll_pending (v : Visible) (statements : List Stmt) :
    (v.announceAll statements).scopes.inner.names = v.scopes.inner.names ∧
      (v.announceAll statements).scopes.next = v.scopes.next ∧
      (v.announceAll statements).reached = v.reached ∧
      ∀ name, (v.announceAll statements).scopes.isPending name ↔
        v.scopes.isPending name ∨
        (name ∈ declaredNames statements ∧ name ∉ v.scopes.inner.names) := by
  induction statements generalizing v with
  | nil => simp [Visible.announceAll, declaredNames]
  | cons stmt rest ih =>
    rw [declaredNames_cons]
    cases hdeclared : stmt.declared? with
    | none =>
      have hsame : v.announceAll (stmt :: rest) = v.announceAll rest := by
        simp [Visible.announceAll, hdeclared]
      rw [hsame]
      simpa using ih v
    | some first =>
      have hsame : v.announceAll (stmt :: rest) = (v.announce first).announceAll rest := by
        simp [Visible.announceAll, hdeclared]
      obtain ⟨hnames, hnext, hreached, hpending⟩ := ih (v.announce first)
      rw [hsame]
      refine ⟨hnames.trans (Scopes.names_announce ..), hnext.trans (Scopes.next_announce ..),
        hreached, fun name => ?_⟩
      rw [hpending, Visible.announce, Scopes.isPending_announce, Scopes.names_announce,
        Option.toList_some, List.singleton_append, List.mem_cons]
      grind

/-- Whether a context says what a view of the scopes says, given the tables. -/
structure Visible.Shows (s : Signatures) (v : Visible) (c : Context) : Prop where
  inner : ∀ name, name ∈ v.scopes.inner.names ↔ name ∈ c.inner
  outer : ∀ name, (∃ scope ∈ v.scopes.outer, name ∈ scope.names) ↔ name ∈ c.outer
  announced : ∀ name, v.scopes.isPending name → name ∈ c.announced
  /-- A name is pending until it is declared. -/
  pending : ∀ name ∈ c.announced, v.scopes.isPending name ∨ name ∈ c.inner ∨ name ∈ c.outer
  completed : ∀ name, (∃ id, s.globals[name]? = some id ∧ id < v.reached) ↔ name ∈ c.completed
  next : v.scopes.next = c.slots

namespace Visible.Shows

variable {s : Signatures} {v v' : Visible} {c : Context}

/-- The peak does not show. -/
theorem rises (h : v.Shows s c) (hrises : v.Rises v') : v'.Shows s c := by
  rw [hrises.eq]
  exact ⟨h.inner, h.outer, h.announced, h.pending, h.completed, h.next⟩

theorem enter (h : v.Shows s c) : v.enter.Shows s c.enter := by
  have hsame : ∀ name, v.enter.scopes.isPending name = v.scopes.isPending name := by
    intro name
    simp [Visible.enter, Scopes.enter, Scopes.isPending]
  refine ⟨by simp [Visible.enter, Scopes.enter, Context.enter], fun name => ?_,
    fun name hname => ?_,
    fun name hname => ?_, h.completed, h.next⟩
  · simp only [Visible.enter, Scopes.enter, Context.enter, List.mem_cons, exists_eq_or_imp,
      List.mem_append, h.inner name, h.outer name]
  · exact h.announced name (hsame name ▸ hname)
  · rw [hsame name]
    simpa [Context.enter] using h.pending name hname

/-- Names are announced when they become pending, unless the innermost scope has
declared them already. -/
theorem announceNames (h : v.Shows s c) {names : List String} (hinside : v.scopes.Inside v'.scopes)
    (hnames : v'.scopes.inner.names = v.scopes.inner.names) (hnext : v'.scopes.next = v.scopes.next)
    (hreached : v'.reached = v.reached)
    (hpending : ∀ name, v'.scopes.isPending name ↔
      v.scopes.isPending name ∨ (name ∈ names ∧ name ∉ v.scopes.inner.names)) :
    v'.Shows s (c.announce names) := by
  refine ⟨by rw [hnames]; exact h.inner, by rw [hinside.outer_eq]; exact h.outer,
    fun name hname => ?_,
    fun name hname => ?_, by rw [hreached]; exact h.completed, hnext.trans h.next⟩
  · rcases (hpending name).mp hname with hname | ⟨hname, -⟩
    · exact List.mem_append_right _ (h.announced name hname)
    · exact List.mem_append_left _ hname
  · rw [hpending, h.inner]
    rcases List.mem_append.mp hname with hnew | hname
    · by_cases hmem : name ∈ c.inner
      · exact .inr (.inl hmem)
      · exact .inl (.inr ⟨hnew, hmem⟩)
    · exact (h.pending name hname).imp_left .inl

theorem announce (h : v.Shows s c) (name : String) :
    (v.announce name).Shows s (c.announce [name]) :=
  h.announceNames (Scopes.inside_announce name) (Scopes.names_announce ..)
    (Scopes.next_announce ..) rfl
    fun other => by simpa [Visible.announce] using Scopes.isPending_announce name other

theorem announceAll (h : v.Shows s c) (statements : List Stmt) :
    (v.announceAll statements).Shows s (c.announce (declaredNames statements)) := by
  obtain ⟨hnames, hnext, hreached, hpending⟩ := announceAll_pending v statements
  exact h.announceNames (proceeds_announceAll statements).inside hnames hnext hreached hpending

theorem grow (h : v.Shows s c) :
    Shows s { v with scopes := v.scopes.grow } { c with slots := c.slots + 1 } :=
  ⟨h.inner, h.outer, h.announced, h.pending, h.completed, congrArg (· + 1) h.next⟩

/-- Declaring a name makes it visible and takes a slot. -/
theorem extend (h : v.Shows s c) (name : String) :
    Shows s { v with scopes := v.scopes.extend name } (c.declare name) := by
  refine ⟨fun other => ?_, h.outer, fun other hother => ?_, fun other hother => ?_, h.completed, ?_⟩
  · simp only [Scopes.extend, Std.TreeMap.mem_insert, h.inner, Context.declare, List.mem_cons]
    grind
  · exact h.announced other ((Scopes.isPending_extend name other).1 hother)
  · rcases h.pending other hother with hpending | hinner | houter
    · rcases (Scopes.isPending_extend name other).2 hpending with hpending | rfl
      · exact .inl hpending
      · exact .inr (.inl List.mem_cons_self)
    · exact .inr (.inl (List.mem_cons_of_mem _ hinner))
    · exact .inr (.inr houter)
  · simp [Scopes.extend, Scopes.grow, Context.declare, h.next]

/-- A declaration announces its name until it is complete. -/
theorem declare (h : v.Shows s c) (name : String) :
    Shows s { v with scopes := (v.scopes.announce name).extend name } (c.declare name) := by
  have hextended := (h.announce name).extend name
  exact ⟨hextended.inner, hextended.outer,
    fun other hother => h.announced other (Scopes.isPending_of_extend_announce hother),
    fun other hother => hextended.pending other (List.mem_cons_of_mem _ hother),
    hextended.completed, hextended.next⟩

/-- The scope of a loop over an array takes two slots and then declares its name. -/
theorem forHeader (h : v.Shows s c) (name : String) :
    (v.forHeader name).Shows s (c.forHeader name) := by
  exact h.enter.grow.grow.extend name

end Visible.Shows

section Trees

variable {s : Signatures} {p : Program} {v : Visible} {c : Context}

/-- A variable is bound where its name means something. -/
theorem place_reports (hglobals : s.HasGlobals p.globalNames) (h : v.Shows s c) (name : String) :
    Reports (v.place s name)
      (reportUnless (c.Means p.globalNames name) (.undefinedVariable name)) := by
  have hvisible : (v.scopes.find? name).isSome ↔ name ∈ c.inner ∨ name ∈ c.outer := by
    rw [Scopes.isSome_find?, h.inner, h.outer]
  have hscript : name ∈ p.globalNames ↔ ∃ id, s.globals[name]? = some id := by
    rw [List.mem_iff_getElem?]
    exact exists_congr fun id => (hglobals.id_iff name id).symm
  unfold Visible.place
  split
  next slot hfind =>
    have hmem := hvisible.mp (by rw [hfind]; rfl)
    exact .held (hmem.elim .inl fun houter => .inr (.inl houter))
  next hfind =>
    have hhidden : ¬(name ∈ c.inner ∨ name ∈ c.outer) := fun hmem => by
      have := hvisible.mpr hmem
      simp [hfind] at this
    split
    next id hid =>
      have hmem := hscript.mpr ⟨id, hid⟩
      split
      next hreached => exact .held (.inr (.inr (.inl ((h.completed name).mp ⟨id, hid, hreached⟩))))
      next hreached =>
        refine .failed ?_
        rintro (hinner | houter | hcompleted | ⟨hother, -⟩)
        · exact hhidden (.inl hinner)
        · exact hhidden (.inr houter)
        · obtain ⟨id', hid', hlt⟩ := (h.completed name).mpr hcompleted
          obtain rfl : id = id' := Option.some.inj (hid.symm.trans hid')
          exact hreached hlt
        · exact hother hmem
    next hnone =>
      have hnot : name ∉ p.globalNames := fun hmem => by
        obtain ⟨id, hid⟩ := hscript.mp hmem
        simp [hnone] at hid
      split
      next hpending =>
        refine .failed ?_
        rintro (hinner | houter | hcompleted | ⟨-, hfree⟩)
        · exact hhidden (.inl hinner)
        · exact hhidden (.inr houter)
        · obtain ⟨id, hid, -⟩ := (h.completed name).mpr hcompleted
          simp [hnone] at hid
        · exact hfree (h.announced name hpending)
      next hpending =>
        exact .held
          (.inr (.inr (.inr ⟨hnot, fun hmem => (h.pending name hmem).elim hpending hhidden⟩)))

theorem checkCount_reports (items : List Expr) :
    Reports (checkCount items) (countProblem items) := by
  unfold checkCount countProblem
  split
  next hlong => exact .failed (Nat.not_le.mpr hlong)
  next hfits => exact .held (Nat.not_lt.mp hfits)

/-- A function is found in the table when the program has one of that name. -/
theorem arityProblem_eq (hfunctions : s.HasFunctions p.functions) (name : String)
    (args : List Expr) :
    arityProblem p.functions name args =
      match s.functions[name]? with
      | some signature =>
        reportUnless (signature.arity = args.length)
          (.arityMismatch name signature.arity args.length)
      | none => [] := by
  unfold arityProblem
  cases hfind : p.functions.find? (·.name == name) with
  | some f =>
    obtain ⟨k, hk, rfl⟩ := List.mem_iff_getElem.mp (List.mem_of_find?_eq_some hfind)
    have hname : p.functions[k].name = name := by simpa using List.find?_some hfind
    have hsignature := (hfunctions name ⟨k, p.functions[k].params.length⟩).mpr
      ⟨_, by simp [hk], hname, rfl⟩
    rw [hsignature]
  | none =>
    cases hsignature : s.functions[name]? with
    | none => rfl
    | some signature =>
      obtain ⟨f, hf, hname, -⟩ := (hfunctions name signature).mp hsignature
      have := List.find?_eq_none.mp hfind f (List.mem_of_getElem? hf)
      simp [hname] at this

theorem bindExprs_cons_eq (bound : List Bound.Expr) (x : Expr) (xs : List Expr) :
    bindExprs s v bound (x :: xs) = bindExpr s v x >>= fun b => bindExprs s v (b :: bound) xs := by
  rw [bindExprs]
  cases bindExpr s v x <;> rfl

mutual

/-- Binding an expression reports its first problem. -/
theorem bindExpr_reports (hfunctions : s.HasFunctions p.functions)
    (hglobals : s.HasGlobals p.globalNames) (h : v.Shows s c) :
    (x : Expr) → Reports (bindExpr s v x) (x.problems p.functions p.globalNames c)
  | .var name => by
    rw [bindExpr, Expr.problems]
    exact (place_reports hglobals h name).map
  | .number value => by
    rw [bindExpr]
    exact Reports.ok _
  | .string value => by
    rw [bindExpr]
    exact Reports.ok _
  | .array items => by
    rw [bindExpr, Expr.problems]
    exact (checkCount_reports items).bind
      fun _ _ => (bindExprs_reports hfunctions hglobals h [] items).map
  | .index base position => by
    rw [bindExpr, Expr.problems]
    exact (bindExpr_reports hfunctions hglobals h base).bind fun _ _ =>
      (bindExpr_reports hfunctions hglobals h position).map
  | .call function args => by
    have hargs := bindExprs_reports hfunctions hglobals h [] args
    rw [bindExpr, Expr.problems, arityProblem_eq hfunctions, List.append_assoc]
    cases s.functions[function]? with
    | some signature =>
      exact Reports.test fun _ => (checkCount_reports args).bind fun _ _ => hargs.map
    | none => exact (checkCount_reports args).bind fun _ _ => hargs.map
  | .method object name args => by
    rw [bindExpr, Expr.problems, List.append_assoc]
    exact (bindExpr_reports hfunctions hglobals h object).bind fun _ _ =>
      (checkCount_reports args).bind fun _ _ =>
        (bindExprs_reports hfunctions hglobals h [] args).map
  | .unary op operand => by
    rw [bindExpr, Expr.problems]
    exact (bindExpr_reports hfunctions hglobals h operand).map
  | .binary op lhs rhs => by
    rw [bindExpr, Expr.problems]
    refine (bindExpr_reports hfunctions hglobals h lhs).bind fun _ _ => ?_
    cases op.connective? <;> exact (bindExpr_reports hfunctions hglobals h rhs).map
termination_by structural x => x

/-- Binding expressions reports their first problem. -/
theorem bindExprs_reports (hfunctions : s.HasFunctions p.functions)
    (hglobals : s.HasGlobals p.globalNames) (h : v.Shows s c) (bound : List Bound.Expr) :
    (xs : List Expr) → Reports (bindExprs s v bound xs)
      (Expr.problemsOf p.functions p.globalNames c xs)
  | [] => by
    rw [bindExprs]
    exact Reports.ok _
  | x :: xs => by
    rw [bindExprs_cons_eq, Expr.problemsOf]
    exact (bindExpr_reports hfunctions hglobals h x).bind fun b _ =>
      bindExprs_reports hfunctions hglobals h (b :: bound) xs
termination_by structural xs => xs

end

/-- Binding the left side of an assignment reports its first problem, if it can be assigned to. -/
theorem bindTarget_reports (hfunctions : s.HasFunctions p.functions)
    (hglobals : s.HasGlobals p.globalNames) (h : v.Shows s c) :
    (x : Expr) → x.isAssignable → Reports (bindTarget s v x)
      (x.problems p.functions p.globalNames c)
  | .var name, _ => by
    rw [bindTarget, Expr.problems]
    exact (place_reports hglobals h name).map
  | .index base position, hassigns => by
    rw [bindTarget, Expr.problems]
    exact (bindTarget_reports hfunctions hglobals h base hassigns).bind fun _ _ =>
      (bindExpr_reports hfunctions hglobals h position).map

theorem bindInitial_reports (hfunctions : s.HasFunctions p.functions)
    (hglobals : s.HasGlobals p.globalNames) (h : v.Shows s c) (initial : Option Expr) :
    Reports (bindInitial s v initial) (initialProblems p.functions p.globalNames c initial) := by
  cases initial with
  | none => exact Reports.ok _
  | some value => exact bindExpr_reports hfunctions hglobals h value

/-- Declaring a name reports that it is declared already, or that there is no slot for it. -/
theorem declare_reports (h : v.Shows s c) (name : String) (duplicate : CompileFault) :
    Reports (v.declare name duplicate)
      (reportUnless (name ∉ c.inner) duplicate ++ slotProblem (c.slots + 1)) := by
  have hname : v.scopes.inner.names.contains name ↔ name ∈ c.inner := by
    rw [← h.inner name, Std.TreeMap.mem_iff_contains]
  unfold Visible.declare Scopes.declare Scopes.allocate slotProblem
  by_cases hmem : name ∈ c.inner
  · rw [if_pos (hname.mpr hmem), reportUnless, if_neg (not_not_intro hmem)]
    exact rfl
  · rw [if_neg (hname.not.mpr hmem), reportUnless, if_pos hmem, h.next]
    by_cases hroom : c.slots < countLimit
    · rw [if_pos hroom]
      exact Reports.held (Nat.succ_le_of_lt hroom)
    · rw [if_neg hroom]
      exact Reports.failed fun hle => hroom (Nat.lt_of_succ_le hle)

theorem allocate_reports (h : v.Shows s c) : Reports v.allocate (slotProblem (c.slots + 1)) := by
  unfold Visible.allocate Scopes.allocate slotProblem
  rw [h.next]
  by_cases hroom : c.slots < countLimit
  · rw [if_pos hroom]
    exact Reports.held (Nat.succ_le_of_lt hroom)
  · rw [if_neg hroom]
    exact Reports.failed fun hle => hroom (Nat.lt_of_succ_le hle)

/-- Of slots that are taken one by one the last one tells whether there are enough. -/
theorem head?_slotProblem (n : Nat) (problems : List CompileFault) :
    (slotProblem (n + 1) ++ (slotProblem (n + 2) ++ (slotProblem (n + 3) ++ problems))).head? =
      (slotProblem (n + 3) ++ problems).head? := by
  unfold slotProblem reportUnless
  grind

/-- A declaration of a local reports the first problem of its value, and then its own. -/
theorem bindDeclaration_reports {around : Surroundings}
    (hfunctions : around.signatures.HasFunctions p.functions)
    (hglobals : around.signatures.HasGlobals p.globalNames) (h : v.Shows around.signatures c)
    {name : String} (hlocal : around.global? v name = none) (initial : Option Expr) :
    Reports (bindDeclaration around v name initial)
      (initialProblems p.functions p.globalNames (c.announce [name]) initial ++
        reportUnless (name ∉ c.inner)
          (.duplicateDeclaration name) ++ slotProblem (c.slots + 1)) := by
  rw [bindDeclaration, hlocal, List.append_assoc]
  have hannounced := h.announce name
  exact (bindInitial_reports hfunctions hglobals hannounced initial).bind fun _ _ =>
    (declare_reports hannounced name _).map

end Trees

section Statements

variable {p : Program} {around : Surroundings} {v : Visible} {c : Context}

theorem bindStmts_cons_eq (inLoop : Bool) (bound : List Bound.Stmt) (stmt : Stmt)
    (rest : List Stmt) :
    bindStmts around inLoop bound v (stmt :: rest) =
      bindStmt around inLoop v stmt >>= fun (b, v) =>
        bindStmts around inLoop (b :: bound) v rest := by
  rw [bindStmts]
  cases bindStmt around inLoop v stmt <;> rfl

/-- After a statement that is not for a script global, scopes and context still say the same. -/
theorem Visible.Shows.after {v' : Visible} {inLoop : Bool} {stmt : Stmt} {b : Bound.Stmt}
    (h : v.Shows around.signatures c)
    (hlocal : ∀ name ∈ stmt.declared?, around.global? v name = none)
    (hbind : bindStmt around inLoop v stmt = .ok (b, v')) :
    v'.Shows around.signatures (c.after stmt) := by
  refine Visible.Shows.rises ?_ (bindStmt_rises hbind)
  unfold Visible.after Context.after
  cases hdeclared : stmt.declared? with
  | none => exact h
  | some name =>
    dsimp only
    rw [hlocal name hdeclared]
    exact h.declare name

mutual

/-- Binding a statement reports its first problem. -/
theorem bindStmt_reports (hfunctions : around.signatures.HasFunctions p.functions)
    (hglobals : around.signatures.HasGlobals p.globalNames) (inLoop : Bool) (v : Visible)
    (c : Context) (h : v.Shows around.signatures c) :
    (stmt : Stmt) → (∀ name ∈ stmt.declared?, around.global? v name = none) →
      Reports (bindStmt around inLoop v stmt) (stmt.problems p.functions p.globalNames inLoop c)
  | .assign target value, _ => by
    rw [bindStmt, Stmt.problems, List.append_assoc]
    exact Reports.test fun hassigns =>
      (bindExpr_reports hfunctions hglobals h value).bind fun _ _ =>
      (bindTarget_reports hfunctions hglobals h target hassigns).map
  | .returnVoid, _ => by
    rw [bindStmt]
    exact Reports.ok _
  | .returnValue value, _ => by
    rw [bindStmt, Stmt.problems]
    exact (bindExpr_reports hfunctions hglobals h value).map
  | .discard value, _ => by
    rw [bindStmt, Stmt.problems]
    exact (bindExpr_reports hfunctions hglobals h value).map
  | .whileLoop condition body, _ => by
    rw [bindStmt, Stmt.problems]
    exact (bindExpr_reports hfunctions hglobals h condition).bind fun _ _ =>
      (bindStmt_reports hfunctions hglobals true v.enter c.enter h.enter body
        fun name _ => global?_enter around v name).map
  | .forLoop name source body, _ => by
    rw [bindStmt, Stmt.problems, List.append_assoc]
    have harray := allocate_reports h.enter
    have hcursor := allocate_reports h.enter.grow
    have hitem := declare_reports h.enter.grow.grow name (.duplicateDeclaration name)
    refine (bindExpr_reports hfunctions hglobals h source).bind fun _ _ =>
      Reports.congr (harray.bind fun _ hfirst => ?_) (head?_slotProblem c.slots _)
    obtain ⟨-, rfl⟩ := Visible.allocate_eq_ok_iff.mp hfirst
    refine hcursor.bind fun _ hsecond => ?_
    obtain ⟨-, rfl⟩ := Visible.allocate_eq_ok_iff.mp hsecond
    refine hitem.bind fun _ hthird => ?_
    obtain ⟨-, -, rfl⟩ := Visible.declare_eq_ok_iff.mp hthird
    exact (bindStmt_reports hfunctions hglobals true (v.forHeader name).enter _
        (h.forHeader name).enter body
      fun other _ => global?_enter around _ other).map
  | .ifThen condition body, _ => by
    rw [bindStmt, Stmt.problems]
    exact (bindExpr_reports hfunctions hglobals h condition).bind fun _ _ =>
      (bindStmt_reports hfunctions hglobals inLoop v.enter c.enter h.enter body
        fun name _ => global?_enter around v name).map
  | .ifElse condition body otherwise, _ => by
    rw [bindStmt, Stmt.problems, List.append_assoc]
    refine (bindExpr_reports hfunctions hglobals h condition).bind fun _ _ =>
      (bindStmt_reports hfunctions hglobals inLoop v.enter c.enter h.enter body
        fun name _ => global?_enter around v name).bind fun (b, v') hbody => ?_
    have hleft := h.rises (bindStmt_proceeds around inLoop v.enter v' body b hbody).rises_leave
    exact (bindStmt_reports hfunctions hglobals inLoop v'.leave.enter c.enter hleft.enter otherwise
      fun name _ => global?_enter around v'.leave name).map
  | .declare name initial, hlocal => by
    rw [bindStmt, Stmt.problems]
    exact bindDeclaration_reports hfunctions hglobals h (hlocal name rfl) initial
  | .block statements, _ => by
    rw [bindStmt, Stmt.problems]
    exact (bindStmts_reports hfunctions hglobals inLoop [] _ _ (h.enter.announceAll statements)
        statements (global?_block around v statements)).map
  | .breakLoop, _ => by
    rw [bindStmt, Stmt.problems, ← List.append_nil (reportUnless _ _)]
    exact Reports.test fun _ => Reports.ok _
  | .continueLoop, _ => by
    rw [bindStmt, Stmt.problems, ← List.append_nil (reportUnless _ _)]
    exact Reports.test fun _ => Reports.ok _
termination_by structural stmt => stmt

/-- Binding the statements of one scope reports their first problem. -/
theorem bindStmts_reports (hfunctions : around.signatures.HasFunctions p.functions)
    (hglobals : around.signatures.HasGlobals p.globalNames) (inLoop : Bool)
    (bound : List Bound.Stmt) (v : Visible) (c : Context) (h : v.Shows around.signatures c) :
    (statements : List Stmt) → (∀ name, around.global? v name = none) →
      Reports (bindStmts around inLoop bound v statements)
        (Stmt.problemsOf p.functions p.globalNames inLoop c statements)
  | [], _ => by
    rw [bindStmts]
    exact Reports.ok _
  | stmt :: rest, hlocal => by
    rw [bindStmts_cons_eq, Stmt.problemsOf]
    refine (bindStmt_reports hfunctions hglobals inLoop v c h stmt fun name _ => hlocal name).bind
      fun (b, v') hstmt => ?_
    have hshows := h.after (fun name _ => hlocal name) hstmt
    have hproceeds := bindStmt_proceeds around inLoop v v' stmt b hstmt
    exact bindStmts_reports hfunctions hglobals inLoop (b :: bound) v' (c.after stmt) hshows rest
      fun name => (global?_proceeds hproceeds name).trans (hlocal name)
termination_by structural statements => statements

end

end Statements

end HostScript
