import HostScript.Proofs.Compile.Resolution

/-!
# Names of locals do not matter

A function may call its locals what it likes. When all variables, declarations and loop variables of
a function are renamed, in a way that keeps different names different and leaves the names of script
globals and of the host alone, binding gives the same places and so the unit is the same.
-/

namespace HostScript

section Renaming

mutual

/-- The expression with its variables renamed. Names of functions and methods stay. -/
def Expr.rename (ρ : String → String) : Expr → Expr
  | .var name => .var (ρ name)
  | .number value => .number value
  | .string value => .string value
  | .array items => .array (Expr.renameAll ρ items)
  | .index base position => .index (base.rename ρ) (position.rename ρ)
  | .call function args => .call function (Expr.renameAll ρ args)
  | .method object name args => .method (object.rename ρ) name (Expr.renameAll ρ args)
  | .unary op operand => .unary op (operand.rename ρ)
  | .binary op lhs rhs => .binary op (lhs.rename ρ) (rhs.rename ρ)
termination_by structural expr => expr

/-- The expressions with their variables renamed. -/
def Expr.renameAll (ρ : String → String) : List Expr → List Expr
  | [] => []
  | expr :: rest => expr.rename ρ :: Expr.renameAll ρ rest
termination_by structural exprs => exprs

end

mutual

/-- The statement with its variables, declarations and loop variables renamed. -/
def Stmt.rename (ρ : String → String) : Stmt → Stmt
  | .assign target value => .assign (target.rename ρ) (value.rename ρ)
  | .returnVoid => .returnVoid
  | .returnValue value => .returnValue (value.rename ρ)
  | .whileLoop condition body => .whileLoop (condition.rename ρ) (body.rename ρ)
  | .forLoop name source body => .forLoop (ρ name) (source.rename ρ) (body.rename ρ)
  | .ifThen condition body => .ifThen (condition.rename ρ) (body.rename ρ)
  | .ifElse condition body otherwise =>
    .ifElse (condition.rename ρ) (body.rename ρ) (otherwise.rename ρ)
  | .discard value => .discard (value.rename ρ)
  | .declare name initial => .declare (ρ name) (initial.map (·.rename ρ))
  | .block statements => .block (Stmt.renameAll ρ statements)
  | .breakLoop => .breakLoop
  | .continueLoop => .continueLoop
termination_by structural stmt => stmt

/-- The statements with their variables, declarations and loop variables renamed. -/
def Stmt.renameAll (ρ : String → String) : List Stmt → List Stmt
  | [] => []
  | stmt :: rest => stmt.rename ρ :: Stmt.renameAll ρ rest
termination_by structural statements => statements

end

/-- The function with its parameters and all variables of its body renamed. -/
def FunctionDecl.rename (ρ : String → String) (f : FunctionDecl) : FunctionDecl where
  name := f.name
  params := f.params.map ρ
  body := f.body.rename ρ

/-- The program with one function renamed, which is given by its number. -/
def Program.renameIn (p : Program) (id : Nat) (ρ : String → String) : Program where
  functions := p.functions.modify id (·.rename ρ)
  statements := p.statements

/-- The map that gives one name another and leaves the others alone. -/
def replaceName (old new name : String) : String :=
  if name = old then new else name

mutual

/-- The names of variables, declarations and loop variables in a statement. -/
def Stmt.names : Stmt → List String
  | .assign target value => value.variables ++ target.variables
  | .returnVoid | .breakLoop | .continueLoop => []
  | .returnValue value | .discard value => value.variables
  | .whileLoop condition body | .ifThen condition body => condition.variables ++ body.names
  | .forLoop name source body => name :: (source.variables ++ body.names)
  | .ifElse condition body otherwise => condition.variables ++ (body.names ++ otherwise.names)
  | .declare name initial => name :: initialVariables initial
  | .block statements => Stmt.namesOf statements
termination_by structural stmt => stmt

/-- The names of variables, declarations and loop variables in statements. -/
def Stmt.namesOf : List Stmt → List String
  | [] => []
  | stmt :: rest => stmt.names ++ Stmt.namesOf rest
termination_by structural statements => statements

end

/-- The names of parameters, variables, declarations and loop variables in a function. -/
def FunctionDecl.names (f : FunctionDecl) : List String :=
  f.params ++ f.body.names

end Renaming

section Shape

variable {ρ : String → String}

theorem Expr.length_renameAll (items : List Expr) :
    (Expr.renameAll ρ items).length = items.length := by
  induction items with
  | nil => rfl
  | cons item rest ih => exact congrArg (· + 1) ih

theorem Expr.isAssignable_rename : (x : Expr) → (x.rename ρ).isAssignable = x.isAssignable
  | .var _ | .number _ | .string _ | .array _ | .call .. | .method .. | .unary .. | .binary .. =>
    rfl
  | .index base _ => Expr.isAssignable_rename base

theorem Stmt.declared?_rename (stmt : Stmt) : (stmt.rename ρ).declared? = stmt.declared?.map ρ := by
  cases stmt <;> rfl

/-- What a statement declares is one of its names. -/
theorem Stmt.mem_names_of_declared? {stmt : Stmt} {name : String} (h : stmt.declared? = some name) :
    name ∈ stmt.names := by
  obtain ⟨initial, rfl⟩ := Stmt.eq_declare h
  exact List.mem_cons_self

end Shape

/-- Whether a scope is another one under new names, as far as some names go. -/
structure Scope.Renames (ρ : String → String) (names : List String)
    (scope renamed : Scope) : Prop where
  slot : ∀ name ∈ names, renamed.names[ρ name]? = scope.names[name]?
  pending : ∀ name ∈ names, ρ name ∈ renamed.pending ↔ name ∈ scope.pending
  base : renamed.base = scope.base

/-- Whether what can be seen is the same under new names. -/
structure Visible.Renames (ρ : String → String) (names : List String)
    (v renamed : Visible) : Prop where
  inner : v.scopes.inner.Renames ρ names renamed.scopes.inner
  outer : List.Forall₂ (Scope.Renames ρ names) v.scopes.outer renamed.scopes.outer
  next : renamed.scopes.next = v.scopes.next
  peak : renamed.scopes.peak = v.scopes.peak
  reached : renamed.reached = v.reached

/-- Whether new names are different for different names, and the old ones for script globals. -/
structure Signatures.Allows (s : Signatures) (ρ : String → String)
    (names : List String) : Prop where
  injective : ∀ a ∈ names, ∀ b ∈ names, ρ a = ρ b → a = b
  script : ∀ name ∈ names, name ∈ s.globals → ρ name = name

namespace Visible.Renames

variable {s : Signatures} {ρ : String → String} {names : List String} {v v' : Visible}
  {name : String}

theorem mem_names (h : v.Renames ρ names v') (hname : name ∈ names) :
    ρ name ∈ v'.scopes.inner.names ↔ name ∈ v.scopes.inner.names := by
  rw [Std.TreeMap.mem_iff_isSome_getElem?, Std.TreeMap.mem_iff_isSome_getElem?,
    h.inner.slot name hname]

theorem find?_eq (h : v.Renames ρ names v') (hname : name ∈ names) :
    v'.scopes.find? (ρ name) = v.scopes.find? name := by
  have houter :
      ∀ {scopes renamed : List Scope}, List.Forall₂ (Scope.Renames ρ names) scopes renamed →
      (renamed.findSome? fun scope => scope.names[ρ name]?) =
        scopes.findSome? fun scope => scope.names[name]? := by
    intro scopes renamed hscopes
    induction hscopes with
    | nil => rfl
    | cons hscope _ ih => rw [List.findSome?_cons, List.findSome?_cons, hscope.slot name hname, ih]
  rw [Scopes.find?, Scopes.find?, h.inner.slot name hname, houter h.outer]

theorem isPending_eq (h : v.Renames ρ names v') (hname : name ∈ names) :
    v'.scopes.isPending (ρ name) = v.scopes.isPending name := by
  have hsame : ∀ {scope renamed : Scope}, scope.Renames ρ names renamed →
      renamed.pending.contains (ρ name) = scope.pending.contains name := fun hscope =>
    Bool.eq_iff_iff.mpr (hscope.pending name hname)
  have houter :
      ∀ {scopes renamed : List Scope}, List.Forall₂ (Scope.Renames ρ names) scopes renamed →
      (renamed.any fun scope => scope.pending.contains (ρ name)) =
        scopes.any fun scope => scope.pending.contains name := by
    intro scopes renamed hscopes
    induction hscopes with
    | nil => rfl
    | cons hscope _ ih => rw [List.any_cons, List.any_cons, hsame hscope, ih]
  rw [Scopes.isPending, Scopes.isPending, hsame h.inner, houter h.outer]

/-- A variable has the same place under its new name, if the host does not know it
under the old one. -/
theorem place_eq (h : v.Renames ρ names v') (hallows : s.Allows ρ names) (hname : name ∈ names)
    {p : Place} (hplace : v.place s name = .ok p)
    (hhost : ∀ other, p = .host other → ρ other = other) : v'.place s (ρ name) = .ok p := by
  unfold Visible.place at hplace ⊢
  rw [h.find?_eq hname]
  cases hfind : v.scopes.find? name with
  | some slot =>
    rw [hfind] at hplace
    exact hplace
  | none =>
    rw [hfind] at hplace
    dsimp only at hplace ⊢
    cases hglobal : s.globals[name]? with
    | some id =>
      have hmem : name ∈ s.globals := by
        rw [Std.TreeMap.mem_iff_isSome_getElem?, hglobal]
        rfl
      rw [hallows.script name hname hmem, hglobal, h.reached]
      rw [hglobal] at hplace
      exact hplace
    | none =>
      rw [hglobal] at hplace
      dsimp only at hplace
      split at hplace
      · cases hplace
      next hpending =>
        obtain rfl := Except.ok.inj hplace
        have hsame := hhost name rfl
        have hnot := h.isPending_eq hname
        rw [hsame] at hnot
        rw [hsame, hglobal]
        dsimp only
        rw [hnot, if_neg hpending]

theorem enter (h : v.Renames ρ names v') : v.enter.Renames ρ names v'.enter where
  inner := ⟨fun name _ => by simp [Visible.enter, Scopes.enter],
    fun name _ => by simp [Visible.enter, Scopes.enter], h.next⟩
  outer := .cons h.inner h.outer
  next := h.next
  peak := h.peak
  reached := h.reached

theorem leave (h : v.Renames ρ names v') : v.leave.Renames ρ names v'.leave := by
  have houter := h.outer
  unfold Visible.leave Scopes.leave
  cases hscopes : v.scopes.outer with
  | nil =>
    rw [hscopes] at houter
    rw [List.forall₂_nil_left_iff.mp houter]
    exact h
  | cons scope rest =>
    rw [hscopes] at houter
    obtain ⟨renamed, rest', hscope, hrest, hscopes'⟩ := List.forall₂_cons_left_iff.mp houter
    rw [hscopes']
    exact ⟨hscope, hrest, h.inner.base, h.peak, h.reached⟩

theorem grow (h : v.Renames ρ names v') :
    Renames ρ names { v with scopes := v.scopes.grow } { v' with scopes := v'.scopes.grow } where
  inner := h.inner
  outer := h.outer
  next := congrArg (· + 1) h.next
  peak := by
    simp only [Scopes.grow, h.next, h.peak]
  reached := h.reached

/-- A name and its new name get the same slot. -/
theorem extend (h : v.Renames ρ names v') (hallows : s.Allows ρ names) (hname : name ∈ names) :
    Renames ρ names { v with scopes := v.scopes.extend name }
      { v' with scopes := v'.scopes.extend (ρ name) } where
  inner := by
    have hsame : ∀ other ∈ names, ρ name = ρ other ↔ name = other := fun other hother =>
      ⟨hallows.injective name hname other hother, congrArg ρ⟩
    refine ⟨fun other hother => ?_, fun other hother => ?_, h.inner.base⟩
    · simp only [Scopes.extend, Std.TreeMap.getElem?_insert, h.next, h.inner.slot other hother,
        Std.compare_eq_iff_eq, hsame other hother]
    · simp only [Scopes.extend, Std.TreeSet.mem_erase, Std.compare_eq_iff_eq, ne_eq,
        hsame other hother, h.inner.pending other hother]
  outer := h.outer
  next := h.grow.next
  peak := h.grow.peak
  reached := h.reached

/-- A name is announced under its new name. -/
theorem announce (h : v.Renames ρ names v') (hallows : s.Allows ρ names) (hname : name ∈ names) :
    (v.announce name).Renames ρ names (v'.announce (ρ name)) := by
  have hsame : ∀ other ∈ names, ρ name = ρ other ↔ name = other := fun other hother =>
    ⟨hallows.injective name hname other hother, congrArg ρ⟩
  have hdeclared : v'.scopes.inner.names.contains (ρ name) = v.scopes.inner.names.contains name :=
    Bool.eq_iff_iff.mpr (h.mem_names hname)
  unfold Visible.announce Scopes.announce
  rw [hdeclared]
  split
  · exact h
  · refine ⟨⟨h.inner.slot, fun other hother => ?_, h.inner.base⟩, h.outer, h.next,
      h.peak, h.reached⟩
    simp only [Std.TreeSet.mem_insert, Std.compare_eq_iff_eq, hsame other hother,
      h.inner.pending other hother]

/-- The declarations of a block are announced under their new names. -/
theorem announceAll (hallows : s.Allows ρ names) {statements : List Stmt}
    (hnames : Stmt.namesOf statements ⊆ names) (h : v.Renames ρ names v') :
    (v.announceAll statements).Renames ρ names (v'.announceAll (Stmt.renameAll ρ statements)) := by
  induction statements generalizing v v' with
  | nil => exact h
  | cons stmt rest ih =>
    obtain ⟨hstmt, hrest⟩ := List.append_subset.mp hnames
    rw [Stmt.renameAll]
    unfold Visible.announceAll
    rw [List.foldl_cons, List.foldl_cons, Stmt.declared?_rename]
    cases hdeclared : stmt.declared? with
    | none => exact ih hrest h
    | some name =>
      exact ih hrest (h.announce hallows (hstmt (Stmt.mem_names_of_declared? hdeclared)))

theorem forHeader (h : v.Renames ρ names v') (hallows : s.Allows ρ names) (hname : name ∈ names) :
    (v.forHeader name).Renames ρ names (v'.forHeader (ρ name)) :=
  h.enter.grow.grow.extend hallows hname

end Visible.Renames

section Trees

variable {s : Signatures} {ρ : String → String} {names : List String} {v v' : Visible}

mutual

/-- An expression with new names is bound to the same expression over places. -/
theorem bindExpr_rename (hallows : s.Allows ρ names) (h : v.Renames ρ names v') :
    (x : Expr) → (b : Bound.Expr) → x.variables ⊆ names →
      (∀ name, .host name ∈ b.places → ρ name = name) →
      bindExpr s v x = .ok b → bindExpr s v' (x.rename ρ) = .ok b
  | .var name, _, hnames, hhost, hbind => by
    obtain ⟨p, hp, rfl⟩ := bindExpr_var.mp hbind
    refine bindExpr_var.mpr
      ⟨p, h.place_eq hallows (hnames List.mem_cons_self) hp fun other hother => ?_, rfl⟩
    exact hhost other (List.mem_singleton.mpr hother.symm)
  | .number value, _, _, _, hbind => bindExpr_number.mpr (bindExpr_number.mp hbind)
  | .string value, _, _, _, hbind => bindExpr_string.mpr (bindExpr_string.mp hbind)
  | .array items, _, hnames, hhost, hbind => by
    obtain ⟨hcount, bs, hitems, rfl⟩ := bindExpr_array.mp hbind
    refine bindExpr_array.mpr ⟨?_, bs, bindExprs_rename hallows h items bs hnames hhost hitems, rfl⟩
    rwa [Expr.length_renameAll]
  | .index base position, _, hnames, hhost, hbind => by
    obtain ⟨b₁, b₂, hbase, hposition, rfl⟩ := bindExpr_index.mp hbind
    rw [Expr.variables_index, List.append_subset] at hnames
    exact bindExpr_index.mpr ⟨b₁, b₂,
      bindExpr_rename hallows h base b₁ hnames.1 (fun _ hp => hhost _ (List.mem_append_left _ hp))
        hbase, bindExpr_rename hallows h position b₂ hnames.2
        (fun _ hp => hhost _ (List.mem_append_right _ hp)) hposition, rfl⟩
  | .call function args, _, hnames, hhost, hbind => by
    cases hfunction : s.functions[function]? with
    | some signature =>
      obtain ⟨harity, hcount, bs, hargs, rfl⟩ := (bindExpr_call_script hfunction).mp hbind
      refine (bindExpr_call_script hfunction).mpr
        ⟨?_, ?_, bs, bindExprs_rename hallows h args bs hnames hhost hargs, rfl⟩
      · rwa [Expr.length_renameAll]
      · rwa [Expr.length_renameAll]
    | none =>
      obtain ⟨hcount, bs, hargs, rfl⟩ := (bindExpr_call_native hfunction).mp hbind
      refine (bindExpr_call_native hfunction).mpr
        ⟨?_, bs, bindExprs_rename hallows h args bs hnames hhost hargs, rfl⟩
      rwa [Expr.length_renameAll]
  | .method object name args, _, hnames, hhost, hbind => by
    obtain ⟨b₁, hobject, hcount, bs, hargs, rfl⟩ := bindExpr_method.mp hbind
    rw [Expr.variables_method, List.append_subset] at hnames
    refine bindExpr_method.mpr ⟨b₁,
      bindExpr_rename hallows h object b₁ hnames.1 (fun _ hp => hhost _ (List.mem_append_left _ hp))
        hobject, ?_, bs, bindExprs_rename hallows h args bs hnames.2
        (fun _ hp => hhost _ (List.mem_append_right _ hp)) hargs, rfl⟩
    rwa [Expr.length_renameAll]
  | .unary op operand, _, hnames, hhost, hbind => by
    obtain ⟨b₁, hoperand, rfl⟩ := bindExpr_unary.mp hbind
    exact bindExpr_unary.mpr ⟨b₁, bindExpr_rename hallows h operand b₁ hnames hhost hoperand, rfl⟩
  | .binary op lhs rhs, b, hnames, hhost, hbind => by
    obtain ⟨b₁, b₂, hlhs, hrhs, hr⟩ := bindExpr_binary.mp hbind
    have hplaces : b.places = b₁.places ++ b₂.places := by
      subst hr
      cases op.connective? <;> rfl
    rw [hplaces] at hhost
    rw [Expr.variables_binary, List.append_subset] at hnames
    exact bindExpr_binary.mpr ⟨b₁, b₂,
      bindExpr_rename hallows h lhs b₁ hnames.1 (fun _ hp => hhost _ (List.mem_append_left _ hp))
        hlhs, bindExpr_rename hallows h rhs b₂ hnames.2
        (fun _ hp => hhost _ (List.mem_append_right _ hp)) hrhs, hr⟩
termination_by structural x => x

/-- Expressions with new names are bound to the same expressions over places. -/
theorem bindExprs_rename (hallows : s.Allows ρ names) (h : v.Renames ρ names v') :
    (xs : List Expr) → (bs : List Bound.Expr) → Expr.variablesOf xs ⊆ names →
      (∀ name, .host name ∈ Bound.Expr.placesOf bs → ρ name = name) → bindExprs s v [] xs = .ok bs →
      bindExprs s v' [] (Expr.renameAll ρ xs) = .ok bs
  | [], _, _, _, hbind => bindExprs_nil.mpr (bindExprs_nil.mp hbind)
  | x :: xs, _, hnames, hhost, hbind => by
    obtain ⟨b, rest, hx, hxs, rfl⟩ := bindExprs_cons.mp hbind
    rw [Expr.variablesOf_cons, List.append_subset] at hnames
    exact bindExprs_cons.mpr ⟨b, rest,
      bindExpr_rename hallows h x b hnames.1 (fun _ hp => hhost _ (List.mem_append_left _ hp)) hx,
      bindExprs_rename hallows h xs rest hnames.2
        (fun _ hp => hhost _ (List.mem_append_right _ hp)) hxs, rfl⟩
termination_by structural xs => xs

end

/-- A target with new names is bound to the same target over places. -/
theorem bindTarget_rename (hallows : s.Allows ρ names) (h : v.Renames ρ names v') :
    (x : Expr) → (t : Bound.Target) → x.variables ⊆ names →
      (∀ name, .host name ∈ t.places → ρ name = name) →
      bindTarget s v x = .ok t → bindTarget s v' (x.rename ρ) = .ok t
  | .var name, _, hnames, hhost, hbind => by
    obtain ⟨p, hp, rfl⟩ := bindTarget_var.mp hbind
    refine bindTarget_var.mpr
      ⟨p, h.place_eq hallows (hnames List.mem_cons_self) hp fun other hother => ?_, rfl⟩
    exact hhost other (List.mem_singleton.mpr hother.symm)
  | .index base position, _, hnames, hhost, hbind => by
    obtain ⟨t, b, hbase, hposition, rfl⟩ := bindTarget_index.mp hbind
    rw [Expr.variables_index, List.append_subset] at hnames
    exact bindTarget_index.mpr ⟨t, b,
      bindTarget_rename hallows h base t hnames.1 (fun _ hp => hhost _ (List.mem_append_left _ hp))
        hbase, bindExpr_rename hallows h position b hnames.2
        (fun _ hp => hhost _ (List.mem_append_right _ hp)) hposition, rfl⟩

theorem bindInitial_rename (hallows : s.Allows ρ names) (h : v.Renames ρ names v')
    {initial : Option Expr} {b : Bound.Expr} (hnames : initialVariables initial ⊆ names)
    (hhost : ∀ name, .host name ∈ b.places → ρ name = name)
    (hbind : bindInitial s v initial = .ok b) :
    bindInitial s v' (initial.map (·.rename ρ)) = .ok b := by
  cases initial with
  | none => exact hbind
  | some value => exact bindExpr_rename hallows h value b hnames hhost hbind

end Trees

section Statements

variable {around : Surroundings} {ρ : String → String} {names : List String}

mutual

/-- A statement with new names is bound to the same statement over places, and what can be seen
after it is the same under the new names. -/
theorem bindStmt_rename (hallows : around.signatures.Allows ρ names)
    (hlocal : ∀ v name, around.global? v name = none) (inLoop : Bool) :
    (stmt : Stmt) → (v v' v₁ : Visible) → (b : Bound.Stmt) → v.Renames ρ names v' →
      stmt.names ⊆ names → (∀ name, .host name ∈ b.places → ρ name = name) →
      bindStmt around inLoop v stmt = .ok (b, v₁) →
      ∃ v₁', bindStmt around inLoop v' (stmt.rename ρ) = .ok (b, v₁') ∧ v₁.Renames ρ names v₁'
  | .assign target value, v, v', _, _, h, hnames, hhost, hbind => by
    obtain ⟨hassignable, b, t, hvalue, htarget, hr⟩ := bindStmt_assign.mp hbind
    obtain ⟨rfl, rfl⟩ := Prod.mk.inj hr
    rw [Stmt.names, List.append_subset] at hnames
    refine ⟨v', bindStmt_assign.mpr ⟨?_, b, t,
      bindExpr_rename hallows h value b hnames.1 (fun _ hp => hhost _ (List.mem_append_left _ hp))
        hvalue, bindTarget_rename hallows h target t hnames.2
        (fun _ hp => hhost _ (List.mem_append_right _ hp)) htarget, rfl⟩, h⟩
    rwa [Expr.isAssignable_rename]
  | .returnVoid, v, v', _, _, h, _, _, hbind => by
    obtain ⟨rfl, rfl⟩ := Prod.mk.inj (bindStmt_returnVoid.mp hbind)
    exact ⟨v', bindStmt_returnVoid.mpr rfl, h⟩
  | .returnValue value, v, v', _, _, h, hnames, hhost, hbind => by
    obtain ⟨b, hvalue, hr⟩ := bindStmt_returnValue.mp hbind
    obtain ⟨rfl, rfl⟩ := Prod.mk.inj hr
    exact ⟨v',
      bindStmt_returnValue.mpr ⟨b, bindExpr_rename hallows h value b hnames hhost hvalue, rfl⟩, h⟩
  | .discard value, v, v', _, _, h, hnames, hhost, hbind => by
    obtain ⟨b, hvalue, hr⟩ := bindStmt_discard.mp hbind
    obtain ⟨rfl, rfl⟩ := Prod.mk.inj hr
    exact ⟨v', bindStmt_discard.mpr ⟨b, bindExpr_rename hallows h value b hnames hhost hvalue, rfl⟩,
      h⟩
  | .whileLoop condition body, v, v', _, _, h, hnames, hhost, hbind => by
    obtain ⟨b₁, b₂, v₂, hcondition, hbody, hr⟩ := bindStmt_whileLoop.mp hbind
    obtain ⟨rfl, rfl⟩ := Prod.mk.inj hr
    rw [Stmt.names, List.append_subset] at hnames
    obtain ⟨v₂', hbody', h₂⟩ := bindStmt_rename hallows hlocal true body v.enter v'.enter v₂ b₂
      h.enter hnames.2 (fun _ hp => hhost _ (List.mem_append_right _ hp)) hbody
    exact ⟨v₂'.leave, bindStmt_whileLoop.mpr ⟨b₁, b₂, v₂',
      bindExpr_rename hallows h condition b₁ hnames.1
        (fun _ hp => hhost _ (List.mem_append_left _ hp)) hcondition, hbody', rfl⟩, h₂.leave⟩
  | .forLoop name source body, v, v', _, _, h, hnames, hhost, hbind => by
    obtain ⟨b₁, b₂, v₂, hsource, hcount, hbody, hr⟩ := bindStmt_forLoop.mp hbind
    obtain ⟨rfl, rfl⟩ := Prod.mk.inj hr
    rw [Stmt.names, List.cons_subset, List.append_subset] at hnames
    obtain ⟨hname, hsourceNames, hbodyNames⟩ := hnames
    obtain ⟨v₂', hbody', h₂⟩ := bindStmt_rename hallows hlocal true body (v.forHeader name).enter
      (v'.forHeader (ρ name)).enter v₂ b₂ (h.forHeader hallows hname).enter hbodyNames
      (fun _ hp => hhost _ (List.mem_append_right _ (List.mem_cons_of_mem _ hp))) hbody
    refine ⟨v₂'.leave.leave, bindStmt_forLoop.mpr ⟨b₁, b₂, v₂',
      bindExpr_rename hallows h source b₁ hsourceNames
        (fun _ hp => hhost _ (List.mem_append_left _ hp)) hsource, ?_, hbody', ?_⟩, h₂.leave.leave⟩
    · rwa [h.next]
    · rw [h.next]
  | .ifThen condition body, v, v', _, _, h, hnames, hhost, hbind => by
    obtain ⟨b₁, b₂, v₂, hcondition, hbody, hr⟩ := bindStmt_ifThen.mp hbind
    obtain ⟨rfl, rfl⟩ := Prod.mk.inj hr
    rw [Stmt.names, List.append_subset] at hnames
    obtain ⟨v₂', hbody', h₂⟩ := bindStmt_rename hallows hlocal inLoop body v.enter v'.enter v₂ b₂
      h.enter hnames.2 (fun _ hp => hhost _ (List.mem_append_right _ hp)) hbody
    exact ⟨v₂'.leave, bindStmt_ifThen.mpr ⟨b₁, b₂, v₂',
      bindExpr_rename hallows h condition b₁ hnames.1
        (fun _ hp => hhost _ (List.mem_append_left _ hp)) hcondition, hbody', rfl⟩, h₂.leave⟩
  | .ifElse condition body otherwise, v, v', _, _, h, hnames, hhost, hbind => by
    obtain ⟨b₁, b₂, v₂, b₃, v₃, hcondition, hbody, hotherwise, hr⟩ := bindStmt_ifElse.mp hbind
    obtain ⟨rfl, rfl⟩ := Prod.mk.inj hr
    rw [Stmt.names, List.append_subset, List.append_subset] at hnames
    obtain ⟨hconditionNames, hbodyNames, hotherwiseNames⟩ := hnames
    rw [Bound.Stmt.places] at hhost
    obtain ⟨v₂', hbody', h₂⟩ := bindStmt_rename hallows hlocal inLoop body
      v.enter v'.enter v₂ b₂ h.enter hbodyNames
      (fun _ hp => hhost _ (List.mem_append_left _ (List.mem_append_right _ hp))) hbody
    obtain ⟨v₃', hotherwise', h₃⟩ := bindStmt_rename hallows hlocal inLoop otherwise v₂.leave.enter
      v₂'.leave.enter v₃ b₃ h₂.leave.enter hotherwiseNames
      (fun _ hp => hhost _ (List.mem_append_right _ hp)) hotherwise
    exact ⟨v₃'.leave, bindStmt_ifElse.mpr ⟨b₁, b₂, v₂', b₃, v₃',
      bindExpr_rename hallows h condition b₁ hconditionNames
        (fun _ hp => hhost _ (List.mem_append_left _ (List.mem_append_left _ hp))) hcondition,
      hbody', hotherwise', rfl⟩, h₃.leave⟩
  | .declare name initial, v, v', _, _, h, hnames, hhost, hbind => by
    rw [bindStmt_declare] at hbind
    obtain ⟨b, hinitial, hnew, hcount, hr⟩ := (bindDeclaration_local (hlocal v name)).mp hbind
    obtain ⟨rfl, rfl⟩ := Prod.mk.inj hr
    rw [Stmt.names, List.cons_subset] at hnames
    obtain ⟨hname, hinitialNames⟩ := hnames
    have hannounced := h.announce hallows hname
    have hnew' : ρ name ∉ v'.scopes.inner.names := fun hmem => hnew ((h.mem_names hname).mp hmem)
    have hbind' := (bindDeclaration_local (hlocal v' (ρ name))).mpr ⟨b,
      bindInitial_rename hallows hannounced hinitialNames
        (fun _ hp => hhost _ (List.mem_append_left _ hp)) hinitial, hnew', h.next ▸ hcount, rfl⟩
    refine ⟨_, ?_, hannounced.extend hallows hname⟩
    rw [Stmt.rename, bindStmt_declare, hbind', h.next]
    rfl
  | .block statements, v, v', _, _, h, hnames, hhost, hbind => by
    obtain ⟨bs, v₂, hbody, hr⟩ := bindStmt_block.mp hbind
    obtain ⟨rfl, rfl⟩ := Prod.mk.inj hr
    obtain ⟨v₂', hbody', h₂⟩ := bindStmts_rename hallows hlocal inLoop statements _ _ v₂ bs
      (.announceAll hallows hnames h.enter) hnames hhost hbody
    exact ⟨v₂'.leave, bindStmt_block.mpr ⟨bs, v₂', hbody', rfl⟩, h₂.leave⟩
  | .breakLoop, v, v', _, _, h, _, _, hbind => by
    obtain ⟨hinLoop, hr⟩ := bindStmt_breakLoop.mp hbind
    obtain ⟨rfl, rfl⟩ := Prod.mk.inj hr
    exact ⟨v', bindStmt_breakLoop.mpr ⟨hinLoop, rfl⟩, h⟩
  | .continueLoop, v, v', _, _, h, _, _, hbind => by
    obtain ⟨hinLoop, hr⟩ := bindStmt_continueLoop.mp hbind
    obtain ⟨rfl, rfl⟩ := Prod.mk.inj hr
    exact ⟨v', bindStmt_continueLoop.mpr ⟨hinLoop, rfl⟩, h⟩
termination_by structural stmt => stmt

/-- Statements with new names are bound to the same statements over places. -/
theorem bindStmts_rename (hallows : around.signatures.Allows ρ names)
    (hlocal : ∀ v name, around.global? v name = none) (inLoop : Bool) :
    (statements : List Stmt) → (v v' v₁ : Visible) → (bs : List Bound.Stmt) → v.Renames ρ names v' →
      Stmt.namesOf statements ⊆ names →
      (∀ name, .host name ∈ Bound.Stmt.placesOf bs → ρ name = name) →
      bindStmts around inLoop [] v statements = .ok (bs, v₁) →
      ∃ v₁', bindStmts around inLoop [] v' (Stmt.renameAll ρ statements) = .ok (bs, v₁') ∧
        v₁.Renames ρ names v₁'
  | [], v, v', _, _, h, _, _, hbind => by
    obtain ⟨rfl, rfl⟩ := Prod.mk.inj (bindStmts_nil.mp hbind)
    exact ⟨v', bindStmts_nil.mpr rfl, h⟩
  | stmt :: rest, v, v', _, _, h, hnames, hhost, hbind => by
    obtain ⟨b, v₁, bs, v₂, hstmt, hrest, hr⟩ := bindStmts_cons.mp hbind
    obtain ⟨rfl, rfl⟩ := Prod.mk.inj hr
    rw [Stmt.namesOf, List.append_subset] at hnames
    obtain ⟨v₁', hstmt', h₁⟩ := bindStmt_rename hallows hlocal inLoop stmt v v' v₁ b h hnames.1
      (fun _ hp => hhost _ (List.mem_append_left _ hp)) hstmt
    obtain ⟨v₂', hrest', h₂⟩ := bindStmts_rename hallows hlocal inLoop rest v₁ v₁' v₂ bs h₁ hnames.2
      (fun _ hp => hhost _ (List.mem_append_right _ hp)) hrest
    exact ⟨v₂', bindStmts_cons.mpr ⟨b, v₁', bs, v₂', hstmt', hrest', rfl⟩, h₂⟩
termination_by structural statements => statements

end

end Statements

section Programs

variable {s : Signatures} {ρ : String → String} {names : List String} {p : Program}

theorem bindParams_rename (hallows : s.Allows ρ names) {v v' v₁ : Visible} {params : List String}
    (h : v.Renames ρ names v') (hnames : params ⊆ names) (hbind : bindParams v params = .ok v₁) :
    ∃ v₁', bindParams v' (params.map ρ) = .ok v₁' ∧ v₁.Renames ρ names v₁' := by
  induction params generalizing v v' with
  | nil =>
    obtain rfl := bindParams_nil.mp hbind
    exact ⟨v', bindParams_nil.mpr rfl, h⟩
  | cons name rest ih =>
    obtain ⟨hnew, hcount, hrest⟩ := bindParams_cons.mp hbind
    obtain ⟨hname, hrestNames⟩ := List.cons_subset.mp hnames
    obtain ⟨v₁', hrest', h₁⟩ := ih (h.extend hallows hname) hrestNames hrest
    exact ⟨v₁', bindParams_cons.mpr ⟨fun hmem => hnew ((h.mem_names hname).mp hmem),
        h.next ▸ hcount, hrest'⟩, h₁⟩

/-- A function with new names is bound to the same body. -/
theorem bindFunction_rename {f : FunctionDecl} {b : Bound.Body} (hallows : s.Allows ρ f.names)
    (hhost : ∀ name, .host name ∈ Bound.Stmt.placesOf b.statements → ρ name = name)
    (hbind : bindFunction s f = .ok b) : bindFunction s (f.rename ρ) = .ok b := by
  obtain ⟨v₁, bs, v₂, hparams, hbody, rfl⟩ := bindBody_eq_ok_iff.mp (mapError_eq_ok_iff.mp hbind)
  have hstart : Visible.Renames ρ f.names { reached := s.globalNames.size }
      { reached := s.globalNames.size } :=
    ⟨⟨fun _ _ => by simp, fun _ _ => by simp, rfl⟩, .nil, rfl, rfl, rfl⟩
  obtain ⟨v₁', hparams', h₁⟩ := bindParams_rename hallows hstart
    (List.subset_append_left _ _) hparams
  have hnames : Stmt.namesOf [f.body] ⊆ f.names := by
    rw [Stmt.namesOf, Stmt.namesOf, List.append_nil]
    exact List.subset_append_right _ _
  obtain ⟨v₂', hbody', h₂⟩ := bindStmts_rename hallows (fun _ _ => rfl) false [f.body] v₁ v₁' v₂ bs
    h₁ hnames hhost hbody
  refine mapError_eq_ok_iff.mpr (bindBody_eq_ok_iff.mpr ⟨v₁', bs, v₂', hparams', hbody', ?_⟩)
  rw [h₂.peak, FunctionDecl.rename, List.length_map]

/-- Signatures say nothing about the names inside functions. -/
theorem Signatures.addFunctions_modify (s : Signatures) (first id : Nat)
    (functions : List FunctionDecl) :
    s.addFunctions first (functions.modify id (·.rename ρ)) = s.addFunctions first functions := by
  induction functions generalizing s first id with
  | nil => rw [List.modify_nil]
  | cons f rest ih =>
    cases id with
    | zero => simp only [List.modify_zero_cons, addFunctions, FunctionDecl.rename, List.length_map]
    | succ id => simp only [List.modify_succ_cons, addFunctions, ih]

theorem Signatures.ofProgram_renameIn (p : Program) (id : Nat) :
    Signatures.ofProgram (p.renameIn id ρ) = Signatures.ofProgram p := by
  rw [Signatures.ofProgram, Program.renameIn, Signatures.addFunctions_modify]
  rfl

/-- Where one element is changed and keeps its relation to the other list, the lists stay
related. -/
theorem forall₂_modify {α β : Type} {R : α → β → Prop} {g : α → α} {as : List α} {bs : List β}
    (h : List.Forall₂ R as bs) (id : Nat)
    (hid : ∀ a b, as[id]? = some a → bs[id]? = some b → R a b → R (g a) b) :
    List.Forall₂ R (as.modify id g) bs := by
  induction h generalizing id with
  | nil =>
    rw [List.modify_nil]
    exact .nil
  | cons hab hrest ih =>
    cases id with
    | zero =>
      rw [List.modify_zero_cons]
      exact .cons (hid _ _ rfl rfl hab) hrest
    | succ id =>
      rw [List.modify_succ_cons]
      exact .cons hab (ih id hid)

/-- A program with new names in one of its functions is bound to the same program over places. -/
theorem bind_renameIn {program : Bound.Program} {id : Nat} {f : FunctionDecl} {b : Bound.Body}
    (hf : p.functions[id]? = some f) (hb : program.functions[id]? = some b)
    (hinjective : ∀ a ∈ f.names, ∀ a' ∈ f.names, ρ a = ρ a' → a = a')
    (hscript : ∀ name ∈ p.globalNames, ρ name = name)
    (hhost : ∀ name, .host name ∈ Bound.Stmt.placesOf b.statements → ρ name = name)
    (hbind : p.bind = .ok program) : (p.renameIn id ρ).bind = .ok program := by
  obtain ⟨s, top, functions, hs, htop, hfunctions, rfl⟩ := bind_program_eq_ok_iff.mp hbind
  obtain ⟨-, hglobals⟩ := Signatures.ofProgram_table hs
  have hallows : s.Allows ρ f.names := by
    refine ⟨hinjective, fun name _ hname => hscript name ?_⟩
    rw [Std.TreeMap.mem_iff_isSome_getElem?, Option.isSome_iff_exists] at hname
    obtain ⟨k, hk⟩ := hname
    exact List.mem_of_getElem? ((hglobals.id_iff name k).mp hk)
  refine bind_program_eq_ok_iff.mpr ⟨s, top, functions, ?_, htop, ?_, rfl⟩
  · rw [Signatures.ofProgram_renameIn, hs]
  · refine bindFunctions_eq_ok_iff.mpr
      (forall₂_modify (bindFunctions_eq_ok_iff.mp hfunctions) id ?_)
    intro f' b' hf' hb' hf'b'
    obtain rfl : f = f' := Option.some.inj (hf.symm.trans hf')
    obtain rfl : b = b' := Option.some.inj (hb.symm.trans hb')
    exact bindFunction_rename hallows hhost hf'b'

end Programs

section Locals

/-- Whether the code of a function loads or stores a global of the host by its name. -/
def CodeUnit.NamesHost (u : CodeUnit) (function : Option Nat) (name : String) : Prop :=
  ∃ region pc id, u.region? function = some region ∧ pc ∈ region ∧ u.strings[id]? = some name ∧
    (u.code[pc]? = some (.loadHost id) ∨ u.code[pc]? = some (.storeHost id))

namespace Bound

/-- A place of the host in a function is named in its code. -/
theorem Program.namesHost_of_mem_placesOf {program : Program} {id : Nat} {b : Body} {name : String}
    (hb : program.functions[id]? = some b) (hname : .host name ∈ Stmt.placesOf b.statements) :
    program.toUnit.NamesHost (some id) name := by
  obtain ⟨start, hregion, hcode⟩ := program.exists_region_toUnit hb
  have hbounded := (hcode _ program.each_has_toUnit).and (Op.each_bounds start (b.code start))
  obtain ⟨hstatements, -⟩ := Body.each_code.mp hbounded
  obtain ⟨pc, n, ⟨⟨k, hk, hload⟩, hpc⟩ | ⟨⟨k, hk, hstore⟩, hpc⟩⟩ :=
    Stmt.usedBy_of_mem_placesOf _ _ _ hstatements _ hname
  · rw [Body.length_code] at hpc
    exact ⟨_, pc, k, hregion, hpc, hk, .inl hload⟩
  · rw [Body.length_code] at hpc
    exact ⟨_, pc, k, hregion, hpc, hk, .inr hstore⟩

end Bound

/-- Different names stay different when one of them gets a name that is not among them. -/
theorem replaceName_injective {old new : String} {names : List String} (hnew : new ∉ names) :
    ∀ a ∈ names, ∀ b ∈ names, replaceName old new a = replaceName old new b → a = b := by
  intro a ha b hb heq
  unfold replaceName at heq
  split at heq
  next hold =>
    split at heq
    next hold' => rw [hold, hold']
    next => exact absurd (heq ▸ hb) hnew
  next =>
    split at heq
    next => exact absurd (heq ▸ ha) hnew
    next => exact heq

theorem replaceName_of_ne {old new name : String} (h : name ≠ old) :
    replaceName old new name = name :=
  if_neg h

/-- A local may have any name. In a program that compiles, take a name that is not that of a script
global and that the code of some function does not name as a global of the host. If it is replaced
in that function, among its parameters and throughout its body, by a name that the function does not
use, the program compiles to the same unit. -/
theorem compile_rename_local {p : Program} {u : CodeUnit} {id : Nat} {f : FunctionDecl}
    {old new : String} (hcompile : compile p = .ok u) (hf : p.functions[id]? = some f)
    (hscript : old ∉ p.globalNames) (hhost : ¬u.NamesHost (some id) old) (hnew : new ∉ f.names) :
    compile (p.renameIn id (replaceName old new)) = .ok u := by
  obtain ⟨program, hbind, rfl⟩ := compile_eq_ok_iff.mp hcompile
  obtain ⟨s, top, functions, -, -, hfunctions, rfl⟩ := bind_program_eq_ok_iff.mp hbind
  obtain ⟨b, hb, -⟩ := exists_getElem?_right (bindFunctions_eq_ok_iff.mp hfunctions) hf
  refine compile_eq_ok_iff.mpr
    ⟨_, bind_renameIn hf hb (replaceName_injective hnew) ?_ ?_ hbind, rfl⟩
  · intro name hname
    exact replaceName_of_ne fun heq => hscript (heq ▸ hname)
  · intro name hname
    exact replaceName_of_ne fun heq =>
      hhost (heq ▸ Bound.Program.namesHost_of_mem_placesOf hb hname)

/-- A program with a function in which a parameter, a loop variable and a declaration of an inner
block have one name, and which reads a global of the host. -/
def shadowing (name : String) : Program where
  functions :=
    [{ name := "f"
       params := [name, "items"]
       body := .block
        [.forLoop name (.var "items") (.discard (.call "print" [.var name, .var "level"])),
         .block [.declare name (some (.number 1.0)), .discard (.call "print" [.var name])],
         .returnValue (.var name)] }]
  statements := []

/-- With another name for its three variables the program has the same unit. -/
theorem shadowing_compile :
    ∃ u, compile (shadowing "x") = .ok u ∧ u.strings.toList = ["level", "print"] ∧
      compile (shadowing "y") = .ok u := by
  have hstrings : ((compile (shadowing "x")).toOption.map fun u => u.strings.toList) =
      some ["level", "print"] := by
    decide +kernel
  obtain ⟨u, hu, hstrings⟩ := exists_compile_eq_ok hstrings
  have hhost : ¬u.NamesHost (some 0) "x" := by
    rintro ⟨-, -, id, -, -, hid, -⟩
    have hmem := List.mem_of_getElem? (Array.getElem?_toList.trans hid)
    rw [hstrings] at hmem
    exact absurd hmem (by decide)
  have hrename : (shadowing "x").renameIn 0 (replaceName "x" "y") = shadowing "y" := by
    simp [shadowing, Program.renameIn, FunctionDecl.rename, Stmt.rename, Stmt.renameAll,
      Expr.rename, Expr.renameAll, replaceName]
  refine ⟨u, hu, hstrings, ?_⟩
  rw [← hrename]
  exact compile_rename_local hu rfl (by decide) hhost (by decide)

end Locals

end HostScript
