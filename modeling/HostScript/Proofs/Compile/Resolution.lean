import HostScript.Proofs.Compile.Structure
import HostScript.Proofs.Emission.Places
import HostScript.Proofs.WellFormed.Compile
import HostScript.Proofs.WellFormed.Occurrences

/-!
# Names are bound to what they stand for

When a program is bound, every occurrence of a name gets the place that it should have by the open
scopes and the script globals that can be seen there.

Names that are still to be declared come in only at the end. A block that declares a name further on
keeps a reference to it away from the host, but not from a local of an outer scope or from a script
global: such a reference is no error, and the declaration that follows is one of another variable.
-/

namespace HostScript

theorem Scopes.mem_pending_announce {scopes : Scopes} {name other : String}
    (h : other ∈ scopes.inner.pending ∨ other = name ∧ other ∉ scopes.inner.names) :
    other ∈ (scopes.announce name).inner.pending := by
  unfold Scopes.announce
  split
  next hdeclared =>
    rcases h with hpending | ⟨rfl, hnew⟩
    · exact hpending
    · exact absurd hdeclared hnew
  next =>
    change other ∈ scopes.inner.pending.insert name
    rw [Std.TreeSet.mem_insert]
    rcases h with hpending | ⟨rfl, -⟩
    · exact .inr hpending
    · exact .inl (by simp)

/-- Announcing declarations makes their names pending in the innermost scope. -/
theorem Visible.mem_pending_announceAll (v : Visible) {statements : List Stmt} {name : String}
    (hname : name ∉ v.scopes.inner.names)
    (h : name ∈ v.scopes.inner.pending ∨ name ∈ declaredNames statements) :
    name ∈ (v.announceAll statements).scopes.inner.pending := by
  induction statements generalizing v with
  | nil => simpa [Visible.announceAll, declaredNames] using h
  | cons stmt rest ih =>
    rw [declaredNames_cons] at h
    cases hdeclared : stmt.declared? with
    | none =>
      rw [hdeclared] at h
      have hsame : v.announceAll (stmt :: rest) = v.announceAll rest := by
        simp [Visible.announceAll, hdeclared]
      rw [hsame]
      exact ih v hname (by simpa using h)
    | some first =>
      rw [hdeclared] at h
      have hsame : v.announceAll (stmt :: rest) = (v.announce first).announceAll rest := by
        simp [Visible.announceAll, hdeclared]
      rw [hsame]
      apply ih
      · rw [Visible.announce, Scopes.names_announce]
        exact hname
      · rcases h with hpending | hmem
        · exact .inl (Scopes.mem_pending_announce (.inl hpending))
        · rcases List.mem_append.mp hmem with hfirst | hrest
          · obtain rfl : name = first := by simpa using hfirst
            exact .inl (Scopes.mem_pending_announce (.inr ⟨rfl, hname⟩))
          · exact .inr hrest

/-- Whether an open scope is as the text of the program shows it. -/
structure Scope.Matches (scope : Scope) (seen : OpenScope) : Prop where
  slots : ∀ name : String, scope.names[name]? = seen.slot? name
  pending : ∀ name ∈ seen.pending, name ∈ scope.pending ∧ seen.slot? name = none

/-- Whether binding is at a point of the text of the program. -/
structure Visible.Matches (s : Signatures) (v : Visible) (here : Point) : Prop where
  inner : v.scopes.inner.Matches here.inner
  outer : List.Forall₂ Scope.Matches v.scopes.outer here.outer
  completed : ∀ name, (∃ id, s.globals[name]? = some id ∧ id < v.reached) ↔ name ∈ here.completed
  next : v.scopes.next = here.slots

theorem exists_of_mem_right {α β : Type} {R : α → β → Prop} {as : List α} {bs : List β}
    (h : List.Forall₂ R as bs) {b : β} (hb : b ∈ bs) : ∃ a ∈ as, R a b := by
  induction h with
  | nil => cases hb
  | cons hab _ ih =>
    rcases List.mem_cons.mp hb with rfl | hb
    · exact ⟨_, List.mem_cons_self, hab⟩
    · obtain ⟨a, ha, hr⟩ := ih hb
      exact ⟨a, List.mem_cons_of_mem _ ha, hr⟩

theorem slotAmong?_eq {scopes : List Scope} {seen : List OpenScope}
    (h : List.Forall₂ Scope.Matches scopes seen) (name : String) :
    (scopes.findSome? fun scope => scope.names[name]?) = OpenScope.slotAmong? seen name := by
  induction h with
  | nil => rfl
  | cons hab _ ih =>
    rw [OpenScope.slotAmong?, List.findSome?_cons, List.findSome?_cons, hab.slots name, ih]
    rfl

namespace Visible.Matches

variable {s : Signatures} {v v' : Visible} {here : Point} {globals : List String}

theorem scopes (h : v.Matches s here) : List.Forall₂ Scope.Matches v.scopes.all here.scopes :=
  .cons h.inner h.outer

theorem fresh (h : v.Matches s here) : here.Fresh := by
  intro seen hseen name hname
  obtain ⟨scope, -, hmatches⟩ := exists_of_mem_right h.scopes hseen
  exact (hmatches.pending name hname).2

theorem find?_eq (h : v.Matches s here) (name : String) :
    v.scopes.find? name = OpenScope.slotAmong? here.scopes name := by
  rw [← slotAmong?_eq h.scopes name, Scopes.find?, Scopes.all, List.findSome?_cons]
  cases v.scopes.inner.names[name]? <;> rfl

/-- A name that an open scope declares from here on is pending. -/
theorem isPending (h : v.Matches s here) {seen : OpenScope} (hseen : seen ∈ here.scopes)
    {name : String} (hname : name ∈ seen.pending) : v.scopes.isPending name := by
  obtain ⟨scope, hscope, hmatches⟩ := exists_of_mem_right h.scopes hseen
  have hpending : scope.pending.contains name := (hmatches.pending name hname).1
  rw [Scopes.isPending, Bool.or_eq_true]
  rcases List.mem_cons.mp hscope with rfl | houter
  · exact .inl hpending
  · exact .inr (List.any_eq_true.mpr ⟨scope, houter, hpending⟩)

/-- The place that a variable is bound to is the one that its name stands for. -/
theorem place_resolves (h : v.Matches s here) (hglobals : s.HasGlobals globals) {name : String}
    {place : Place} (hplace : v.place s name = .ok place) : here.Resolves globals name place := by
  unfold Visible.place at hplace
  rw [h.find?_eq name] at hplace
  split at hplace
  next slot hslot =>
    obtain rfl := Except.ok.inj hplace
    exact .slot hslot
  next hlocal =>
    split at hplace
    next id hid =>
      split at hplace
      next hreached =>
        obtain rfl := Except.ok.inj hplace
        exact .script hlocal ((hglobals.id_iff name id).mp hid)
          ((h.completed name).mp ⟨id, hid, hreached⟩)
      · cases hplace
    next hnone =>
      split at hplace
      · cases hplace
      next hpending =>
        obtain rfl := Except.ok.inj hplace
        refine .host hlocal ?_ ?_
        · intro hmem
          obtain ⟨id, hid⟩ := List.mem_iff_getElem?.mp hmem
          rw [(hglobals.id_iff name id).mpr hid] at hnone
          cases hnone
        · intro seen hseen hname
          exact hpending (h.isPending hseen hname)

/-- The peak does not matter. -/
theorem rises (h : v.Matches s here) (hrises : v.Rises v') : v'.Matches s here := by
  rw [hrises.eq]
  exact ⟨h.inner, h.outer, h.completed, h.next⟩

theorem enter (h : v.Matches s here) : v.enter.Matches s here.enter where
  inner := ⟨fun name => by simp [Visible.enter, Scopes.enter, Point.enter, OpenScope.slot?],
    fun name hname => by cases hname⟩
  outer := h.scopes
  completed := h.completed
  next := h.next

theorem grow (h : v.Matches s here) :
    Matches s { v with scopes := v.scopes.grow } { here with slots := here.slots + 1 } :=
  ⟨h.inner, h.outer, h.completed, congrArg (· + 1) h.next⟩

/-- The names that a scope declares from here on may be fewer than were known. -/
theorem expect (h : v.Matches s here) {names : List String}
    (hnames : ∀ name ∈ names, name ∈ v.scopes.inner.pending ∧ here.inner.slot? name = none) :
    v.Matches s (here.expect names) :=
  ⟨⟨h.inner.slots, hnames⟩, h.outer, h.completed, h.next⟩

/-- Declaring a name gives it the next slot, if it is not declared again. -/
theorem extend (h : v.Matches s here) (name : String) {names : List String}
    (hnames : ∀ other ∈ names, other ≠ name ∧ other ∈ here.inner.pending) :
    Matches s { v with scopes := v.scopes.extend name } ((here.declare name).expect names) := by
  have hslot : ∀ other, ((here.declare name).inner.slot? other) =
      if other = name then some here.slots else here.inner.slot? other := by
    intro other
    simp only [Point.declare, OpenScope.slot?, List.lookup_cons]
    by_cases hother : other = name
    · simp [hother]
    · simp [beq_false_of_ne hother, hother]
  refine ⟨⟨fun other => ?_, fun other hother => ?_⟩, h.outer, h.completed, congrArg (· + 1) h.next⟩
  · change (v.scopes.inner.names.insert name v.scopes.next)[other]? =
      (here.declare name).inner.slot? other
    rw [hslot, Std.TreeMap.getElem?_insert, h.next, h.inner.slots other]
    by_cases hother : other = name
    · simp [hother]
    · have hne : name ≠ other := fun heq => hother heq.symm
      simp [hother, hne]
  · obtain ⟨hne, hpending⟩ := hnames other hother
    obtain ⟨hmem, hfresh⟩ := h.inner.pending other hpending
    refine ⟨?_, ?_⟩
    · change other ∈ v.scopes.inner.pending.erase name
      rw [Std.TreeSet.mem_erase]
      exact ⟨by simpa using fun heq => hne heq.symm, hmem⟩
    · change (here.declare name).inner.slot? other = none
      rw [hslot, if_neg hne]
      exact hfresh

/-- A declaration announces its name for the time of its initial value. -/
theorem announce (h : v.Matches s here) {name : String} (hname : name ∉ v.scopes.inner.names) :
    (v.announce name).Matches s (here.expect (name :: here.inner.pending)) := by
  have hnew : ¬v.scopes.inner.names.contains name := hname
  have hfresh : here.inner.slot? name = none := by
    rw [← h.inner.slots name]
    exact Std.TreeMap.getElem?_eq_none hname
  have hannounced : v.announce name =
      { v with
        scopes := { v.scopes with
          inner := { v.scopes.inner with pending := v.scopes.inner.pending.insert name } } } := by
    rw [Visible.announce, Scopes.announce, if_neg hnew]
  rw [hannounced]
  refine ⟨⟨h.inner.slots, fun other hother => ?_⟩, h.outer, h.completed, h.next⟩
  rw [Std.TreeSet.mem_insert]
  rcases List.mem_cons.mp hother with rfl | hother
  · exact ⟨.inl (by simp), hfresh⟩
  · exact ⟨.inr (h.inner.pending other hother).1, (h.inner.pending other hother).2⟩

/-- Declaring a name in a scope that declares nothing else. -/
theorem declare (h : v.Matches s here) (hpending : here.inner.pending = []) (name : String) :
    Matches s { v with scopes := v.scopes.extend name } (here.declare name) := by
  have hsame : here.declare name = (here.declare name).expect [] := by
    simp [Point.declare, Point.expect, hpending]
  rw [hsame]
  exact h.extend name (by simp)

/-- The scope of a loop over an array takes two slots and then declares its name. -/
theorem forHeader (h : v.Matches s here) (name : String) :
    (v.forHeader name).Matches s (here.forHeader name) :=
  h.enter.grow.grow.declare rfl name

/-- The declarations of a block are announced where it begins. -/
theorem block (h : v.Matches s here) (statements : List Stmt) :
    (v.enter.announceAll statements).Matches s (here.enter.expect (declaredNames statements)) := by
  obtain ⟨hnames, hnext, hreached, -⟩ := Visible.announceAll_pending v.enter statements
  have houter := (proceeds_announceAll (v := v.enter) statements).inside.outer_eq
  refine ⟨⟨fun name => ?_, fun name hname => ⟨?_, rfl⟩⟩, ?_, ?_, hnext.trans h.next⟩
  · rw [hnames]
    exact h.enter.inner.slots name
  · exact v.enter.mem_pending_announceAll (by simp [Visible.enter, Scopes.enter]) (.inr hname)
  · rw [houter]
    exact h.enter.outer
  · rw [hreached]
    exact h.completed

/-- After a statement of a block the names that the rest declares are left, if none of
them is there already. -/
theorem after {around : Surroundings} {inLoop : Bool} {stmt : Stmt} {rest : List Stmt}
    {b : Bound.Stmt} (h : v.Matches around.signatures (here.expect (declaredNames (stmt :: rest))))
    (hlocal : ∀ name, around.global? v name = none)
    (hbind : bindStmt around inLoop v stmt = .ok (b, v'))
    (hrest : ∀ name ∈ declaredNames rest, name ∉ v'.scopes.inner.names) :
    v'.Matches around.signatures ((here.after stmt).expect (declaredNames rest)) := by
  have hrises := bindStmt_rises hbind
  refine Matches.rises ?_ hrises
  have hpending : ∀ name ∈ declaredNames rest,
      name ∈ (here.expect (declaredNames (stmt :: rest))).inner.pending := by
    intro name hname
    change name ∈ declaredNames (stmt :: rest)
    rw [declaredNames_cons]
    exact List.mem_append_right _ hname
  cases hdeclared : stmt.declared? with
  | none =>
    rw [Point.after, hdeclared, Visible.after, hdeclared]
    exact h.expect fun name hname => h.inner.pending name (hpending name hname)
  | some name =>
    rw [Visible.after, hdeclared] at hrises ⊢
    rw [Point.after, hdeclared]
    dsimp only at hrises ⊢
    rw [hlocal name] at hrises ⊢
    have hname : name ∉ v.scopes.inner.names := by
      have hfresh := (h.inner.pending name (by simp [Point.expect, hdeclared])).2
      rw [← h.inner.slots name] at hfresh
      rw [Std.TreeMap.mem_iff_isSome_getElem?, hfresh]
      exact Bool.false_ne_true
    have hmem : name ∈ v'.scopes.inner.names := by
      rw [hrises.eq]
      exact Std.TreeMap.mem_insert_self
    refine (h.announce hname).extend name
      fun other hother => ⟨?_, List.mem_cons_of_mem _ (hpending other hother)⟩
    rintro rfl
    exact hrest other hother hmem

end Visible.Matches

section Trees

variable {s : Signatures} {v : Visible} {here : Point} {globals : List String}

mutual

/-- The variables of an expression are bound to the places that their names stand for. -/
theorem bindExpr_resolves (hglobals : s.HasGlobals globals) (h : v.Matches s here) :
    (x : Expr) → (b : Bound.Expr) → bindExpr s v x = .ok b →
      List.Forall₂ (here.Resolves globals) x.variables b.places
  | .var name, _, hbind => by
    obtain ⟨place, hplace, rfl⟩ := bindExpr_var.mp hbind
    exact .cons (h.place_resolves hglobals hplace) .nil
  | .number value, _, hbind => by
    obtain rfl := bindExpr_number.mp hbind
    exact .nil
  | .string value, _, hbind => by
    obtain rfl := bindExpr_string.mp hbind
    exact .nil
  | .array items, _, hbind => by
    obtain ⟨-, bs, hitems, rfl⟩ := bindExpr_array.mp hbind
    exact bindExprs_resolves hglobals h items bs hitems
  | .index base position, _, hbind => by
    obtain ⟨b₁, b₂, hbase, hposition, rfl⟩ := bindExpr_index.mp hbind
    rw [Expr.variables_index, Bound.Expr.places]
    exact List.rel_append (bindExpr_resolves hglobals h base b₁ hbase)
      (bindExpr_resolves hglobals h position b₂ hposition)
  | .call function args, _, hbind => by
    cases hfunction : s.functions[function]? with
    | some signature =>
      obtain ⟨-, -, bs, hargs, rfl⟩ := (bindExpr_call_script hfunction).mp hbind
      exact bindExprs_resolves hglobals h args bs hargs
    | none =>
      obtain ⟨-, bs, hargs, rfl⟩ := (bindExpr_call_native hfunction).mp hbind
      exact bindExprs_resolves hglobals h args bs hargs
  | .method object name args, _, hbind => by
    obtain ⟨b₁, hobject, -, bs, hargs, rfl⟩ := bindExpr_method.mp hbind
    rw [Expr.variables_method, Bound.Expr.places]
    exact List.rel_append (bindExpr_resolves hglobals h object b₁ hobject)
      (bindExprs_resolves hglobals h args bs hargs)
  | .unary op operand, _, hbind => by
    obtain ⟨b₁, hoperand, rfl⟩ := bindExpr_unary.mp hbind
    exact bindExpr_resolves hglobals h operand b₁ hoperand
  | .binary op lhs rhs, _, hbind => by
    obtain ⟨b₁, b₂, hlhs, hrhs, hr⟩ := bindExpr_binary.mp hbind
    have hplaces := List.rel_append (bindExpr_resolves hglobals h lhs b₁ hlhs)
      (bindExpr_resolves hglobals h rhs b₂ hrhs)
    rw [Expr.variables_binary]
    subst hr
    cases op.connective? <;> exact hplaces
termination_by structural x => x

/-- The variables of expressions are bound to the places that their names stand for. -/
theorem bindExprs_resolves (hglobals : s.HasGlobals globals) (h : v.Matches s here) :
    (xs : List Expr) → (bs : List Bound.Expr) → bindExprs s v [] xs = .ok bs →
      List.Forall₂ (here.Resolves globals) (Expr.variablesOf xs) (Bound.Expr.placesOf bs)
  | [], _, hbind => by
    obtain rfl := bindExprs_nil.mp hbind
    exact .nil
  | x :: xs, _, hbind => by
    obtain ⟨b, rest, hx, hxs, rfl⟩ := bindExprs_cons.mp hbind
    rw [Expr.variablesOf_cons, Bound.Expr.placesOf]
    exact List.rel_append (bindExpr_resolves hglobals h x b hx)
      (bindExprs_resolves hglobals h xs rest hxs)
termination_by structural xs => xs

end

/-- The variables of a target are bound to the places that their names stand for. -/
theorem bindTarget_resolves (hglobals : s.HasGlobals globals) (h : v.Matches s here) :
    (x : Expr) → (t : Bound.Target) → bindTarget s v x = .ok t →
      List.Forall₂ (here.Resolves globals) x.variables t.places
  | .var name, _, hbind => by
    obtain ⟨place, hplace, rfl⟩ := bindTarget_var.mp hbind
    exact .cons (h.place_resolves hglobals hplace) .nil
  | .index base position, _, hbind => by
    obtain ⟨t, b, hbase, hposition, rfl⟩ := bindTarget_index.mp hbind
    rw [Expr.variables_index, Bound.Target.places]
    exact List.rel_append (bindTarget_resolves hglobals h base t hbase)
      (bindExpr_resolves hglobals h position b hposition)

/-- Variables that are bound to the places that their names stand for are references that are. -/
theorem references_resolve (h : v.Matches s here) {names : List String} {places : List Place}
    (hnames : List.Forall₂ (here.Resolves globals) names places) :
    List.Forall₂ (Occurrence.Resolves globals) (names.map (.reference · here)) places := by
  rw [List.forall₂_map_left_iff]
  exact hnames.imp fun _ _ hname => .reference h.fresh hname

theorem bindInitial_resolves (hglobals : s.HasGlobals globals) (h : v.Matches s here)
    {initial : Option Expr} {b : Bound.Expr} (hbind : bindInitial s v initial = .ok b) :
    List.Forall₂ (Occurrence.Resolves globals) (initialReferences here initial) b.places := by
  apply references_resolve h
  cases initial with
  | none =>
    obtain rfl := Except.ok.inj hbind
    exact .nil
  | some value => exact bindExpr_resolves hglobals h value b hbind

end Trees

section Statements

variable {around : Surroundings} {globals : List String}

/-- Statements of one scope that are bound declare no name that the scope has already. -/
theorem bindStmts_fresh {inLoop : Bool} {v v' : Visible} {statements : List Stmt}
    {bs : List Bound.Stmt} (hlocal : ∀ name, around.global? v name = none)
    (hbind : bindStmts around inLoop [] v statements = .ok (bs, v')) :
    ∀ name ∈ declaredNames statements, name ∉ v.scopes.inner.names := by
  induction statements generalizing v v' bs with
  | nil =>
    intro name hname
    cases hname
  | cons stmt rest ih =>
    obtain ⟨b, v₁, bs, v₂, hstmt, hrest, -⟩ := bindStmts_cons.mp hbind
    have hproceeds := bindStmt_proceeds around inLoop v v₁ stmt b hstmt
    have hrises := bindStmt_rises hstmt
    have hlater := ih (fun name => (global?_proceeds hproceeds name).trans (hlocal name)) hrest
    intro name hname
    rw [declaredNames_cons] at hname
    rcases List.mem_append.mp hname with hfirst | hname
    · have hdeclared : stmt.declared? = some name := by simpa using hfirst
      obtain ⟨initial, rfl⟩ := Stmt.eq_declare hdeclared
      rw [bindStmt_declare] at hstmt
      obtain ⟨-, -, hnew, -⟩ := (bindDeclaration_local (hlocal name)).mp hstmt
      exact hnew
    · intro hmem
      apply hlater name hname
      rw [hrises.eq, Visible.after]
      cases stmt.declared? with
      | none => exact hmem
      | some first =>
        dsimp only
        rw [hlocal first]
        change name ∈ (v.scopes.announce first).inner.names.insert first _
        rw [Scopes.names_announce, Std.TreeMap.mem_insert]
        exact .inr hmem

mutual

/-- The occurrences of names in a statement are bound as they should be. -/
theorem bindStmt_resolves (hglobals : around.signatures.HasGlobals globals) (inLoop : Bool) :
    (stmt : Stmt) → (v v' : Visible) → (here : Point) → (b : Bound.Stmt) →
      v.Matches around.signatures here →
      (∀ name ∈ stmt.declared?, around.global? v name = none) →
      bindStmt around inLoop v stmt = .ok (b, v') →
      List.Forall₂ (Occurrence.Resolves globals) (stmt.occurrences here) b.places
  | .assign target value, v, _, here, _, h, _, hbind => by
    obtain ⟨-, b, t, hvalue, htarget, hr⟩ := bindStmt_assign.mp hbind
    obtain ⟨rfl, -⟩ := Prod.mk.inj hr
    exact List.rel_append (references_resolve h (bindExpr_resolves hglobals h value b hvalue))
      (references_resolve h (bindTarget_resolves hglobals h target t htarget))
  | .returnVoid, v, _, here, _, h, _, hbind => by
    obtain ⟨rfl, -⟩ := Prod.mk.inj (bindStmt_returnVoid.mp hbind)
    exact .nil
  | .returnValue value, v, _, here, _, h, _, hbind => by
    obtain ⟨b, hvalue, hr⟩ := bindStmt_returnValue.mp hbind
    obtain ⟨rfl, -⟩ := Prod.mk.inj hr
    exact references_resolve h (bindExpr_resolves hglobals h value b hvalue)
  | .discard value, v, _, here, _, h, _, hbind => by
    obtain ⟨b, hvalue, hr⟩ := bindStmt_discard.mp hbind
    obtain ⟨rfl, -⟩ := Prod.mk.inj hr
    exact references_resolve h (bindExpr_resolves hglobals h value b hvalue)
  | .whileLoop condition body, v, _, here, _, h, _, hbind => by
    obtain ⟨b₁, b₂, v₂, hcondition, hbody, hr⟩ := bindStmt_whileLoop.mp hbind
    obtain ⟨rfl, -⟩ := Prod.mk.inj hr
    exact List.rel_append (references_resolve h
        (bindExpr_resolves hglobals h condition b₁ hcondition)) (bindStmt_resolves hglobals true
        body v.enter v₂ here.enter b₂ h.enter (fun name _ => global?_enter around v name) hbody)
  | .forLoop name source body, v, _, here, _, h, _, hbind => by
    obtain ⟨b₁, b₂, v₂, hsource, -, hbody, hr⟩ := bindStmt_forLoop.mp hbind
    obtain ⟨rfl, -⟩ := Prod.mk.inj hr
    have hinner := bindStmt_resolves hglobals true body
      (v.forHeader name).enter v₂ (here.forHeader name).enter b₂
      (h.forHeader name).enter (fun other _ => global?_enter around _ other) hbody
    rw [Stmt.occurrences, Bound.Stmt.places, h.next]
    exact List.rel_append (references_resolve h (bindExpr_resolves hglobals h source b₁ hsource))
      (.cons (.declaration _) hinner)
  | .ifThen condition body, v, _, here, _, h, _, hbind => by
    obtain ⟨b₁, b₂, v₂, hcondition, hbody, hr⟩ := bindStmt_ifThen.mp hbind
    obtain ⟨rfl, -⟩ := Prod.mk.inj hr
    exact List.rel_append (references_resolve h
        (bindExpr_resolves hglobals h condition b₁ hcondition)) (bindStmt_resolves hglobals inLoop
        body v.enter v₂ here.enter b₂ h.enter (fun name _ => global?_enter around v name) hbody)
  | .ifElse condition body otherwise, v, _, here, _, h, _, hbind => by
    obtain ⟨b₁, b₂, v₂, b₃, v₃, hcondition, hbody, hotherwise, hr⟩ := bindStmt_ifElse.mp hbind
    obtain ⟨rfl, -⟩ := Prod.mk.inj hr
    have hleft := h.rises (bindStmt_proceeds around inLoop v.enter v₂ body b₂ hbody).rises_leave
    exact List.rel_append (List.rel_append
      (references_resolve h (bindExpr_resolves hglobals h condition b₁ hcondition))
      (bindStmt_resolves hglobals inLoop body v.enter v₂ here.enter b₂ h.enter
        (fun name _ => global?_enter around v name) hbody))
      (bindStmt_resolves hglobals inLoop otherwise v₂.leave.enter v₃ here.enter b₃ hleft.enter
        (fun name _ => global?_enter around _ name) hotherwise)
  | .declare name initial, v, _, here, _, h, hlocal, hbind => by
    rw [bindStmt_declare] at hbind
    obtain ⟨b, hinitial, hnew, -, hr⟩ := (bindDeclaration_local (hlocal name rfl)).mp hbind
    obtain ⟨rfl, -⟩ := Prod.mk.inj hr
    rw [Stmt.occurrences, Bound.Stmt.places, Bound.Target.places, h.next]
    exact List.rel_append (bindInitial_resolves hglobals (h.announce hnew) hinitial)
      (.cons (.declaration _) .nil)
  | .block statements, v, _, here, _, h, _, hbind => by
    obtain ⟨bs, v₂, hbody, hr⟩ := bindStmt_block.mp hbind
    obtain ⟨rfl, -⟩ := Prod.mk.inj hr
    exact bindStmts_resolves hglobals inLoop statements _ v₂ here.enter bs (h.block statements)
      (global?_block around v statements) hbody
  | .breakLoop, v, _, here, _, h, _, hbind => by
    obtain ⟨-, hr⟩ := bindStmt_breakLoop.mp hbind
    obtain ⟨rfl, -⟩ := Prod.mk.inj hr
    exact .nil
  | .continueLoop, v, _, here, _, h, _, hbind => by
    obtain ⟨-, hr⟩ := bindStmt_continueLoop.mp hbind
    obtain ⟨rfl, -⟩ := Prod.mk.inj hr
    exact .nil
termination_by structural stmt => stmt

/-- The occurrences of names in a block are bound as they should be. -/
theorem bindStmts_resolves (hglobals : around.signatures.HasGlobals globals) (inLoop : Bool) :
    (statements : List Stmt) → (v v' : Visible) → (here : Point) → (bs : List Bound.Stmt) →
      v.Matches around.signatures (here.expect (declaredNames statements)) →
      (∀ name, around.global? v name = none) →
      bindStmts around inLoop [] v statements = .ok (bs, v') →
      List.Forall₂ (Occurrence.Resolves globals) (Stmt.occurrencesOf here statements)
        (Bound.Stmt.placesOf bs)
  | [], _, _, _, _, _, _, hbind => by
    obtain ⟨rfl, -⟩ := Prod.mk.inj (bindStmts_nil.mp hbind)
    exact .nil
  | stmt :: rest, v, _, here, _, h, hlocal, hbind => by
    obtain ⟨b, v₁, bs, v₂, hstmt, hrest, hr⟩ := bindStmts_cons.mp hbind
    obtain ⟨rfl, -⟩ := Prod.mk.inj hr
    have hproceeds := bindStmt_proceeds around inLoop v v₁ stmt b hstmt
    have hlocal' : ∀ name, around.global? v₁ name = none := fun name =>
      (global?_proceeds hproceeds name).trans (hlocal name)
    exact List.rel_append
      (bindStmt_resolves hglobals inLoop stmt v v₁ _ b h (fun name _ => hlocal name) hstmt)
      (bindStmts_resolves hglobals inLoop rest v₁ v₂ _ bs
        (h.after hlocal hstmt (bindStmts_fresh hlocal' hrest)) hlocal' hrest)
termination_by structural statements => statements

end

end Statements

section Programs

variable {s : Signatures} {p : Program}

/-- After the parameters of a function binding is at the start of its body. -/
theorem Visible.Matches.params {v v' : Visible} {here : Point} {params : List String}
    (h : v.Matches s here) (hpending : here.inner.pending = [])
    (hbind : bindParams v params = .ok v') : v'.Matches s (here.declareAll params) := by
  induction params generalizing v here with
  | nil =>
    obtain rfl := bindParams_nil.mp hbind
    exact h
  | cons name rest ih =>
    obtain ⟨-, -, hrest⟩ := bindParams_cons.mp hbind
    exact ih (h.declare hpending name) hpending hrest

/-- At the start of a body nothing is declared. -/
theorem matches_start {reached : Nat} {completed : List String}
    (hcompleted : ∀ name, (∃ id, s.globals[name]? = some id ∧ id < reached) ↔ name ∈ completed) :
    Visible.Matches s { reached } { completed } :=
  ⟨⟨fun name => by simp [OpenScope.slot?], fun name hname => by cases hname⟩, .nil, hcompleted, rfl⟩

/-- The occurrences of names in a function are bound as they should be. -/
theorem bindFunction_resolves (hglobals : s.HasGlobals p.globalNames) {f : FunctionDecl}
    {b : Bound.Body} (hbind : bindFunction s f = .ok b) :
    List.Forall₂ (Occurrence.Resolves p.globalNames) (f.body.occurrences (p.functionPoint f))
      (Bound.Stmt.placesOf b.statements) := by
  obtain ⟨v₁, bs, v₂, hparams, hbody, rfl⟩ := bindBody_eq_ok_iff.mp (mapError_eq_ok_iff.mp hbind)
  have hstart := (matches_start (shows_function hglobals).completed).params rfl hparams
  obtain ⟨b, v₃, bs, v₄, hstmt, hnil, hr⟩ := bindStmts_cons.mp hbody
  obtain ⟨rfl, -⟩ := Prod.mk.inj hr
  obtain ⟨rfl, -⟩ := Prod.mk.inj (bindStmts_nil.mp hnil)
  rw [Bound.Stmt.placesOf, Bound.Stmt.placesOf, List.append_nil]
  exact bindStmt_resolves hglobals false f.body v₁ v₃ _ b hstart (fun name _ => rfl) hstmt

/-- After a top-level statement binding is at the next one, and one more script global can be used
if the statement declares one. -/
theorem Visible.Matches.afterTop {v v' : Visible} {here : Point} {done : List String} {stmt : Stmt}
    {rest : List Stmt} {b : Bound.Stmt} (h : v.Matches s here)
    (hglobals : s.HasGlobals (done ++ declaredNames (stmt :: rest)))
    (hreached : v.reached = done.length) (houter : v.scopes.outer = [])
    (hbind : bindStmt { signatures := s, topLevel := true } false v stmt = .ok (b, v')) :
    v'.Matches s (here.afterTop stmt) ∧
      v'.reached = (done ++ stmt.declared?.toList).length ∧ v'.scopes.outer = [] := by
  rw [declaredNames_cons] at hglobals
  cases hdeclared : stmt.declared? with
  | none =>
    have hrises : v.Rises v' := by simpa [Visible.after, hdeclared] using bindStmt_rises hbind
    have hafter : here.afterTop stmt = here := by simp [Point.afterTop, hdeclared]
    rw [hafter]
    refine ⟨h.rises hrises, ?_, ?_⟩
    · rw [hrises.eq]
      simpa using hreached
    · rw [hrises.eq]
      exact houter
  | some name =>
    obtain ⟨initial, rfl⟩ := Stmt.eq_declare hdeclared
    rw [hdeclared, Option.toList_some, List.singleton_append] at hglobals
    rw [bindStmt_declare] at hbind
    obtain ⟨value, -, hr⟩ := (bindDeclaration_global (global?_top hglobals houter)).mp hbind
    obtain ⟨-, rfl⟩ := Prod.mk.inj hr
    refine ⟨⟨h.inner, h.outer, hglobals.completed_succ (hreached ▸ h.completed), h.next⟩, ?_,
      houter⟩
    simp

/-- The occurrences of names in a top-level statement are bound as they should be. -/
theorem bindStmt_topResolves (hglobals : s.HasGlobals p.globalNames) {v v' : Visible}
    {here : Point} {done : List String} {stmt : Stmt} {rest : List Stmt} {b : Bound.Stmt}
    (h : v.Matches s here) (hdone : p.globalNames = done ++ declaredNames (stmt :: rest))
    (houter : v.scopes.outer = [])
    (hbind : bindStmt { signatures := s, topLevel := true } false v stmt = .ok (b, v')) :
    List.Forall₂ (Occurrence.Resolves p.globalNames) (stmt.topOccurrences here) b.places := by
  rw [declaredNames_cons] at hdone
  cases hdeclared : stmt.declared? with
  | none =>
    rw [Stmt.topOccurrences_of_none hdeclared]
    exact bindStmt_resolves hglobals false stmt v v' here b h (by simp [hdeclared]) hbind
  | some name =>
    obtain ⟨initial, rfl⟩ := Stmt.eq_declare hdeclared
    rw [hdeclared, Option.toList_some, List.singleton_append] at hdone
    rw [bindStmt_declare] at hbind
    have hglobal := global?_top (hdone ▸ hglobals) houter
    obtain ⟨value, hinitial, hr⟩ := (bindDeclaration_global hglobal).mp hbind
    obtain ⟨rfl, -⟩ := Prod.mk.inj hr
    have hid : p.globalNames[done.length]? = some name := by simp [hdone]
    exact List.rel_append (bindInitial_resolves hglobals h hinitial)
      (.cons (.globalDeclaration hid) .nil)

/-- The occurrences of names in top-level statements are bound as they should be. -/
theorem bindStmts_topResolves (hglobals : s.HasGlobals p.globalNames) {v v' : Visible}
    {here : Point} {bs : List Bound.Stmt} (done : List String) (statements : List Stmt)
    (h : v.Matches s here) (hdone : p.globalNames = done ++ declaredNames statements)
    (hreached : v.reached = done.length) (houter : v.scopes.outer = [])
    (hbind : bindStmts { signatures := s, topLevel := true } false [] v statements = .ok (bs, v')) :
    List.Forall₂ (Occurrence.Resolves p.globalNames) (Stmt.topOccurrencesOf here statements)
      (Bound.Stmt.placesOf bs) := by
  induction statements generalizing v here bs done with
  | nil =>
    obtain ⟨rfl, -⟩ := Prod.mk.inj (bindStmts_nil.mp hbind)
    exact .nil
  | cons stmt rest ih =>
    obtain ⟨b, v₁, bs, v₂, hstmt, hrest, hr⟩ := bindStmts_cons.mp hbind
    obtain ⟨rfl, rfl⟩ := Prod.mk.inj hr
    obtain ⟨hafter, hreached', houter'⟩ := h.afterTop (hdone ▸ hglobals) hreached houter hstmt
    refine List.rel_append (bindStmt_topResolves hglobals h hdone houter hstmt) ?_
    refine ih (done ++ stmt.declared?.toList) hafter ?_ hreached' houter' hrest
    rw [hdone, declaredNames_cons, List.append_assoc]

/-- When a program is bound, every occurrence of a name gets the place that it should have. -/
theorem bind_resolves {program : Bound.Program} (hbind : p.bind = .ok program) :
    List.Forall₂ (Occurrence.Resolves p.globalNames) p.occurrences program.places := by
  obtain ⟨s, top, functions, hs, htop, hfunctions, rfl⟩ := bind_program_eq_ok_iff.mp hbind
  obtain ⟨-, hglobals⟩ := Signatures.ofProgram_table hs
  apply List.rel_append
  · obtain ⟨v₁, bs, v₂, hparams, hbody, rfl⟩ := bindBody_eq_ok_iff.mp (mapError_eq_ok_iff.mp htop)
    obtain rfl := bindParams_nil.mp hparams
    exact bindStmts_topResolves hglobals [] p.statements (matches_start (by simp)) rfl rfl rfl hbody
  · exact List.rel_flatMap (bindFunctions_eq_ok_iff.mp hfunctions)
      fun f b hf => bindFunction_resolves hglobals hf

end Programs

section Pending

/-- What stands at a position of one list belongs to what stands there in the other. -/
theorem exists_getElem?_right {α β : Type} {R : α → β → Prop} {as : List α} {bs : List β}
    (h : List.Forall₂ R as bs) {k : Nat} {a : α} (hk : as[k]? = some a) :
    ∃ b, bs[k]? = some b ∧ R a b := by
  induction h generalizing k with
  | nil => cases hk
  | cons hab _ ih =>
    cases k with
    | zero =>
      obtain rfl := Option.some.inj hk
      exact ⟨_, rfl, hab⟩
    | succ k => exact ih hk

/-- A scope that is still to declare a name, and scopes inside it that have not declared the name,
are passed over when the name is looked up. -/
theorem Point.Fresh.slotAmong?_eq {here : Point} (h : here.Fresh) {inside outer : List OpenScope}
    {block : OpenScope} {name : String} (hscopes : here.scopes = inside ++ block :: outer)
    (hpending : name ∈ block.pending) (hinside : ∀ scope ∈ inside, scope.slot? name = none) :
    OpenScope.slotAmong? here.scopes name = OpenScope.slotAmong? outer name := by
  have hblock : block.slot? name = none := h block (by simp [hscopes]) name hpending
  rw [hscopes, OpenScope.slotAmong?, List.findSome?_append, List.findSome?_eq_none_iff.mpr hinside,
    Option.none_or, List.findSome?_cons, hblock]
  rfl

/-- What becomes of a reference to a name that an open scope declares from there on, and that no
open scope inside that one has declared. If a scope around that one has declared the name, the
reference is bound to the innermost such declaration; if not, and the name is that of a script
global that can be used, it is bound to that. Otherwise the program does not compile. So the
reference never goes to the host. -/
theorem pending_reference_place {p : Program} {k : Nat} {name : String} {here : Point}
    {inside outer : List OpenScope} {block : OpenScope}
    (hk : p.occurrences[k]? = some (.reference name here))
    (hscopes : here.scopes = inside ++ block :: outer)
    (hpending : name ∈ block.pending) (hinside : ∀ scope ∈ inside, scope.slot? name = none) :
    (OpenScope.slotAmong? outer name = none → name ∉ here.completed →
        ∃ error, compile p = .error error) ∧
    ∀ program, p.bind = .ok program →
      (∃ slot, OpenScope.slotAmong? outer name = some slot ∧
        program.places[k]? = some (.slot slot)) ∨
      OpenScope.slotAmong? outer name = none ∧ name ∈ here.completed ∧
        ∃ id, p.globalNames[id]? = some name ∧ program.places[k]? = some (.script id) := by
  have hplaces : ∀ program, p.bind = .ok program →
      (∃ slot, OpenScope.slotAmong? outer name = some slot ∧
        program.places[k]? = some (.slot slot)) ∨
      OpenScope.slotAmong? outer name = none ∧ name ∈ here.completed ∧
        ∃ id, p.globalNames[id]? = some name ∧ program.places[k]? = some (.script id) := by
    intro program hbind
    obtain ⟨place, hplace, hresolves⟩ := exists_getElem?_right (bind_resolves hbind) hk
    rw [hplace]
    cases hresolves with
    | reference hfresh hname =>
      have hsame := hfresh.slotAmong?_eq hscopes hpending hinside
      cases hname with
      | slot hslot => exact .inl ⟨_, hsame.symm.trans hslot, rfl⟩
      | script hlocal hid hcompleted =>
        exact .inr ⟨hsame.symm.trans hlocal, hcompleted, _, hid, rfl⟩
      | host hlocal hglobal hnone => exact absurd hpending (hnone block (by simp [hscopes]))
  refine ⟨?_, hplaces⟩
  intro hlocal hglobal
  cases hcompile : compile p with
  | error error => exact ⟨error, rfl⟩
  | ok u =>
    obtain ⟨program, hbind, -⟩ := compile_eq_ok_iff.mp hcompile
    rcases hplaces program hbind with ⟨slot, hslot, -⟩ | ⟨-, hcompleted, -⟩
    · cases hlocal.symm.trans hslot
    · exact absurd hcompleted hglobal

/-- A program with a function that uses a name before its body declares it. -/
def earlyUse (params globals : List String) : Program where
  functions :=
    [{ name := "f"
       params
       body := .block [.discard (.call "print" [.var "x"]), .declare "x" none] }]
  statements := globals.map (.declare · none)

/-- Where the name is used: in the block that is still to declare it, inside the scope
of the parameters. -/
def earlyPoint (params : List (String × Nat)) (globals : List String) : Point where
  inner := { pending := ["x"] }
  outer := [{ declared := params }]
  completed := globals
  slots := params.length

/-- Where the name has no other meaning its use is an error, and where it is that of a script global
the use is one of the global. -/
theorem earlyUse_place :
    (∃ error, compile (earlyUse [] []) = .error error) ∧
    ∃ program, (earlyUse [] ["x"]).bind = .ok program ∧
      ∃ id, (earlyUse [] ["x"]).globalNames[id]? = some "x" ∧
        program.places[1]? = some (.script id) := by
  have hfirst : (earlyUse [] []).occurrences[0]? = some (.reference "x" (earlyPoint [] [])) := rfl
  have hsecond :
      (earlyUse [] ["x"]).occurrences[1]? = some (.reference "x" (earlyPoint [] ["x"])) := rfl
  have hscopes :
      ∀ globals, (earlyPoint [] globals).scopes = [] ++ ⟨[], ["x"]⟩ :: [⟨[], []⟩] := fun _ => rfl
  obtain ⟨hfails, -⟩ := pending_reference_place hfirst (hscopes []) List.mem_cons_self (by simp)
  obtain ⟨-, hplaces⟩ := pending_reference_place hsecond
    (hscopes ["x"]) List.mem_cons_self (by simp)
  refine ⟨hfails rfl (List.not_mem_nil), ?_⟩
  have hcompile :
      ((compile (earlyUse [] ["x"])).toOption.map fun u => u.functions.size) = some 1 := by
    decide +kernel
  obtain ⟨u, hu, -⟩ := exists_compile_eq_ok hcompile
  obtain ⟨program, hbind, -⟩ := compile_eq_ok_iff.mp hu
  rcases hplaces program hbind with ⟨slot, hslot, -⟩ | ⟨-, -, hid⟩
  · cases hslot
  · exact ⟨program, hbind, hid⟩

/-- Where the name is that of a parameter the program compiles, and the use is one of the parameter,
though the block is still to declare the name. -/
theorem earlyUse_of_parameter :
    (earlyUse ["x"] []).occurrences[0]? = some (.reference "x" (earlyPoint [("x", 0)] [])) ∧
    "x" ∈ (earlyPoint [("x", 0)] []).inner.pending ∧
    (earlyPoint [("x", 0)] []).inner.slot? "x" = none ∧
    (∃ u, compile (earlyUse ["x"] []) = .ok u) ∧
    (earlyUse ["x"] []).bind.toOption.map (·.places) = some [.slot 0, .slot 1] := by
  have hcompile :
      ((compile (earlyUse ["x"] [])).toOption.map fun u => u.functions.size) = some 1 := by
    decide +kernel
  obtain ⟨u, hu, -⟩ := exists_compile_eq_ok hcompile
  exact ⟨rfl, List.mem_cons_self, rfl, ⟨u, hu⟩, by decide +kernel⟩

end Pending

end HostScript
