import HostScript.Proofs.Binding.Signatures
import HostScript.Proofs.Semantics.Simulation
import HostScript.Proofs.Semantics.Storage

/-!
# Binding keeps the meaning of expressions

A bound expression is evaluated in step with the one it was bound from, as long as the variables
are in the slots of the scopes that it was bound in. An assignment to a variable changes its slot
or its script global.
-/

namespace HostScript

variable {σ : Type}

/-- Whether script globals by name and by number are the same. -/
structure SameGlobals (names : List String) (vars : GlobalVars) (globals : Array Value) : Prop where
  size_eq : globals.size = names.length
  value : ∀ (id : Nat) (name : String), names[id]? = some name → vars[name]? = globals[id]?
  absent : ∀ name : String, name ∉ names → vars[name]? = none

section Variables

variable {s : Signatures} {p : Program} {v : Visible} {slots : Slots} {env : Env}

theorem SameGlobals.id_lt {vars : GlobalVars} {globals : Array Value}
    (h : SameGlobals p.globalNames vars globals) (hglobals : s.HasGlobals p.globalNames)
    {name : String} {id : Nat} (hid : s.globals[name]? = some id) : id < globals.size := by
  rw [h.size_eq]
  exact (List.getElem?_eq_some_iff.mp ((hglobals.id_iff name id).mp hid)).1

/-- A script global has the value that it has under its number in the table. -/
theorem SameGlobals.lookup {vars : GlobalVars} {globals : Array Value}
    (h : SameGlobals p.globalNames vars globals) (hglobals : s.HasGlobals p.globalNames)
    (name : String) : vars[name]? = s.globals[name]?.bind fun id => globals[id]? := by
  cases hid : s.globals[name]? with
  | some id => exact h.value id name ((hglobals.id_iff name id).mp hid)
  | none =>
    refine h.absent name fun hname => ?_
    obtain ⟨id, hid'⟩ := List.mem_iff_getElem?.mp hname
    simp [(hglobals.id_iff name id).mpr hid'] at hid

/-- Assigning to a script global by name and by number keeps the globals the same. -/
theorem SameGlobals.insert {vars : GlobalVars} {globals : Array Value}
    (h : SameGlobals p.globalNames vars globals) (hglobals : s.HasGlobals p.globalNames)
    {name : String} {id : Nat} (hid : s.globals[name]? = some id) (value : Value) :
    SameGlobals p.globalNames (vars.insert name value) (globals.setIfInBounds id value) := by
  have hlt := h.id_lt hglobals hid
  have hname := (hglobals.id_iff name id).mp hid
  refine ⟨by simpa using h.size_eq, fun id' other hother => ?_, fun other hother => ?_⟩
  · by_cases heq : name = other
    · subst heq
      obtain rfl : id = id' :=
        Option.some.inj (hid.symm.trans ((hglobals.id_iff name id').mpr hother))
      simp [hlt]
    · have hne : id ≠ id' := by
        rintro rfl
        exact heq (Option.some.inj (hname.symm.trans hother))
      rw [getElem?_insert_of_ne heq, h.value id' other hother]
      simp [hne]
  · have hne : name ≠ other := by
      rintro rfl
      exact hother (List.mem_of_getElem? hname)
    rw [getElem?_insert_of_ne hne, h.absent other hother]

/-- What a name can be bound to: the slot of a visible name, else a script global, else a
global of the host. -/
theorem place_cases {name : String} {place : Place} (h : v.place s name = .ok place) :
    (∃ slot, slotOf? v.scopes.all name = some slot ∧ place = .slot slot) ∨
      (slotOf? v.scopes.all name = none ∧
        ((∃ id, s.globals[name]? = some id ∧ place = .script id) ∨
          (s.globals[name]? = none ∧ place = .host name))) := by
  rw [← Scopes.find?_eq_slotOf?]
  unfold Visible.place at h
  split at h
  next slot hfind => exact .inl ⟨slot, hfind, (Except.ok.inj h).symm⟩
  next hfind =>
    split at h
    next id hid =>
      split at h
      · exact .inr ⟨hfind, .inl ⟨id, hid, (Except.ok.inj h).symm⟩⟩
      · cases h
    next hnone =>
      split at h
      · cases h
      · exact .inr ⟨hfind, .inr ⟨hnone, (Except.ok.inj h).symm⟩⟩

/-- A variable is read in step with its place. -/
theorem readVar_inStep (hglobals : s.HasGlobals p.globalNames) (h : Stored slots v.scopes.all env)
    {name : String} {place : Place} (hplace : v.place s name = .ok place) :
    InStep (SameGlobals p.globalNames) Eq (readVar env name : Eval GlobalVars σ Value)
      (place.read slots) := by
  unfold readVar
  rw [h.lookup name]
  rcases place_cases hplace with ⟨slot, hslot, rfl⟩ | ⟨hslot, hother⟩
  · rw [hslot, Place.read, Slots.read, Option.bind_some,
      Array.getElem?_eq_getElem (h.slot_lt hslot)]
    exact InStep.pure rfl
  · rw [hslot]
    intro vars globals host hsame
    dsimp only [Option.bind_none]
    rw [hsame.lookup hglobals name]
    rcases hother with ⟨id, hid, rfl⟩ | ⟨hnone, rfl⟩
    · rw [hid, Option.bind_some, Place.read]
      dsimp only
      rw [Array.getElem?_eq_getElem (hsame.id_lt hglobals hid)]
      exact .ok hsame rfl
    · rw [hnone]
      exact InStep.readHost name vars globals host hsame

/-- What work in some scopes makes of variables and slots: those of the scopes after it are stored,
and the slots that were hidden from it are left as they were. -/
structure Leaves (before : Scopes) (slots : Slots) (after : List Scope) (env : Env)
    (slots' : Slots) : Prop where
  size_eq : slots'.size = slots.size
  hidden : ∀ n, before.Hidden n → slots'[n]? = slots[n]?
  stored : Stored slots' after env

/-- A variable is written in step with its place. -/
theorem writeVar_inStep (hglobals : s.HasGlobals p.globalNames) (hsound : v.scopes.Sound)
    (h : Stored slots v.scopes.all env) {name : String} {place : Place}
    (hplace : v.place s name = .ok place) (value : Value) :
    InStep (SameGlobals p.globalNames) (Leaves v.scopes slots v.scopes.all)
      (writeVar env name value : Eval GlobalVars σ Env) (place.write slots value) := by
  have hsame : Leaves v.scopes slots v.scopes.all env slots := ⟨rfl, fun _ _ => rfl, h⟩
  unfold writeVar
  rw [h.lookup name]
  rcases place_cases hplace with ⟨slot, hslot, rfl⟩ | ⟨hslot, hother⟩
  · have hlt := h.slot_lt hslot
    rw [hslot, Place.write, Slots.write, Option.bind_some,
      Array.getElem?_eq_getElem hlt, if_pos hlt]
    refine InStep.pure ⟨by simp, fun n hn => ?_, h.assign hsound.stacked hslot value⟩
    obtain ⟨scope, hscope, hname⟩ := List.exists_of_findSome?_eq_some hslot
    have hne : slot ≠ n := by
      rintro rfl
      exact hn.2 ⟨scope, hscope, name, hname⟩
    simp [hne]
  · rw [hslot]
    rcases hother with ⟨id, hid, rfl⟩ | ⟨hnone, rfl⟩
    · intro vars globals host hsame'
      have hlt := hsame'.id_lt hglobals hid
      dsimp only [Option.bind_none]
      rw [hsame'.lookup hglobals name, hid, Option.bind_some, Place.write]
      dsimp only
      rw [Array.getElem?_eq_getElem hlt, if_pos hlt]
      exact .ok (hsame'.insert hglobals hid value) hsame
    · intro vars globals host hsame'
      dsimp only [Option.bind_none]
      rw [hsame'.lookup hglobals name, hnone]
      exact (InStep.writeHost name value).bind (fun _ _ _ => InStep.pure hsame) vars
        globals host hsame'

end Variables

section Expressions

variable {s : Signatures} {p : Program} {v : Visible} {slots : Slots} {env : Env}
  {call : Calls GlobalVars σ} {call' : Calls (Array Value) σ}

/-- Whether evaluation by name and by number have the same functions and globals, and call the
functions in step. -/
structure Linked (s : Signatures) (p : Program) (call : Calls GlobalVars σ)
    (call' : Calls (Array Value) σ) : Prop where
  functions : s.HasFunctions p.functions
  globals : s.HasGlobals p.globalNames
  calls : CallsInStep (SameGlobals p.globalNames) call call'

/-- A function is found in the program under the number that it has in the table. -/
theorem findIdx?_eq_id (hfunctions : s.HasFunctions p.functions) (name : String) :
    p.functions.findIdx? (·.name == name) = s.functions[name]?.map (·.id) := by
  -- A function of that name has the number that the table gives.
  have hid : ∀ (k : Nat) (hk : k < p.functions.length), p.functions[k].name = name →
      s.functions[name]? = some ⟨k, p.functions[k].params.length⟩ := fun k hk hname =>
    (hfunctions name ⟨k, _⟩).mpr ⟨_, List.getElem?_eq_getElem hk, hname, rfl⟩
  cases hsignature : s.functions[name]? with
  | some signature =>
    obtain ⟨f, hf, hname, -⟩ := (hfunctions name signature).mp hsignature
    obtain ⟨hlt, rfl⟩ := List.getElem?_eq_some_iff.mp hf
    refine List.findIdx?_eq_some_iff_getElem.mpr ⟨hlt, by simpa using hname, fun j hj hother => ?_⟩
    have hsame := (hid j (Nat.lt_trans hj hlt) (by simpa using hother)).symm.trans hsignature
    exact Nat.ne_of_lt hj (congrArg Signature.id (Option.some.inj hsame))
  | none =>
    refine List.findIdx?_eq_none_iff.mpr fun f hf => ?_
    obtain ⟨k, hk, rfl⟩ := List.mem_iff_getElem.mp hf
    have hne : p.functions[k].name ≠ name := fun hname => by simp [hid k hk hname] at hsignature
    simpa using hne

mutual

/-- A bound expression is evaluated in step with the expression it was bound from. -/
theorem bindExpr_inStep (hlinked : Linked s p call call') (h : Stored slots v.scopes.all env) :
    (x : Expr) → (b : Bound.Expr) → bindExpr s v x = .ok b →
      InStep (SameGlobals p.globalNames) Eq (x.eval p.functions call env) (b.eval call' slots)
  | .var name, _, hbind => by
    obtain ⟨place, hplace, rfl⟩ := bindExpr_var.mp hbind
    rw [Expr.eval, Bound.Expr.eval]
    exact readVar_inStep hlinked.globals h hplace
  | .number value, _, hbind => by
    obtain rfl := bindExpr_number.mp hbind
    rw [Expr.eval, Bound.Expr.eval]
    exact InStep.pure rfl
  | .string value, _, hbind => by
    obtain rfl := bindExpr_string.mp hbind
    rw [Expr.eval, Bound.Expr.eval]
    exact InStep.pure rfl
  | .array items, _, hbind => by
    obtain ⟨-, bs, hitems, rfl⟩ := bindExpr_array.mp hbind
    rw [Expr.eval, Bound.Expr.eval]
    exact (bindExprs_inStep hlinked h items bs hitems).bind_eq fun _ => InStep.pure rfl
  | .index base position, _, hbind => by
    obtain ⟨b₁, b₂, hbase, hposition, rfl⟩ := bindExpr_index.mp hbind
    rw [Expr.eval, Bound.Expr.eval]
    refine (bindExpr_inStep hlinked h base b₁ hbase).bind_eq fun array => ?_
    exact (bindExpr_inStep hlinked h position b₂ hposition).bind_eq fun index => InStep.lift _
  | .call function args, _, hbind => by
    rw [Expr.eval, findIdx?_eq_id hlinked.functions]
    cases hsignature : s.functions[function]? with
    | some signature =>
      obtain ⟨-, -, bs, hargs, rfl⟩ := (bindExpr_call_script hsignature).mp hbind
      rw [Bound.Expr.eval]
      exact (bindExprs_inStep hlinked h args bs hargs).bind_eq fun values =>
        hlinked.calls signature.id values.toArray
    | none =>
      obtain ⟨-, bs, hargs, rfl⟩ := (bindExpr_call_native hsignature).mp hbind
      rw [Bound.Expr.eval]
      exact (bindExprs_inStep hlinked h args bs hargs).bind_eq fun values =>
        InStep.callNative hlinked.calls function values.toArray
  | .method object name args, _, hbind => by
    obtain ⟨b₁, hobject, -, bs, hargs, rfl⟩ := bindExpr_method.mp hbind
    rw [Expr.eval, Bound.Expr.eval]
    refine (bindExpr_inStep hlinked h object b₁ hobject).bind_eq fun value => ?_
    exact (bindExprs_inStep hlinked h args bs hargs).bind_eq fun values =>
      InStep.callMethod hlinked.calls value name values.toArray
  | .unary op operand, _, hbind => by
    obtain ⟨b₁, hoperand, rfl⟩ := bindExpr_unary.mp hbind
    rw [Expr.eval, Bound.Expr.eval]
    exact (bindExpr_inStep hlinked h operand b₁ hoperand).bind_eq fun value => InStep.lift _
  | .binary op lhs rhs, _, hbind => by
    obtain ⟨b₁, b₂, hlhs, hrhs, rfl⟩ := bindExpr_binary.mp hbind
    have hleft := bindExpr_inStep hlinked h lhs b₁ hlhs
    have hright := bindExpr_inStep hlinked h rhs b₂ hrhs
    rw [Expr.eval]
    cases op with
    | and =>
      change InStep _ _ _ (Bound.Expr.eval call' slots (.connect .and b₁ b₂))
      rw [Bound.Expr.eval]
      refine hleft.bind_eq fun left => ?_
      cases left.isTruthy with
      | true => exact hright.bind_eq fun right => InStep.pure rfl
      | false => exact InStep.pure rfl
    | or =>
      change InStep _ _ _ (Bound.Expr.eval call' slots (.connect .or b₁ b₂))
      rw [Bound.Expr.eval]
      refine hleft.bind_eq fun left => ?_
      cases left.isTruthy with
      | true => exact InStep.pure rfl
      | false => exact hright.bind_eq fun right => InStep.pure rfl
    | _ =>
      change InStep _ _ _ (Bound.Expr.eval call' slots (.strict _ b₁ b₂))
      rw [Bound.Expr.eval]
      exact hleft.bind_eq fun left => hright.bind_eq fun right => InStep.lift _
termination_by structural x => x

/-- Bound expressions are evaluated in step with those they were bound from. -/
theorem bindExprs_inStep (hlinked : Linked s p call call') (h : Stored slots v.scopes.all env) :
    (xs : List Expr) → (bs : List Bound.Expr) → bindExprs s v [] xs = .ok bs →
      InStep (SameGlobals p.globalNames) Eq (Expr.evalAll p.functions call env xs)
        (Bound.Expr.evalAll call' slots bs)
  | [], _, hbind => by
    obtain rfl := bindExprs_nil.mp hbind
    rw [Expr.evalAll, Bound.Expr.evalAll]
    exact InStep.pure rfl
  | x :: xs, _, hbind => by
    obtain ⟨b, bs, hx, hxs, rfl⟩ := bindExprs_cons.mp hbind
    rw [Expr.evalAll, Bound.Expr.evalAll]
    refine (bindExpr_inStep hlinked h x b hx).bind_eq fun value => ?_
    exact (bindExprs_inStep hlinked h xs bs hxs).bind_eq fun values => InStep.pure rfl
termination_by structural xs => xs

end

/-- A bound target is stored into in step with the left side it was bound from. -/
theorem bindTarget_inStep (hlinked : Linked s p call call') (hsound : v.scopes.Sound)
    (h : Stored slots v.scopes.all env) :
    (x : Expr) → (t : Bound.Target) → bindTarget s v x = .ok t → (value : Value) →
      InStep (SameGlobals p.globalNames) (Leaves v.scopes slots v.scopes.all)
        (x.store p.functions call env value) (t.store call' slots value)
  | .var name, _, hbind, value => by
    obtain ⟨place, hplace, rfl⟩ := bindTarget_var.mp hbind
    rw [Expr.store, Bound.Target.store]
    exact writeVar_inStep hlinked.globals hsound h hplace value
  | .index base position, _, hbind, value => by
    obtain ⟨t, b, hbase, hposition, rfl⟩ := bindTarget_index.mp hbind
    rw [Expr.store, Bound.Target.store]
    refine (bindExpr_inStep hlinked h base t.read (bindTarget_read hbase)).bind_eq fun array => ?_
    refine (bindExpr_inStep hlinked h position b hposition).bind_eq fun index => ?_
    exact (InStep.lift _).bind_eq fun changed =>
      bindTarget_inStep hlinked hsound h base t hbase changed

/-- A bound initial value is evaluated in step with the one it was bound from. -/
theorem bindInitial_inStep (hlinked : Linked s p call call') (h : Stored slots v.scopes.all env)
    {initial : Option Expr} {b : Bound.Expr} (hbind : bindInitial s v initial = .ok b) :
    InStep (SameGlobals p.globalNames) Eq (evalInitial p.functions call env initial)
      (b.eval call' slots) := by
  cases initial with
  | none =>
    obtain rfl := Except.ok.inj hbind
    rw [Bound.Expr.eval]
    exact InStep.pure rfl
  | some value => exact bindExpr_inStep hlinked h value b hbind

end Expressions

end HostScript
