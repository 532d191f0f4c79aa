import HostScript.Proofs.Semantics.Expressions

/-!
# Binding keeps the meaning of statements

A bound statement is evaluated in step with the one it was bound from. It leaves the variables in
the slots of the scopes after it, and the hidden slots as they were, which is what a loop over an
array relies on for its array and its cursor.
-/

namespace HostScript

variable {σ : Type}

section Scopes

variable {v v₁ v₂ : Visible} {slots slots₁ slots₂ : Slots} {env : Env} {scopes : List Scope}

/-- The scopes around a scope that is left are those that were open before it. -/
theorem Scopes.Inside.all_leave {s t : Scopes} (h : s.enter.Inside t) : t.leave.all = s.all := by
  rw [h.leave]
  rfl

/-- The variables around the innermost scope are in the slots of the scopes around it. -/
theorem Stored.leave {s : Scopes} (h : Stored slots s.all env) :
    Stored slots s.outer env.leave := by
  obtain ⟨vars, rest, -, hrest, rfl⟩ := List.forall₂_cons_left_iff.mp h
  exact hrest

/-- Announcing names uncovers nothing. -/
theorem Scopes.Hidden.announceAll {n : Nat} (h : v.scopes.Hidden n) (statements : List Stmt) :
    (v.announceAll statements).scopes.Hidden n := by
  unfold Visible.announceAll
  induction statements generalizing v with
  | nil => exact h
  | cons stmt rest ih =>
    rw [List.foldl_cons]
    cases stmt.declared? with
    | none => exact ih h
    | some name => exact ih (h.announce name)

/-- Announcing names declares nothing. -/
theorem stored_announceAll (h : Stored slots v.scopes.all env) (statements : List Stmt) :
    Stored slots (v.announceAll statements).scopes.all env := by
  unfold Visible.announceAll
  induction statements generalizing v with
  | nil => exact h
  | cons stmt rest ih =>
    rw [List.foldl_cons]
    cases stmt.declared? with
    | none => exact ih h
    | some name => exact ih (Scopes.stored_announce h name)

/-- What is hidden from a statement is hidden from those that follow it. -/
theorem bindStmt_hidden {around : Surroundings} {inLoop : Bool} {stmt : Stmt} {b : Bound.Stmt}
    (hbind : bindStmt around inLoop v stmt = .ok (b, v₁)) {n : Nat} (h : v.scopes.Hidden n) :
    v₁.scopes.Hidden n := by
  have hafter : (v.after around stmt).scopes.Hidden n := by
    unfold Visible.after
    cases stmt.declared? with
    | none => exact h
    | some name =>
      dsimp only
      cases around.global? v name with
      | some id => exact h
      | none => exact (h.announce name).extend name
  rw [(bindStmt_rises hbind).eq]
  exact hafter.of_names rfl rfl (Nat.le_refl _)

namespace Leaves

theorem refl {before : Scopes} (h : Stored slots scopes env) :
    Leaves before slots scopes env slots :=
  ⟨rfl, fun _ _ => rfl, h⟩

/-- Work that follows other work leaves alone what is hidden from both. -/
theorem trans {before before' : Scopes} {scopes' : List Scope} {env' : Env}
    (h : Leaves before slots scopes env slots₁) (h' : Leaves before' slots₁ scopes' env' slots₂)
    (hhidden : ∀ n, before.Hidden n → before'.Hidden n) : Leaves before slots scopes' env' slots₂ :=
  ⟨h'.size_eq.trans h.size_eq, fun n hn => (h'.hidden n (hhidden n hn)).trans (h.hidden n hn),
    h'.stored⟩

/-- Work in a scope that is opened for it and left again. -/
theorem leave (hproceeds : v.enter.Proceeds v₁)
    (h : Leaves v.enter.scopes slots v₁.scopes.all env slots₁) :
    Leaves v.scopes slots v₁.leave.scopes.all env.leave slots₁ := by
  refine ⟨h.size_eq, fun n hn => h.hidden n hn.enter, ?_⟩
  have hstored := h.stored.leave
  rw [hproceeds.inside.outer_eq] at hstored
  rw [Visible.leave, hproceeds.inside.all_leave]
  exact hstored

end Leaves

end Scopes

section Turns

variable {v v₂ : Visible} {slots slots₁ slots₂ : Slots} {env env₁ env₂ : Env} {value : Value}
  {k : Nat} {name : String} {item : Value}

theorem Slots.write_of_lt {γ : Type} {n : Nat} (h : n < slots.size) (value : Value) :
    (slots.write n value : Eval γ σ Slots) = pure (slots.setIfInBounds n value) :=
  if_pos h

/-- What holds before each turn of a loop over an array, besides what the variables need: the array
and the cursor are in their slots. -/
structure BeforeTurn (v : Visible) (slots : Slots) (value : Value) (k : Nat) (env : Env)
    (slots₁ : Slots) : Prop where
  leaves : Leaves v.scopes slots v.scopes.all env slots₁
  array : slots₁[v.scopes.next]? = some value
  cursor : slots₁[v.scopes.next + 1]? = some (.number (Number.counted k))

/-- The cursor points to the item of the turn. -/
theorem BeforeTurn.nextItem_eq (h : BeforeTurn v slots value k env slots₁) :
    (Bound.nextItem slots₁ v.scopes.next (v.scopes.next + 1) : Eval (Array Value) σ _) =
      Eval.lift ((itemOf k value).map fun found => found.map fun item =>
        (item, slots₁.setIfInBounds (v.scopes.next + 1) (.number (Number.counted (k + 1))))) := by
  have hcursor := (Array.getElem?_eq_some_iff.mp h.cursor).1
  unfold Bound.nextItem Slots.read
  rw [h.array, h.cursor, pure_bind]
  dsimp only
  rw [pure_bind, Number.count_counted, Slots.write_of_lt hcursor]
  cases value with
  | array items =>
    unfold itemOf
    dsimp only
    cases items[min k Number.countingLimit]? <;> rfl
  | _ => rfl

/-- The slots when a loop over an array starts. -/
theorem beforeTurn_zero (hsound : v.scopes.Sound) (h : Stored slots v.scopes.all env)
    (hroom : v.scopes.next + 1 < slots.size) (value : Value) :
    BeforeTurn v slots value 0 env
      ((slots.setIfInBounds v.scopes.next value).setIfInBounds (v.scopes.next + 1)
        (.number 0.0)) := by
  have hkept : ∀ n, n < v.scopes.next →
      ((slots.setIfInBounds v.scopes.next value).setIfInBounds (v.scopes.next + 1)
          (.number 0.0))[n]? =
        slots[n]? := by
    intro n hn
    have hcursor : v.scopes.next + 1 ≠ n := by omega
    have harray : v.scopes.next ≠ n := by omega
    simp [hcursor, harray]
  refine ⟨⟨by simp, fun n hn => hkept n hn.1,
      h.congr (by simp) fun n hn => hkept n (hsound.named_lt hn)⟩, ?_, ?_⟩
  · have hlt : v.scopes.next < slots.size := Nat.lt_of_succ_lt hroom
    simp [hlt]
  · simp [hroom, Number.counted]

/-- The slots when the body of a loop over an array starts a turn. -/
def turnSlots (v : Visible) (slots : Slots) (k : Nat) (item : Value) : Slots :=
  (slots.setIfInBounds (v.scopes.next + 1) (.number (Number.counted (k + 1)))).setIfInBounds
    (v.scopes.next + 2) item

theorem size_turnSlots : (turnSlots v slots k item).size = slots.size := by
  simp [turnSlots]

/-- Slots below those of the loop are as they were before the turn. -/
theorem getElem?_turnSlots {n : Nat} (h : n ≤ v.scopes.next) :
    (turnSlots v slots k item)[n]? = slots[n]? := by
  have hcursor : v.scopes.next + 1 ≠ n := by omega
  have hitem : v.scopes.next + 2 ≠ n := by omega
  simp [turnSlots, hcursor, hitem]

/-- The cursor is past the item of the turn. -/
theorem getElem?_turnSlots_cursor (h : v.scopes.next + 1 < slots.size) :
    (turnSlots v slots k item)[v.scopes.next + 1]? = some (.number (Number.counted (k + 1))) := by
  simp [turnSlots, h]

/-- The body of a loop over an array finds the item of the turn in its variable. -/
theorem stored_turnSlots (hsound : v.scopes.Sound) (h : Stored slots v.scopes.all env)
    (hroom : v.scopes.next + 2 < slots.size) (hlimit : v.scopes.next + 2 < countLimit) :
    Stored (turnSlots v slots k item) (v.forHeader name).scopes.all
      (env.enter.declare name item) := by
  have hsound' : v.scopes.enter.grow.grow.Sound :=
    (hsound.enter.grow (Nat.lt_trans (Nat.lt_add_of_pos_right (by decide)) hlimit)).grow
      (Nat.lt_of_succ_lt hlimit)
  have hcursor : Stored (slots.setIfInBounds (v.scopes.next + 1) (.number (Number.counted (k + 1))))
      v.scopes.all env := by
    refine h.congr (by simp) fun n hn => ?_
    have hne : v.scopes.next + 1 ≠ n := by
      have hlt := hsound.named_lt hn
      omega
    simp [hne]
  have hitem : v.scopes.enter.grow.grow.next <
      (slots.setIfInBounds (v.scopes.next + 1) (.number (Number.counted (k + 1)))).size := by
    rw [Array.size_setIfInBounds]
    exact hroom
  exact Scopes.stored_extend hsound' (Scopes.stored_of_names (Scopes.stored_enter hcursor) rfl rfl)
    name item hitem

/-- A turn leaves the array alone and the cursor where the next turn needs it. -/
theorem BeforeTurn.next (h : BeforeTurn v slots value k env slots₁) (hsound : v.scopes.Sound)
    (hroom : v.scopes.next + 2 < slots₁.size) (hlimit : v.scopes.next + 2 < countLimit)
    (hproceeds : (v.forHeader name).enter.Proceeds v₂)
    (hbody : Leaves (v.forHeader name).enter.scopes (turnSlots v slots₁ k item) v₂.scopes.all env₂
      slots₂) : BeforeTurn v slots value (k + 1) env₂.leave.leave slots₂ := by
  have hfirst : v.scopes.enter.grow.Sound :=
    hsound.enter.grow (Nat.lt_trans (Nat.lt_add_of_pos_right (by decide)) hlimit)
  -- The slots of the array and the cursor have no name, so that the body cannot write them.
  have harray : (v.forHeader name).enter.scopes.Hidden v.scopes.next :=
    (hsound.enter.hidden_grow.grow.extend name).enter
  have hcursor : (v.forHeader name).enter.scopes.Hidden (v.scopes.next + 1) :=
    (hfirst.hidden_grow.extend name).enter
  refine ⟨⟨?_, fun n hn => ?_, ?_⟩, ?_, ?_⟩
  · rw [hbody.size_eq, size_turnSlots, h.leaves.size_eq]
  · have hbelow : (v.forHeader name).enter.scopes.Hidden n :=
      (hn.enter.grow.grow.extend name).enter
    rw [hbody.hidden n hbelow, getElem?_turnSlots (Nat.le_of_lt hn.1), h.leaves.hidden n hn]
  · have hstored := hbody.stored.leave
    rw [hproceeds.inside.outer_eq] at hstored
    exact Stored.leave hstored
  · rw [hbody.hidden _ harray, getElem?_turnSlots (Nat.le_refl _), h.array]
  · rw [hbody.hidden _ hcursor, getElem?_turnSlots_cursor (Nat.lt_of_succ_lt hroom)]

end Turns

section Statements

variable {around : Surroundings} {p : Program} {call : Calls GlobalVars σ}
  {call' : Calls (Array Value) σ}

/-- A local declaration is evaluated in step with the store into the slot of its name. -/
theorem bindDeclaration_inStep (hlinked : Linked around.signatures p call call') {v v' : Visible}
    {slots : Slots} {env : Env} {name : String} {initial : Option Expr} {b : Bound.Stmt}
    (fuel : Nat) (hbind : bindDeclaration around v name initial = .ok (b, v'))
    (hlocal : around.global? v name = none) (hsound : v.scopes.Sound)
    (hpeak : v'.scopes.peak ≤ slots.size) (h : Stored slots v.scopes.all env) :
    InStep (SameGlobals p.globalNames)
      (fun r r' => r.1 = r'.1 ∧ Leaves v.scopes slots v'.scopes.all r.2 r'.2)
      ((Stmt.declare name initial).exec p.functions call fuel env) (b.exec call' fuel slots) := by
  obtain ⟨b, hinitial, -, -, hr⟩ := (bindDeclaration_local hlocal).mp hbind
  obtain ⟨rfl, rfl⟩ := Prod.mk.inj hr
  have hannounced : Stored slots (v.announce name).scopes.all env := Scopes.stored_announce h name
  have hnext : (v.scopes.announce name).next < slots.size :=
    Nat.lt_of_lt_of_le (Nat.le_max_right _ _) hpeak
  rw [Stmt.exec, Bound.Stmt.exec]
  refine (bindInitial_inStep hlinked hannounced hinitial).bind_eq fun value => ?_
  rw [Bound.Target.store, Place.write, ← Scopes.next_announce v.scopes name,
    Slots.write_of_lt hnext, pure_bind]
  refine InStep.pure
    ⟨rfl, by simp, fun n hn => ?_,
    Scopes.stored_extend (hsound.announce name) hannounced name value hnext⟩
  have hne : v.scopes.next ≠ n := Nat.ne_of_gt hn.1
  simp [hne]

/-- What is evaluated in a scope of its own stays in step when the scope is left. -/
theorem scoped_inStep {v v₁ : Visible} {slots : Slots} {x : Eval GlobalVars σ (Signal × Env)}
    {y : Eval (Array Value) σ (Signal × Slots)} (hproceeds : v.enter.Proceeds v₁)
    (h : InStep (SameGlobals p.globalNames)
      (fun r r' => r.1 = r'.1 ∧ Leaves v.enter.scopes slots v₁.scopes.all r.2 r'.2) x y) :
    InStep (SameGlobals p.globalNames)
      (fun r r' => r.1 = r'.1 ∧ Leaves v.scopes slots v₁.leave.scopes.all r.2 r'.2)
      (x >>= fun r => pure (r.1, r.2.leave)) y :=
  h.bind_left fun _ _ ⟨hsignal, hleaves⟩ => ⟨_, rfl, hsignal, hleaves.leave hproceeds⟩

/-- From any slots with room for it, a body is evaluated in step with the one it was bound from. -/
def RunsInStep (p : Program) (call : Calls GlobalVars σ) (call' : Calls (Array Value) σ)
    (fuel : Nat) (v v' : Visible) (body : Stmt) (b : Bound.Stmt) : Prop :=
  ∀ slots env, v'.scopes.peak ≤ slots.size → Stored slots v.scopes.all env →
    InStep (SameGlobals p.globalNames)
      (fun r r' => r.1 = r'.1 ∧ Leaves v.scopes slots v'.scopes.all r.2 r'.2)
      (body.exec p.functions call fuel env) (b.exec call' fuel slots)

/-- A loop with a condition is evaluated in step with its bound form when its body is. -/
theorem whileLoop_inStep (hlinked : Linked around.signatures p call call') {v v₂ : Visible}
    {slots : Slots} {env : Env} {fuel : Nat} {condition : Expr} {body : Stmt} {b₁ : Bound.Expr}
    {b₂ : Bound.Stmt} (hcondition : bindExpr around.signatures v condition = .ok b₁)
    (hproceeds : v.enter.Proceeds v₂) (hpeak : v₂.scopes.peak ≤ slots.size)
    (h : Stored slots v.scopes.all env) (hbody : RunsInStep p call call' fuel v.enter v₂ body b₂) :
    InStep (SameGlobals p.globalNames)
      (fun r r' => r.1 = r'.1 ∧ Leaves v.scopes slots v₂.leave.scopes.all r.2 r'.2)
      ((Stmt.whileLoop condition body).exec p.functions call fuel env)
      ((Bound.Stmt.whileLoop b₁ b₂).exec call' fuel slots) := by
  have hall : v₂.leave.scopes.all = v.scopes.all := hproceeds.inside.all_leave
  rw [Stmt.exec, Bound.Stmt.exec]
  refine InStep.loop (fun _ => Leaves v.scopes slots v.scopes.all)
    (fun _ => Leaves v.scopes slots v₂.leave.scopes.all)
    (fun _ env₁ slots₁ hbefore => ?_) fuel 0 (Leaves.refl h)
  refine (bindExpr_inStep hlinked hbefore.stored condition b₁ hcondition).bind_eq fun value => ?_
  cases value.isTruthy with
  | false => exact InStep.pure (.finish (hall ▸ hbefore))
  | true =>
    refine (hbody slots₁ env₁.enter (hbefore.size_eq ▸ hpeak)
        (Scopes.stored_enter hbefore.stored)).bind ?_
    rintro ⟨signal, env₂⟩ ⟨_, slots₂⟩ ⟨rfl, hturn⟩
    have hleaves := hbefore.trans (hturn.leave hproceeds) fun _ hn => hn
    exact InStep.pure (Signal.turn_alike (hall ▸ hleaves) (fun _ => hleaves) signal)

/-- A loop over an array is evaluated in step with its bound form when its body is. -/
theorem forLoop_inStep (hlinked : Linked around.signatures p call call') {v v₂ : Visible}
    {slots : Slots} {env : Env} {fuel : Nat} {name : String} {source : Expr} {body : Stmt}
    {b₁ : Bound.Expr} {b₂ : Bound.Stmt} (hsource : bindExpr around.signatures v source = .ok b₁)
    (hlimit : v.scopes.next + 2 < countLimit)
    (hproceeds : (v.forHeader name).enter.Proceeds v₂) (hsound : v.scopes.Sound)
    (hpeak : v₂.scopes.peak ≤ slots.size) (h : Stored slots v.scopes.all env)
    (hbody : RunsInStep p call call' fuel (v.forHeader name).enter v₂ body b₂) :
    InStep (SameGlobals p.globalNames)
      (fun r r' => r.1 = r'.1 ∧ Leaves v.scopes slots v₂.leave.leave.scopes.all r.2 r'.2)
      ((Stmt.forLoop name source body).exec p.functions call fuel env)
      ((Bound.Stmt.forLoop v.scopes.next (v.scopes.next + 1) (v.scopes.next + 2) b₁ b₂).exec call'
        fuel slots) := by
  have hheader := Visible.proceeds_forHeader name hlimit
  have hall : v₂.leave.leave.scopes.all = v.scopes.all :=
    (hheader.trans hproceeds.leave).inside.all_leave
  have hroom : v.scopes.next + 2 < slots.size :=
    Nat.lt_of_lt_of_le (Nat.lt_of_lt_of_le (Nat.le_max_right _ _) hproceeds.inside.peak_le) hpeak
  rw [Stmt.exec, Bound.Stmt.exec]
  refine (bindExpr_inStep hlinked h source b₁ hsource).bind_eq fun value => ?_
  rw [Slots.write_of_lt (by omega), pure_bind,
    Slots.write_of_lt (by simpa using Nat.lt_of_succ_lt hroom), pure_bind]
  refine InStep.loop (BeforeTurn v slots value)
    (fun _ => Leaves v.scopes slots v₂.leave.leave.scopes.all) (fun k env₁ slots₁ hbefore => ?_)
    fuel 0 (beforeTurn_zero hsound h (Nat.lt_of_succ_lt hroom) value)
  have hroom₁ : v.scopes.next + 2 < slots₁.size := by
    rw [hbefore.leaves.size_eq]
    exact hroom
  rw [hbefore.nextItem_eq]
  cases itemOf k value with
  | error fault => exact InStep.fail fault
  | ok found =>
    cases found with
    | none => exact InStep.pure (.finish (hall ▸ hbefore.leaves))
    | some item =>
      change InStep _ _ (body.exec _ _ _ _ >>= _) (Slots.write _ _ _ >>= _)
      rw [Slots.write_of_lt (by simpa using hroom₁), pure_bind]
      refine (hbody (turnSlots v slots₁ k item) _ ?_
        (Scopes.stored_enter (stored_turnSlots hsound hbefore.leaves.stored hroom₁ hlimit))).bind ?_
      · rw [size_turnSlots, hbefore.leaves.size_eq]
        exact hpeak
      · rintro ⟨signal, env₂⟩ ⟨_, slots₂⟩ ⟨rfl, hturn⟩
        have hnext := hbefore.next hsound hroom₁ hlimit hproceeds hturn
        exact InStep.pure (Signal.turn_alike hnext (fun _ => hall ▸ hnext.leaves) signal)

mutual

/-- A bound statement is evaluated in step with the statement it was bound from. -/
theorem bindStmt_inStep (hlinked : Linked around.signatures p call call') (fuel : Nat) :
    (inLoop : Bool) → (v v' : Visible) → (slots : Slots) → (env : Env) → (stmt : Stmt) →
      (b : Bound.Stmt) →
      bindStmt around inLoop v stmt = .ok (b, v') →
      (∀ name ∈ stmt.declared?, around.global? v name = none) →
      v.scopes.Sound → v'.scopes.peak ≤ slots.size → Stored slots v.scopes.all env →
      InStep (SameGlobals p.globalNames)
        (fun r r' => r.1 = r'.1 ∧ Leaves v.scopes slots v'.scopes.all r.2 r'.2)
        (stmt.exec p.functions call fuel env) (b.exec call' fuel slots)
  | inLoop, v, _, slots, env, .assign target value, _, hbind, _, hsound, _, h => by
    obtain ⟨-, b, t, hvalue, htarget, hr⟩ := bindStmt_assign.mp hbind
    obtain ⟨rfl, rfl⟩ := Prod.mk.inj hr
    rw [Stmt.exec, Bound.Stmt.exec]
    refine (bindExpr_inStep hlinked h value b hvalue).bind_eq fun assigned => ?_
    exact (bindTarget_inStep hlinked hsound h target t htarget assigned).bind fun _ _ hleaves =>
      InStep.pure ⟨rfl, hleaves⟩
  | inLoop, v, _, slots, env, .returnVoid, _, hbind, _, _, _, h => by
    obtain ⟨rfl, rfl⟩ := Prod.mk.inj (bindStmt_returnVoid.mp hbind)
    rw [Stmt.exec, Bound.Stmt.exec]
    exact InStep.pure ⟨rfl, Leaves.refl h⟩
  | inLoop, v, _, slots, env, .returnValue value, _, hbind, _, _, _, h => by
    obtain ⟨b, hvalue, hr⟩ := bindStmt_returnValue.mp hbind
    obtain ⟨rfl, rfl⟩ := Prod.mk.inj hr
    rw [Stmt.exec, Bound.Stmt.exec]
    exact (bindExpr_inStep hlinked h value b hvalue).bind_eq
      fun _ => InStep.pure ⟨rfl, Leaves.refl h⟩
  | inLoop, v, _, slots, env, .whileLoop condition body, _, hbind, _, hsound, hpeak, h => by
    obtain ⟨b₁, b₂, v₂, hcondition, hbody, hr⟩ := bindStmt_whileLoop.mp hbind
    obtain ⟨rfl, rfl⟩ := Prod.mk.inj hr
    rw [Visible.leave, Scopes.peak_leave] at hpeak
    exact whileLoop_inStep hlinked hcondition
      (bindStmt_proceeds around true v.enter v₂ body b₂ hbody) hpeak h
      fun slots₁ env₁ => bindStmt_inStep hlinked fuel true v.enter v₂ slots₁ env₁ body b₂ hbody
        (fun name _ => global?_enter around v name) hsound.enter
  | inLoop, v, _, slots, env, .forLoop name source body, _, hbind, _, hsound, hpeak, h => by
    obtain ⟨b₁, b₂, v₂, hsource, hlimit, hbody, hr⟩ := bindStmt_forLoop.mp hbind
    obtain ⟨rfl, rfl⟩ := Prod.mk.inj hr
    have hheader : (v.forHeader name).scopes.Sound :=
      (Visible.proceeds_forHeader name hlimit).sound hsound.enter
    rw [Visible.leave, Scopes.peak_leave, Visible.leave, Scopes.peak_leave] at hpeak
    exact forLoop_inStep hlinked hsource hlimit
      (bindStmt_proceeds around true (v.forHeader name).enter v₂ body b₂ hbody) hsound hpeak h
      fun slots₁ env₁ =>
        bindStmt_inStep hlinked fuel true (v.forHeader name).enter v₂ slots₁ env₁ body b₂ hbody
          (fun name _ => global?_enter around _ name) hheader.enter
  | inLoop, v, _, slots, env, .ifThen condition body, _, hbind, _, hsound, hpeak, h => by
    obtain ⟨b₁, b₂, v₂, hcondition, hbody, hr⟩ := bindStmt_ifThen.mp hbind
    obtain ⟨rfl, rfl⟩ := Prod.mk.inj hr
    have hproceeds := bindStmt_proceeds around inLoop v.enter v₂ body b₂ hbody
    have hall : v₂.leave.scopes.all = v.scopes.all := hproceeds.inside.all_leave
    rw [Visible.leave, Scopes.peak_leave] at hpeak
    rw [Stmt.exec, Bound.Stmt.exec]
    refine (bindExpr_inStep hlinked h condition b₁ hcondition).bind_eq fun value => ?_
    cases value.isTruthy with
    | false => exact InStep.pure ⟨rfl, hall ▸ Leaves.refl h⟩
    | true =>
      exact scoped_inStep hproceeds
        (bindStmt_inStep hlinked fuel inLoop v.enter v₂ slots env.enter body b₂ hbody
          (fun name _ => global?_enter around v name) hsound.enter hpeak (Scopes.stored_enter h))
  | inLoop, v, _, slots, env, .ifElse condition body otherwise, _, hbind, _, hsound, hpeak, h => by
    obtain ⟨b₁, b₂, v₂, b₃, v₃, hcondition, hbody, hotherwise, hr⟩ := bindStmt_ifElse.mp hbind
    obtain ⟨rfl, rfl⟩ := Prod.mk.inj hr
    have hfirst := bindStmt_proceeds around inLoop v.enter v₂ body b₂ hbody
    have hsecond := bindStmt_proceeds around inLoop v₂.leave.enter v₃ otherwise b₃ hotherwise
    have hall : v₂.leave.scopes.all = v.scopes.all := hfirst.inside.all_leave
    have hall' : v₃.leave.scopes.all = v₂.leave.scopes.all := hsecond.inside.all_leave
    rw [Visible.leave, Scopes.peak_leave] at hpeak
    have hpeak₂ : v₂.scopes.peak ≤ slots.size := by
      rw [← Scopes.peak_leave]
      exact Nat.le_trans hsecond.inside.peak_le hpeak
    rw [Stmt.exec, Bound.Stmt.exec]
    refine (bindExpr_inStep hlinked h condition b₁ hcondition).bind_eq fun value => ?_
    cases value.isTruthy with
    | true =>
      rw [hall']
      exact scoped_inStep hfirst
        (bindStmt_inStep hlinked fuel inLoop v.enter v₂ slots env.enter body b₂ hbody
          (fun name _ => global?_enter around v name) hsound.enter hpeak₂ (Scopes.stored_enter h))
    | false =>
      -- The second branch is bound after the first, which leaves nothing behind but a higher peak.
      refine (scoped_inStep hsecond
        (bindStmt_inStep hlinked fuel inLoop v₂.leave.enter v₃ slots env.enter otherwise b₃
          hotherwise (fun name _ => global?_enter around v₂.leave name)
          (hfirst.leave.sound hsound).enter hpeak (Scopes.stored_enter (hall ▸ h)))).mono ?_
      rintro ⟨signal, env₂⟩ ⟨_, slots₂⟩ ⟨rfl, hleaves⟩
      refine ⟨rfl, (Leaves.refl h).trans hleaves fun n hn => ?_⟩
      rw [hfirst.rises_leave.eq]
      exact hn.of_names rfl rfl (Nat.le_refl _)
  | inLoop, v, _, slots, env, .discard value, _, hbind, _, _, _, h => by
    obtain ⟨b, hvalue, hr⟩ := bindStmt_discard.mp hbind
    obtain ⟨rfl, rfl⟩ := Prod.mk.inj hr
    rw [Stmt.exec, Bound.Stmt.exec]
    exact (bindExpr_inStep hlinked h value b hvalue).bind_eq
      fun _ => InStep.pure ⟨rfl, Leaves.refl h⟩
  | inLoop, v, v', slots, env, .declare name initial, b, hbind, hlocal, hsound, hpeak, h => by
    rw [bindStmt_declare] at hbind
    exact bindDeclaration_inStep hlinked fuel hbind (hlocal name rfl) hsound hpeak h
  | inLoop, v, _, slots, env, .block statements, _, hbind, _, hsound, hpeak, h => by
    obtain ⟨bs, v₂, hbody, hr⟩ := bindStmt_block.mp hbind
    obtain ⟨rfl, rfl⟩ := Prod.mk.inj hr
    have hannounce : v.enter.Proceeds (v.enter.announceAll statements) :=
      Visible.proceeds_announceAll statements
    have hproceeds := hannounce.trans (bindStmts_proceeds around inLoop _ v₂ statements bs hbody)
    have hall : v₂.leave.scopes.all = v.scopes.all := hproceeds.inside.all_leave
    rw [Visible.leave, Scopes.peak_leave] at hpeak
    rw [Stmt.exec, Bound.Stmt.exec]
    refine (bindStmts_inStep hlinked fuel inLoop _ v₂ slots env.enter statements bs hbody
      (global?_block around v statements) (hannounce.sound hsound.enter) hpeak
      (stored_announceAll (Scopes.stored_enter h) statements)).bind_left ?_
    rintro ⟨signal, env₂⟩ ⟨_, slots₂⟩ ⟨rfl, hleaves⟩
    rw [hannounce.inside.outer_eq] at hleaves
    exact ⟨_, rfl, rfl, hall ▸ (Leaves.refl h).trans hleaves fun _ hn =>
        hn.enter.announceAll statements⟩
  | inLoop, v, _, slots, env, .breakLoop, _, hbind, _, _, _, h => by
    obtain ⟨-, hr⟩ := bindStmt_breakLoop.mp hbind
    obtain ⟨rfl, rfl⟩ := Prod.mk.inj hr
    rw [Stmt.exec, Bound.Stmt.exec]
    exact InStep.pure ⟨rfl, Leaves.refl h⟩
  | inLoop, v, _, slots, env, .continueLoop, _, hbind, _, _, _, h => by
    obtain ⟨-, hr⟩ := bindStmt_continueLoop.mp hbind
    obtain ⟨rfl, rfl⟩ := Prod.mk.inj hr
    rw [Stmt.exec, Bound.Stmt.exec]
    exact InStep.pure ⟨rfl, Leaves.refl h⟩
termination_by structural _ _ _ _ _ stmt => stmt

/-- Bound statements of one scope are evaluated in step with those they were bound from. -/
theorem bindStmts_inStep (hlinked : Linked around.signatures p call call') (fuel : Nat) :
    (inLoop : Bool) → (v v' : Visible) → (slots : Slots) → (env : Env) → (ss : List Stmt) →
      (bs : List Bound.Stmt) → bindStmts around inLoop [] v ss = .ok (bs, v') →
      (∀ name, around.global? v name = none) → v.scopes.Sound → v'.scopes.peak ≤ slots.size →
      Stored slots v.scopes.all env →
      InStep (SameGlobals p.globalNames)
        (fun r r' => r.1 = r'.1 ∧ Leaves v.scopes slots v.scopes.outer r.2.leave r'.2)
        (Stmt.execAll p.functions call fuel env ss) (Bound.Stmt.execAll call' fuel slots bs)
  | inLoop, v, _, slots, env, [], _, hbind, _, _, _, h => by
    obtain ⟨rfl, rfl⟩ := Prod.mk.inj (bindStmts_nil.mp hbind)
    rw [Stmt.execAll, Bound.Stmt.execAll]
    exact InStep.pure ⟨rfl, Leaves.refl h.leave⟩
  | inLoop, v, v', slots, env, stmt :: rest, _, hbind, hlocal, hsound, hpeak, h => by
    obtain ⟨b, v₁, bs, v₂, hstmt, hrest, hr⟩ := bindStmts_cons.mp hbind
    obtain ⟨rfl, rfl⟩ := Prod.mk.inj hr
    have hproceeds := bindStmt_proceeds around inLoop v v₁ stmt b hstmt
    have hpeak₁ :=
      Nat.le_trans (bindStmts_proceeds around inLoop v₁ v₂ rest bs hrest).inside.peak_le hpeak
    rw [Stmt.execAll, Bound.Stmt.execAll]
    refine (bindStmt_inStep hlinked fuel inLoop v v₁ slots env stmt b hstmt
        (fun name _ => hlocal name) hsound hpeak₁ h).bind ?_
    rintro ⟨signal, env₁⟩ ⟨_, slots₁⟩ ⟨rfl, hleaves⟩
    have hend : Leaves v.scopes slots v.scopes.outer env₁.leave slots₁ :=
      ⟨hleaves.size_eq, hleaves.hidden, hproceeds.inside.outer_eq ▸ hleaves.stored.leave⟩
    cases signal with
    | next =>
      refine (bindStmts_inStep hlinked fuel inLoop v₁ v₂ slots₁ env₁ rest bs hrest
        (fun name => (global?_proceeds hproceeds name).trans (hlocal name)) (hproceeds.sound hsound)
        (hleaves.size_eq ▸ hpeak) hleaves.stored).mono ?_
      rintro ⟨signal, env₂⟩ ⟨_, slots₂⟩ ⟨rfl, hafter⟩
      exact ⟨rfl, hproceeds.inside.outer_eq ▸ hleaves.trans hafter fun _ hn =>
          bindStmt_hidden hstmt hn⟩
    | breakLoop => exact InStep.pure ⟨rfl, hend⟩
    | continueLoop => exact InStep.pure ⟨rfl, hend⟩
    | returned value => exact InStep.pure ⟨rfl, hend⟩
termination_by structural _ _ _ _ _ ss => ss

end

end Statements

end HostScript
