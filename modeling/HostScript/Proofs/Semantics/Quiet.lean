import HostScript.Proofs.Semantics.Paths

/-!
# Quiet expressions

A quiet expression calls nothing and reads nothing of the host, so that its evaluation leaves the
world as it was. When all indices of a target are quiet, each round of an assignment sees the same
array and the same path. The assignment then fails as reading the element would, or it replaces the
element and writes the changed array into the place that holds it, and into no other.
-/

namespace HostScript

variable {σ : Type}

/-- Whether a place belongs to the host. -/
def Place.isHost : Place → Bool
  | .host _ => true
  | _ => false

/-- What a place of the frame or of the script holds. -/
def Place.held? (locals globals : Array Value) : Place → Option Value
  | .slot k => locals[k]?
  | .script id => globals[id]?
  | .host _ => none

namespace Place

variable {locals : Array Value} {w : World (Array Value) σ} {value : Value}

theorem read_of_held {place : Place} (h : place.held? locals w.globals = some value) :
    place.read locals w = .ok value w := by
  cases place with
  | slot k =>
    have hslot : locals[k]? = some value := h
    rw [Place.read, Slots.read, hslot]
    rfl
  | script id =>
    have hid : w.globals[id]? = some value := h
    simp only [Place.read, hid]
  | host name => cases h

/-- A place that holds something can be written, which changes no other place. -/
theorem write_of_held {place : Place} (h : place.held? locals w.globals = some value)
    (changed : Value) :
    ∃ locals' globals', place.write locals changed w = .ok locals' { w with globals := globals' } ∧
      place.held? locals' globals' = some changed ∧
      ∀ other, other ≠ place → other.held? locals' globals' = other.held? locals w.globals := by
  cases place with
  | slot k =>
    have hlt : k < locals.size := (Array.getElem?_eq_some_iff.mp h).1
    refine ⟨locals.setIfInBounds k changed, w.globals, ?_,
      Array.getElem?_setIfInBounds_self_of_lt hlt, ?_⟩
    · rw [Place.write, Slots.write, if_pos hlt]
      rfl
    · intro other hother
      cases other with
      | slot j =>
        exact Array.getElem?_setIfInBounds_ne fun hkj => hother (congrArg Place.slot hkj.symm)
      | script id => rfl
      | host name => rfl
  | script id =>
    have hlt : id < w.globals.size := (Array.getElem?_eq_some_iff.mp h).1
    refine ⟨locals, w.globals.setIfInBounds id changed, ?_,
      Array.getElem?_setIfInBounds_self_of_lt hlt, ?_⟩
    · simp only [Place.write, if_pos hlt]
    · intro other hother
      cases other with
      | slot j => rfl
      | script j =>
        exact Array.getElem?_setIfInBounds_ne fun hij => hother (congrArg Place.script hij.symm)
      | host name => rfl
  | host name => cases h

end Place

/-- What follows an evaluation that stops early is not evaluated. -/
theorem Eval.bind_of_eq_error {γ α β : Type} {x : Eval γ σ α} {halt : Halt} {w w₁ : World γ σ}
    (hx : x w = .error halt w₁) (f : α → Eval γ σ β) : (x >>= f) w = .error halt w₁ := by
  change EStateM.bind x f w = _
  rw [EStateM.bind, hx]

/-- Whether an evaluation leaves the world as it was whenever it has a value. -/
def Eval.KeepsWorld {γ α : Type} (x : Eval γ σ α) : Prop :=
  ∀ ⦃w a w'⦄, x w = .ok a w' → w' = w

namespace Eval.KeepsWorld

variable {γ α β : Type}

theorem bind {x : Eval γ σ α} {f : α → Eval γ σ β} (hx : x.KeepsWorld)
    (hf : ∀ a, (f a).KeepsWorld) : (x >>= f).KeepsWorld := by
  intro w b w' h
  obtain ⟨a, w₁, ha, hb⟩ := Eval.bind_eq_ok_iff.mp h
  obtain rfl := hx ha
  exact hf a hb

theorem pure (a : α) : (Pure.pure a : Eval γ σ α).KeepsWorld :=
  fun _ _ _ h => (Eval.pure_eq_ok_iff.mp h).2.symm

theorem lift (r : Except Fault α) : (Eval.lift r : Eval γ σ α).KeepsWorld :=
  fun _ _ _ h => (Eval.lift_eq_ok_iff.mp h).2.symm

end Eval.KeepsWorld

/-- Reading a place that does not belong to the host leaves the world as it was. -/
theorem Place.read_keepsWorld {place : Place} (h : place.isHost = false) (slots : Slots) :
    (place.read slots : Eval (Array Value) σ Value).KeepsWorld := by
  intro w value w' hread
  cases place with
  | slot k =>
    rw [Place.read, Slots.read] at hread
    cases hslot : slots[k]? with
    | some held =>
      rw [hslot] at hread
      exact (Eval.pure_eq_ok_iff.mp hread).2.symm
    | none =>
      rw [hslot] at hread
      cases hread
  | script id =>
    simp only [Place.read] at hread
    cases hid : w.globals[id]? with
    | some held =>
      rw [hid] at hread
      cases hread
      rfl
    | none =>
      rw [hid] at hread
      cases hread
  | host name => cases h

namespace Bound

mutual

/-- Whether an expression contains no call and no global of the host. -/
def Expr.isQuiet : Expr → Bool
  | .void | .number _ | .string _ => true
  | .load place => !place.isHost
  | .index base position => base.isQuiet && position.isQuiet
  | .array items => Expr.areQuiet items
  | .callScript .. | .callNative .. | .callMethod .. => false
  | .unary _ operand => operand.isQuiet
  | .strict _ lhs rhs | .connect _ lhs rhs => lhs.isQuiet && rhs.isQuiet
termination_by structural expr => expr

/-- Whether expressions contain no call and no global of the host. -/
def Expr.areQuiet : List Expr → Bool
  | [] => true
  | expr :: rest => expr.isQuiet && Expr.areQuiet rest
termination_by structural exprs => exprs

end

variable {call : Calls (Array Value) σ} {slots : Slots}

section Worlds

open Eval.KeepsWorld

mutual

/-- The evaluation of a quiet expression leaves the world as it was. -/
theorem Expr.eval_keepsWorld : (x : Expr) → x.isQuiet → (x.eval call slots).KeepsWorld
  | .void, _ => pure _
  | .number _, _ => pure _
  | .string _, _ => pure _
  | .load place, h => Place.read_keepsWorld (by simpa [Expr.isQuiet] using h) slots
  | .index base position, h => by
    rw [Expr.isQuiet, Bool.and_eq_true] at h
    rw [Expr.eval]
    exact (base.eval_keepsWorld h.1).bind
      fun _ => (position.eval_keepsWorld h.2).bind fun _ => lift _
  | .array items, h => by
    rw [Expr.eval]
    exact (Expr.evalAll_keepsWorld items h).bind fun _ => pure _
  | .callScript .., h => nomatch h
  | .callNative .., h => nomatch h
  | .callMethod .., h => nomatch h
  | .unary _ operand, h => by
    rw [Expr.eval]
    exact (operand.eval_keepsWorld h).bind fun _ => lift _
  | .strict _ lhs rhs, h => by
    rw [Expr.isQuiet, Bool.and_eq_true] at h
    rw [Expr.eval]
    exact (lhs.eval_keepsWorld h.1).bind fun _ => (rhs.eval_keepsWorld h.2).bind fun _ => lift _
  | .connect op lhs rhs, h => by
    rw [Expr.isQuiet, Bool.and_eq_true] at h
    have hright : (rhs.eval call slots >>= fun right =>
          Pure.pure (Value.boolean right.isTruthy)).KeepsWorld :=
      (rhs.eval_keepsWorld h.2).bind fun _ => pure _
    cases op with
    | and =>
      rw [Expr.eval]
      refine (lhs.eval_keepsWorld h.1).bind fun left => ?_
      split
      · exact hright
      · exact pure _
    | or =>
      rw [Expr.eval]
      refine (lhs.eval_keepsWorld h.1).bind fun left => ?_
      split
      · exact pure _
      · exact hright
termination_by structural x => x

theorem Expr.evalAll_keepsWorld :
    (xs : List Expr) → Expr.areQuiet xs → (Expr.evalAll call slots xs).KeepsWorld
  | [], _ => pure _
  | x :: xs, h => by
    rw [Expr.areQuiet, Bool.and_eq_true] at h
    rw [Expr.evalAll]
    exact (x.eval_keepsWorld h.1).bind
      fun _ => (Expr.evalAll_keepsWorld xs h.2).bind fun _ => pure _
termination_by structural xs => xs

end

end Worlds

/-- Quiet expressions that have values have them in one and the same world. -/
theorem Expr.eval_of_quiet {xs : List Expr} {values : List Value} {w : World (Array Value) σ}
    (hquiet : ∀ x ∈ xs, x.isQuiet)
    (h : List.Forall₂ (fun x value => ∃ w', x.eval call slots w = .ok value w') xs values) :
    List.Forall₂ (fun x value => x.eval call slots w = .ok value w) xs values := by
  induction h with
  | nil => exact .nil
  | cons hfirst _ ih =>
    rw [List.forall_mem_cons] at hquiet
    obtain ⟨w', hfirst⟩ := hfirst
    obtain rfl := Expr.eval_keepsWorld _ hquiet.1 hfirst
    exact .cons hfirst (ih hquiet.2)

/-- Reading a target of quiet indices is quiet. -/
theorem Target.isQuiet_read {t : Target} (hroot : t.root.isHost = false)
    (hindices : ∀ x ∈ t.indices, x.isQuiet) : t.read.isQuiet := by
  induction t with
  | place p =>
    have hp : p.isHost = false := hroot
    rw [Target.read, Expr.isQuiet, hp]
    rfl
  | element base position ih =>
    rw [Target.indices, List.forall_mem_append, List.forall_mem_singleton] at hindices
    rw [Target.read, Expr.isQuiet, ih hroot hindices.1, hindices.2]
    rfl

section Stores

variable {t : Target} {array value : Value} {path : List Value} {w : World (Array Value) σ}

/-- The values of the indices of an element are those of the indices of the array it lies
in, and a last one. -/
theorem Target.indices_of_element {base : Target} {position : Expr}
    (h : List.Forall₂ (fun x index => x.eval call slots w = .ok index w)
      (base.indices ++ [position]) path) :
    ∃ front last, path = front ++ [last] ∧
      List.Forall₂ (fun x index => x.eval call slots w = .ok index w) base.indices front ∧
      position.eval call slots w = .ok last w := by
  have hfront := List.forall₂_take base.indices.length h
  have hback := List.forall₂_drop base.indices.length h
  rw [List.take_left] at hfront
  rw [List.drop_left] at hback
  generalize hlast : path.drop base.indices.length = back at hback
  cases hback with
  | cons hposition hrest =>
    cases hrest
    exact ⟨path.take base.indices.length, _, by rw [← hlast, List.take_append_drop],
      hfront, hposition⟩

/-- A target whose indices have values is read by going through them. -/
theorem Target.eval_read_of_indices (hread : t.root.read slots w = .ok array w)
    (hindices : List.Forall₂ (fun x index => x.eval call slots w = .ok index w) t.indices path) :
    t.read.eval call slots w = Eval.lift (array.elementAt path) w := by
  induction t generalizing path with
  | place p =>
    cases hindices
    exact hread
  | element base position ih =>
    obtain ⟨front, last, rfl, hfront, hlast⟩ := Target.indices_of_element hindices
    have hbase := ih hread hfront
    rw [Target.read, Expr.eval, Value.elementAt_concat]
    cases hholder : array.elementAt front with
    | error fault =>
      rw [hholder] at hbase
      exact Eval.bind_of_eq_error hbase _
    | ok holder =>
      rw [hholder] at hbase
      rw [Eval.bind_of_eq_ok hbase, Eval.bind_of_eq_ok hlast]
      rfl

/-- A value cannot be stored where none can be read, for the same reason. -/
theorem Target.store_eq_error (hread : t.root.read slots w = .ok array w)
    (hindices : List.Forall₂ (fun x index => x.eval call slots w = .ok index w) t.indices path)
    {fault : Fault} (hfault : array.elementAt path = .error fault) :
    t.store call slots value w = .error (.fault { fault }) w := by
  cases t with
  | place p =>
    cases hindices
    cases hfault
  | element base position =>
    -- The first round goes through the whole path, so that it is the one that fails, before any
    -- write.
    obtain ⟨front, last, rfl, hfront, hlast⟩ := Target.indices_of_element hindices
    have hbase := Target.eval_read_of_indices (t := base) hread hfront
    rw [Value.elementAt_concat] at hfault
    rw [Target.store]
    cases hholder : array.elementAt front with
    | error other =>
      rw [hholder] at hbase hfault
      cases hfault
      exact Eval.bind_of_eq_error hbase _
    | ok holder =>
      rw [hholder] at hbase hfault
      have helement : holder.element last = .error fault := hfault
      have hwith : holder.withElement last value = .error fault := by
        rw [← Value.element_bind_withElement, helement]
        rfl
      rw [Eval.bind_of_eq_ok hbase, Eval.bind_of_eq_ok hlast, hwith]
      rfl

end Stores

end Bound

end HostScript
