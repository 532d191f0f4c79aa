import HostScript.Proofs.Binding.Effect
import HostScript.Proofs.Semantics.Reference
import HostScript.Proofs.Semantics.Bound

/-!
# Variables in slots

The variables of the open scopes live in the slots that binding gave them. Writing the slot of
a name changes the variable of that name in the innermost scope that has it and nothing else,
since no two visible names share a slot. Slots that are in use but have no name are out of
reach of the variables.
-/

namespace HostScript

/-- Whether the variables of a scope are in its slots. -/
structure Scope.Stores (slots : Slots) (scope : Scope)
    (vars : Std.TreeMap String Value) : Prop where
  value : ∀ name : String, vars[name]? = scope.names[name]?.bind fun slot => slots[slot]?
  slot_lt : ∀ (name : String) (slot : Nat), scope.names[name]? = some slot → slot < slots.size

/-- Whether the variables of scopes are in the slots of these. -/
def Stored (slots : Slots) (scopes : List Scope) (env : Env) : Prop :=
  List.Forall₂ (Scope.Stores slots) scopes env

/-- The slot of a name in the innermost scope that has declared it. -/
def slotOf? (scopes : List Scope) (name : String) : Option Nat :=
  scopes.findSome? fun scope => scope.names[name]?

/-- Whether some scope has given a slot to a name. -/
def Named (scopes : List Scope) (n : Nat) : Prop :=
  ∃ scope ∈ scopes, ∃ name : String, scope.names[name]? = some n

theorem Scopes.find?_eq_slotOf? (s : Scopes) (name : String) :
    s.find? name = slotOf? s.all name := by
  unfold Scopes.find? slotOf? Scopes.all
  rw [List.findSome?_cons]
  cases s.inner.names[name]? <;> rfl

section Scope

variable {slots slots' : Slots} {scope : Scope} {vars : Std.TreeMap String Value}

/-- Giving a variable a value leaves the other variables alone. -/
theorem getElem?_insert_of_ne {name other : String} (h : name ≠ other) (value : Value) :
    (vars.insert name value)[other]? = vars[other]? := by
  have hcmp : compare name other ≠ .eq := by simpa using h
  rw [Std.TreeMap.getElem?_insert, if_neg hcmp]

/-- Only the slots of a scope matter to its variables. -/
theorem Scope.Stores.congr (h : scope.Stores slots vars) (hsize : slots'.size = slots.size)
    (hsame : ∀ (name : String) (slot : Nat), scope.names[name]? = some slot →
        slots'[slot]? = slots[slot]?) : scope.Stores slots' vars := by
  refine ⟨fun name => ?_, fun name slot hslot => hsize ▸ h.slot_lt name slot hslot⟩
  rw [h.value name]
  cases hslot : scope.names[name]? with
  | none => rfl
  | some slot => exact (hsame name slot hslot).symm

/-- A scope has a variable for each name that it has declared. -/
theorem Scope.Stores.contains_eq (h : scope.Stores slots vars) (name : String) :
    vars.contains name = scope.names[name]?.isSome := by
  rw [← Std.TreeMap.isSome_getElem?_eq_contains, h.value name]
  cases hslot : scope.names[name]? with
  | none => rfl
  | some slot => simp [h.slot_lt name slot hslot]

/-- Writing the slot of a name changes its variable. -/
theorem Scope.Stores.assign (h : scope.Stores slots vars)
    {bound : Nat} (hwithin : scope.Within bound)
    {name : String} {slot : Nat} (hslot : scope.names[name]? = some slot) (value : Value) :
    scope.Stores (slots.setIfInBounds slot value) (vars.insert name value) := by
  refine ⟨fun other => ?_, fun other slot' hslot' => by simpa using h.slot_lt other slot' hslot'⟩
  by_cases heq : name = other
  · subst heq
    simp [hslot, h.slot_lt name slot hslot]
  · rw [getElem?_insert_of_ne heq, h.value other]
    cases hother : scope.names[other]? with
    | none => rfl
    | some slot' =>
      have hne : slot ≠ slot' := by
        rintro rfl
        exact heq (hwithin.slot_inj name other slot hslot hother)
      simp [hne]

end Scope

namespace Stored

variable {slots slots' : Slots} {scopes : List Scope} {env : Env}

/-- Only the slots that have a name matter to the variables. -/
theorem congr (h : Stored slots scopes env) (hsize : slots'.size = slots.size)
    (hsame : ∀ n, Named scopes n → slots'[n]? = slots[n]?) : Stored slots' scopes env := by
  induction h with
  | nil => exact .nil
  | @cons scope vars scopes env hscope _ ih =>
    refine .cons
      (hscope.congr hsize fun name slot hslot =>
        hsame slot ⟨scope, List.mem_cons_self, name, hslot⟩)
      (ih fun n hn => ?_)
    obtain ⟨other, hother, hname⟩ := hn
    exact hsame n ⟨other, List.mem_cons_of_mem _ hother, hname⟩

/-- A variable has the value of its slot. -/
theorem lookup (h : Stored slots scopes env) (name : String) :
    env.lookup name = (slotOf? scopes name).bind fun slot => slots[slot]? := by
  induction h with
  | nil => rfl
  | @cons scope vars scopes env hscope _ ih =>
    unfold Env.lookup slotOf? at ih ⊢
    rw [List.findSome?_cons, List.findSome?_cons, hscope.value name]
    cases hslot : scope.names[name]? with
    | none => simpa using ih
    | some slot =>
      have hlt := hscope.slot_lt name slot hslot
      simp [hlt]

/-- The slot of a visible name is there. -/
theorem slot_lt (h : Stored slots scopes env) {name : String} {slot : Nat}
    (hslot : slotOf? scopes name = some slot) :
    slot < slots.size := by
  induction h with
  | nil => cases hslot
  | @cons scope vars scopes env hscope _ ih =>
    unfold slotOf? at ih hslot
    rw [List.findSome?_cons] at hslot
    cases hname : scope.names[name]? with
    | none => exact ih (by simpa [hname] using hslot)
    | some found =>
      obtain rfl : found = slot := by simpa [hname] using hslot
      exact hscope.slot_lt name found hname

/-- Writing the slot of a visible name changes the variable of that name. -/
theorem assign (h : Stored slots scopes env) {bound : Nat} (hstacked : Stacked bound scopes)
    {name : String} {slot : Nat} (hslot : slotOf? scopes name = some slot) (value : Value) :
    Stored (slots.setIfInBounds slot value) scopes (env.assign name value) := by
  induction h generalizing bound with
  | nil => cases hslot
  | @cons scope vars scopes env hscope hrest ih =>
    obtain ⟨hwithin, hstacked⟩ := hstacked
    have hbelow : ∀ n, Named scopes n → n < scope.base := fun n ⟨other, hother, _, hname⟩ =>
      hstacked.slot_lt hother hname
    unfold slotOf? at hslot ih
    rw [List.findSome?_cons] at hslot
    rw [Env.assign, hscope.contains_eq name]
    cases hname : scope.names[name]? with
    | some found =>
      obtain rfl : found = slot := by simpa [hname] using hslot
      have hbase := (hwithin.slot_mem name found hname).1
      refine .cons (hscope.assign hwithin hname value) (Stored.congr hrest (by simp) fun n hn => ?_)
      have hne : found ≠ n := Nat.ne_of_gt (Nat.lt_of_lt_of_le (hbelow n hn) hbase)
      simp [hne]
    | none =>
      have hslot : scopes.findSome? (fun scope => scope.names[name]?) = some slot := by
        simpa [hname] using hslot
      obtain ⟨other, hother, hfound⟩ := List.exists_of_findSome?_eq_some hslot
      have hbase := hbelow slot ⟨other, hother, name, hfound⟩
      refine .cons (hscope.congr (by simp) fun other n hn => ?_) (ih hstacked hslot)
      have hne : slot ≠ n := Nat.ne_of_lt (Nat.lt_of_lt_of_le hbase (hwithin.slot_mem other n hn).1)
      simp [hne]

end Stored

namespace Scopes

variable {s : Scopes} {slots : Slots} {env : Env}

/-- The slots of names are in use. -/
theorem Sound.named_lt (h : s.Sound) {n : Nat} (hn : Named s.all n) : n < s.next := by
  obtain ⟨scope, hscope, name, hname⟩ := hn
  exact h.stacked.slot_lt hscope hname

/-- There are no variables before anything is declared. -/
theorem stored_empty (slots : Slots) : Stored slots ({} : Scopes).all [{}] :=
  .cons ⟨fun name => by simp, fun name slot hslot => by simp at hslot⟩ .nil

/-- A scope that is opened has no variables. -/
theorem stored_enter (h : Stored slots s.all env) : Stored slots s.enter.all env.enter :=
  .cons ⟨fun name => by simp [Scopes.enter], fun name slot hslot => by simp [Scopes.enter] at hslot⟩
    h

/-- Variables depend on the names of the innermost scope and the scopes around it only. -/
theorem stored_of_names {t : Scopes} (h : Stored slots s.all env)
    (hnames : t.inner.names = s.inner.names) (houter : t.outer = s.outer) :
    Stored slots t.all env := by
  obtain ⟨vars, rest, hinner, hrest, rfl⟩ := List.forall₂_cons_left_iff.mp h
  unfold Scopes.all
  rw [houter]
  exact .cons ⟨hnames ▸ hinner.value, hnames ▸ hinner.slot_lt⟩ hrest

/-- Announcing a name declares nothing. -/
theorem stored_announce (h : Stored slots s.all env) (name : String) :
    Stored slots (s.announce name).all env :=
  stored_of_names h (names_announce _ _) (inside_announce name).outer_eq

/-- A declaration puts the value into the next slot. -/
theorem stored_extend (hsound : s.Sound) (h : Stored slots s.all env) (name : String)
    (value : Value) (hroom : s.next < slots.size) :
    Stored (slots.setIfInBounds s.next value) (s.extend name).all (env.declare name value) := by
  have hkept : Stored (slots.setIfInBounds s.next value) s.all env := by
    refine h.congr (by simp) fun n hn => ?_
    have hne : s.next ≠ n := Nat.ne_of_gt (hsound.named_lt hn)
    simp [hne]
  obtain ⟨vars, rest, hinner, hrest, rfl⟩ := List.forall₂_cons_left_iff.mp hkept
  have hnames : ∀ other : String, (s.extend name).inner.names[other]? =
      if compare name other = .eq then some s.next else s.inner.names[other]? := by
    intro other
    simp only [Scopes.extend, Std.TreeMap.getElem?_insert]
  refine .cons ⟨fun other => ?_, fun other slot hslot => ?_⟩ hrest
  · rw [hnames, Std.TreeMap.getElem?_insert]
    split
    · simp [hroom]
    · exact hinner.value other
  · rw [hnames] at hslot
    split at hslot
    · obtain rfl : s.next = slot := by simpa using hslot
      simpa using hroom
    · exact hinner.slot_lt other slot hslot

/-- Whether a slot is in use but has no name. -/
def Hidden (s : Scopes) (n : Nat) : Prop :=
  n < s.next ∧ ¬Named s.all n

/-- Opening a scope uncovers nothing. -/
theorem Hidden.enter {n : Nat} (h : s.Hidden n) : s.enter.Hidden n := by
  refine ⟨h.1, ?_⟩
  rintro ⟨scope, hscope, name, hname⟩
  rcases List.mem_cons.mp hscope with rfl | hscope
  · simp [Scopes.enter] at hname
  · exact h.2 ⟨scope, hscope, name, hname⟩

/-- Scopes with the same names hide the same slots, as long as they use as many. -/
theorem Hidden.of_names {t : Scopes} {n : Nat}
    (h : s.Hidden n) (hnames : t.inner.names = s.inner.names)
    (houter : t.outer = s.outer) (hnext : s.next ≤ t.next) : t.Hidden n := by
  refine ⟨Nat.lt_of_lt_of_le h.1 hnext, ?_⟩
  rintro ⟨scope, hscope, name, hname⟩
  rcases List.mem_cons.mp hscope with rfl | hscope
  · exact h.2 ⟨s.inner, List.mem_cons_self, name, hnames ▸ hname⟩
  · exact h.2 ⟨scope, List.mem_cons_of_mem _ (houter ▸ hscope), name, hname⟩

/-- Taking a slot uncovers nothing. -/
theorem Hidden.grow {n : Nat} (h : s.Hidden n) : s.grow.Hidden n :=
  h.of_names rfl rfl (Nat.le_succ _)

/-- Announcing a name uncovers nothing. -/
theorem Hidden.announce {n : Nat} (h : s.Hidden n) (name : String) : (s.announce name).Hidden n :=
  h.of_names (names_announce _ _) (inside_announce name).outer_eq (inside_announce name).next_le

/-- A declaration uncovers nothing, since its slot was not in use. -/
theorem Hidden.extend {n : Nat} (h : s.Hidden n) (name : String) : (s.extend name).Hidden n := by
  refine ⟨Nat.lt_succ_of_lt h.1, ?_⟩
  rintro ⟨scope, hscope, other, hother⟩
  rcases List.mem_cons.mp hscope with rfl | hscope
  · simp only [Scopes.extend, Std.TreeMap.getElem?_insert] at hother
    split at hother
    · exact Nat.ne_of_gt h.1 (Option.some.inj hother)
    · exact h.2 ⟨s.inner, List.mem_cons_self, other, hother⟩
  · exact h.2 ⟨scope, List.mem_cons_of_mem _ hscope, other, hother⟩

/-- A slot that is taken without a name is hidden. -/
theorem Sound.hidden_grow (h : s.Sound) : s.grow.Hidden s.next :=
  ⟨Nat.lt_succ_self _, fun hn => Nat.lt_irrefl _ (h.named_lt hn)⟩

end Scopes

end HostScript
