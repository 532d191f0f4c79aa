import HostScript.Compile.Scope

/-!
# Slots of open scopes

Each open scope owns a range of slots that begins where the range of the scope around it ends, and
gives the slots of that range to its names, no slot twice. So the slots of all visible names differ,
even when an inner name hides an outer one, and the slots of a scope that is left are free again.
-/

namespace HostScript

/-- Whether the names of a scope have different slots, from its base up to a bound. -/
structure Scope.Within (scope : Scope) (bound : Nat) : Prop where
  base_le : scope.base ≤ bound
  slot_mem : ∀ (name : String) (slot : Nat), scope.names[name]? = some slot →
    scope.base ≤ slot ∧ slot < bound
  slot_inj : ∀ (a b : String) (slot : Nat),
    scope.names[a]? = some slot → scope.names[b]? = some slot → a = b

/-- Whether scopes, innermost first, own ranges of slots that lie below each other. -/
def Stacked : Nat → List Scope → Prop
  | _, [] => True
  | bound, scope :: rest => scope.Within bound ∧ Stacked scope.base rest

namespace Scopes

/-- All open scopes, innermost first. -/
def all (s : Scopes) : List Scope :=
  s.inner :: s.outer

/-- The scopes with one more slot taken. -/
def grow (s : Scopes) : Scopes :=
  { s with next := s.next + 1, peak := max s.peak (s.next + 1) }

/-- The scopes with the next slot given to a name of the innermost one. -/
def extend (s : Scopes) (name : String) : Scopes :=
  { s.grow with
    inner :=
      { s.inner with
        names := s.inner.names.insert name s.next
        pending := s.inner.pending.erase name } }

/-- Whether open scopes give their slots out properly and within the limit. -/
structure Sound (s : Scopes) : Prop where
  stacked : Stacked s.next s.all
  next_le : s.next ≤ s.peak
  peak_le : s.peak ≤ countLimit

/-- A slot is handed out while the limit is not reached. -/
theorem allocate_eq_ok_iff {s : Scopes} {r : Nat × Scopes} :
    s.allocate = .ok r ↔ s.next < countLimit ∧ (s.next, s.grow) = r := by
  unfold allocate
  by_cases hnext : s.next < countLimit <;> simp [hnext, grow]

/-- A name is declared once in a scope, and gets the next slot. -/
theorem declare_eq_ok_iff {s : Scopes} {name : String} {duplicate : CompileFault}
    {r : Nat × Scopes} :
    s.declare name duplicate = .ok r ↔
      name ∉ s.inner.names ∧ s.next < countLimit ∧ (s.next, s.extend name) = r := by
  unfold declare allocate
  by_cases hname : name ∈ s.inner.names
  · simp [hname]
  · by_cases hnext : s.next < countLimit <;> simp [hname, hnext, extend, grow]

/-- Announcing a name takes no slot. -/
@[simp] theorem next_announce (s : Scopes) (name : String) : (s.announce name).next = s.next := by
  unfold announce
  split <;> rfl

/-- Announcing a name does not raise the peak. -/
@[simp] theorem peak_announce (s : Scopes) (name : String) : (s.announce name).peak = s.peak := by
  unfold announce
  split <;> rfl

/-- Announcing a name declares nothing. -/
@[simp] theorem names_announce (s : Scopes) (name : String) :
    (s.announce name).inner.names = s.inner.names := by
  unfold announce
  split <;> rfl

/-- Leaving a scope does not lower the peak. -/
@[simp] theorem peak_leave (s : Scopes) : s.leave.peak = s.peak := by
  unfold leave
  split <;> rfl

end Scopes

/-- The slots of stacked scopes lie below the bound. -/
theorem Stacked.slot_lt {bound slot : Nat} {scopes : List Scope} (h : Stacked bound scopes)
    {scope : Scope} (hscope : scope ∈ scopes) {name : String}
    (hslot : scope.names[name]? = some slot) : slot < bound := by
  induction scopes generalizing bound with
  | nil => cases hscope
  | cons first rest ih =>
    obtain ⟨hfirst, hrest⟩ := h
    rcases List.mem_cons.mp hscope with rfl | hmem
    · exact (hfirst.slot_mem name slot hslot).2
    · exact Nat.lt_of_lt_of_le (ih hrest hmem) hfirst.base_le

/-- Ranges stay below a larger bound. -/
theorem Stacked.mono {bound more : Nat} {scopes : List Scope} (h : Stacked bound scopes)
    (hle : bound ≤ more) :
    Stacked more scopes := by
  cases scopes with
  | nil => trivial
  | cons scope rest =>
    obtain ⟨hscope, hrest⟩ := h
    refine ⟨⟨Nat.le_trans hscope.base_le hle, fun name slot hslot => ?_, hscope.slot_inj⟩, hrest⟩
    have hmem := hscope.slot_mem name slot hslot
    exact ⟨hmem.1, Nat.lt_of_lt_of_le hmem.2 hle⟩

namespace Scopes

variable {s : Scopes}

/-- Before anything is declared the scopes are sound. -/
theorem sound_empty : Sound {} :=
  ⟨⟨⟨Nat.le_refl 0, fun name slot h => by simp at h, fun a b slot h => by simp at h⟩, trivial⟩,
    Nat.le_refl 0, Nat.zero_le _⟩

/-- Opening a scope keeps the scopes sound. -/
theorem Sound.enter (h : s.Sound) : s.enter.Sound :=
  ⟨⟨⟨Nat.le_refl s.next, fun name slot hslot => by simp [Scopes.enter] at hslot,
    fun a b slot hslot => by simp [Scopes.enter] at hslot⟩, h.stacked⟩, h.next_le, h.peak_le⟩

/-- Announcing a name keeps the scopes sound. -/
theorem Sound.announce (h : s.Sound) (name : String) : (s.announce name).Sound := by
  unfold Scopes.announce
  split
  · exact h
  · obtain ⟨⟨hinner, houter⟩, hnext, hpeak⟩ := h
    exact ⟨⟨⟨hinner.base_le, hinner.slot_mem, hinner.slot_inj⟩, houter⟩, hnext, hpeak⟩

/-- Taking a slot keeps the scopes sound. -/
theorem Sound.grow (h : s.Sound) (hnext : s.next < countLimit) : s.grow.Sound := by
  refine ⟨h.stacked.mono (Nat.le_succ _), ?_, ?_⟩
  · exact Nat.le_max_right _ _
  · exact Nat.max_le.mpr ⟨h.peak_le, hnext⟩

/-- Declaring a name keeps the scopes sound. -/
theorem Sound.extend (h : s.Sound) (name : String) (hnext : s.next < countLimit) :
    (s.extend name).Sound := by
  have hgrow := h.grow hnext
  obtain ⟨hinner, houter⟩ := h.stacked
  refine ⟨⟨⟨Nat.le_succ_of_le hinner.base_le, ?_, ?_⟩, houter⟩, hgrow.next_le, hgrow.peak_le⟩
  · intro other slot hslot
    simp only [Scopes.extend, Std.TreeMap.getElem?_insert] at hslot ⊢
    split at hslot
    · obtain rfl : s.next = slot := by simpa using hslot
      exact ⟨hinner.base_le, Nat.lt_succ_self _⟩
    · have hmem := hinner.slot_mem other slot hslot
      exact ⟨hmem.1, Nat.lt_succ_of_lt hmem.2⟩
  · -- A name that already had a slot has one below the slot that is given out now.
    have hfresh : ∀ (other : String) (slot : Nat), s.inner.names[other]? = some slot →
        slot ≠ s.next :=
      fun other slot hslot => Nat.ne_of_lt (hinner.slot_mem other slot hslot).2
    intro a b slot ha hb
    simp only [Scopes.extend, Std.TreeMap.getElem?_insert] at ha hb
    split at ha <;> split at hb
    · simp_all
    · exact absurd (Option.some.inj ha).symm (hfresh b slot hb)
    · exact absurd (Option.some.inj hb).symm (hfresh a slot ha)
    · exact hinner.slot_inj a b slot ha hb

/-- Leaving a scope keeps the scopes sound. -/
theorem Sound.leave (h : s.Sound) : s.leave.Sound := by
  unfold Scopes.leave
  split
  · exact h
  next scope rest houter =>
    obtain ⟨hinner, hrest⟩ := h.stacked
    rw [houter] at hrest
    exact ⟨hrest, Nat.le_trans hinner.base_le h.next_le, h.peak_le⟩

/-- A visible name is found in one of the open scopes. -/
theorem mem_of_find? {name : String} {slot : Nat} (h : s.find? name = some slot) :
    ∃ scope ∈ s.all, scope.names[name]? = some slot := by
  unfold find? at h
  rcases hinner : s.inner.names[name]? with _ | found
  · rw [hinner] at h
    obtain ⟨scope, hscope, hslot⟩ := List.exists_of_findSome?_eq_some (by simpa using h)
    exact ⟨scope, List.mem_cons_of_mem _ hscope, hslot⟩
  · refine ⟨s.inner, List.mem_cons_self, ?_⟩
    rw [hinner] at h ⊢
    simpa using h

/-- A visible name has a slot that is taken. -/
theorem Sound.find?_lt (h : s.Sound) {name : String} {slot : Nat}
    (hfind : s.find? name = some slot) : slot < s.next := by
  obtain ⟨scope, hscope, hslot⟩ := mem_of_find? hfind
  exact h.stacked.slot_lt hscope hslot

/-- What work in the innermost scope leaves alone: the outer scopes and the slots they own. -/
structure Inside (s t : Scopes) : Prop where
  outer_eq : t.outer = s.outer
  base_eq : t.inner.base = s.inner.base
  next_le : s.next ≤ t.next
  peak_le : s.peak ≤ t.peak

theorem Inside.refl (s : Scopes) : Inside s s :=
  ⟨rfl, rfl, Nat.le_refl _, Nat.le_refl _⟩

theorem Inside.trans {t r : Scopes} (h : Inside s t) (h' : Inside t r) : Inside s r :=
  ⟨h'.outer_eq.trans h.outer_eq, h'.base_eq.trans h.base_eq, Nat.le_trans h.next_le h'.next_le,
    Nat.le_trans h.peak_le h'.peak_le⟩

theorem inside_announce (name : String) : Inside s (s.announce name) := by
  unfold announce
  split
  · exact Inside.refl s
  · exact ⟨rfl, rfl, Nat.le_refl _, Nat.le_refl _⟩

theorem inside_grow : Inside s s.grow :=
  ⟨rfl, rfl, Nat.le_succ _, Nat.le_max_left _ _⟩

theorem inside_extend (name : String) : Inside s (s.extend name) :=
  ⟨rfl, rfl, Nat.le_succ _, Nat.le_max_left _ _⟩

/-- Leaving a scope gives back what was there before it was opened, up to the peak. -/
theorem Inside.leave {t : Scopes} (h : Inside s.enter t) : t.leave = { s with peak := t.peak } := by
  have houter : t.outer = s.inner :: s.outer := h.outer_eq
  have hbase : t.inner.base = s.next := h.base_eq
  simp [Scopes.leave, houter, hbase]

end Scopes

end HostScript
