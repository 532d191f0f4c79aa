import Mathlib.Data.List.Forall2
import HostScript.Proofs.Binding.Scopes

/-!
# Histories of scopes

Scopes are opened, filled and closed by requests in any order. A ledger beside them notes every slot
that was handed out and has not been given back, with its name if it has one; names are looked up in
the scopes, but slots without a name stand in the ledger alone. The slots in the ledger are all
different, whatever the requests were, because each scope owns a range of slots and the ranges of
open scopes lie one after the other.

What happens between opening a scope and closing it again leaves no trace but the peak.
-/

namespace HostScript

/-- What can be asked of open scopes. A declaration says what to report if there is
one of the same name. -/
inductive ScopeRequest where
  | enter
  | leave
  | declare (name : String) (duplicate : CompileFault)
  | announce (name : String)
  | allocate

/-- Whether a slot is asked for. -/
def ScopeRequest.takesSlot : ScopeRequest → Bool
  | .declare _ _ | .allocate => true
  | _ => false

/-- The answer to a request. -/
inductive ScopeAnswer where
  | done
  | slot (n : Nat)
  | refused (fault : CompileFault)

namespace Scopes

/-- The answer to a request for a slot. The scopes are as before if it is refused. -/
def answer (s : Scopes) : Except CompileFault (Nat × Scopes) → ScopeAnswer × Scopes
  | .ok (n, s) => (.slot n, s)
  | .error fault => (.refused fault, s)

/-- The answer to a request, and the scopes after it. -/
def serve (s : Scopes) : ScopeRequest → ScopeAnswer × Scopes
  | .enter => (.done, s.enter)
  | .leave => (.done, s.leave)
  | .declare name duplicate => s.answer (s.declare name duplicate)
  | .announce name => (.done, s.announce name)
  | .allocate => s.answer s.allocate

end Scopes

/-- A slot that was handed out, and the name it was handed out for. -/
structure Holding where
  name : Option String
  slot : Nat

/-- What has happened to open scopes. -/
structure ScopeHistory where
  scopes : Scopes := {}
  /-- The slots that each open scope holds, innermost first. -/
  ledger : List (List Holding) := [[]]
  /-- Every next slot that there was, the last one first. -/
  nexts : List Nat := [0]

namespace ScopeHistory

/-- The ledger with one more slot for the innermost scope. -/
def hold (x : Holding) : List (List Holding) → List (List Holding)
  | [] => []
  | inner :: outer => (x :: inner) :: outer

/-- The ledger after the innermost scope is closed. The last scope stays open. -/
def release : List (List Holding) → List (List Holding)
  | _ :: inner :: outer => inner :: outer
  | ledger => ledger

/-- The ledger after a request was answered. -/
def note (ledger : List (List Holding)) : ScopeRequest → ScopeAnswer → List (List Holding)
  | .enter, _ => [] :: ledger
  | .leave, _ => release ledger
  | .declare name _, .slot n => hold ⟨some name, n⟩ ledger
  | .allocate, .slot n => hold ⟨none, n⟩ ledger
  | _, _ => ledger

/-- What has happened after one more request. -/
def step (h : ScopeHistory) (r : ScopeRequest) : ScopeHistory where
  scopes := (h.scopes.serve r).2
  ledger := note h.ledger r (h.scopes.serve r).1
  nexts := (h.scopes.serve r).2.next :: h.nexts

/-- What has happened after some requests. -/
def after (h : ScopeHistory) (requests : List ScopeRequest) : ScopeHistory :=
  requests.foldl step h

/-- What has happened after some requests, before which nothing was declared. -/
def ofRequests (requests : List ScopeRequest) : ScopeHistory :=
  after {} requests

end ScopeHistory

/-- Whether a scope holds different slots, from its base up to a bound, and knows
those that have a name. -/
structure Scope.Owns (scope : Scope) (held : List Holding) (bound : Nat) : Prop where
  base_le : scope.base ≤ bound
  range : ∀ x ∈ held, scope.base ≤ x.slot ∧ x.slot < bound
  distinct : (held.map (·.slot)).Nodup
  names : ∀ (name : String) (slot : Nat), scope.names[name]? = some slot ↔ ⟨some name, slot⟩ ∈ held
  pending : ∀ name ∈ scope.pending, name ∉ scope.names

/-- Whether scopes, innermost first, hold what the ledger says in ranges of slots that
lie below each other. -/
inductive Stocked : Nat → List Scope → List (List Holding) → Prop
  | nil {bound : Nat} : Stocked bound [] []
  | cons {bound : Nat} {scope : Scope} {held : List Holding}
      {scopes : List Scope} {ledger : List (List Holding)}
      (howns : scope.Owns held bound) (hrest : Stocked scope.base scopes ledger) :
      Stocked bound (scope :: scopes) (held :: ledger)

namespace Scope.Owns

variable {scope : Scope} {held : List Holding} {bound : Nat}

/-- A new scope holds nothing. -/
theorem empty (bound : Nat) : Scope.Owns { base := bound } [] bound where
  base_le := Nat.le_refl _
  range := List.forall_mem_nil _
  distinct := List.nodup_nil
  names name slot := by simp
  pending name h := by simp

/-- The slot at the bound is not held yet. -/
theorem range_cons (h : scope.Owns held bound) (name : Option String) :
    (∀ x ∈ ⟨name, bound⟩ :: held, scope.base ≤ x.slot ∧ x.slot < bound + 1) ∧
      ((⟨name, bound⟩ :: held : List Holding).map (·.slot)).Nodup := by
  refine ⟨List.forall_mem_cons.mpr ⟨⟨h.base_le, Nat.lt_succ_self _⟩, fun x hx => ?_⟩,
    List.nodup_cons.mpr ⟨fun hmem => ?_, h.distinct⟩⟩
  · exact ⟨(h.range x hx).1, Nat.lt_succ_of_lt (h.range x hx).2⟩
  · obtain ⟨x, hx, hslot⟩ := List.mem_map.mp hmem
    exact Nat.ne_of_lt (h.range x hx).2 hslot

/-- A scope may take the slot at the bound without a name. -/
theorem grow (h : scope.Owns held bound) : scope.Owns (⟨none, bound⟩ :: held) (bound + 1) where
  base_le := Nat.le_succ_of_le h.base_le
  range := (h.range_cons none).1
  distinct := (h.range_cons none).2
  names name slot := by simp [h.names]
  pending := h.pending

/-- A scope may take the slot at the bound for a name that it has not declared. -/
theorem extend (h : scope.Owns held bound) {name : String} (hname : name ∉ scope.names) :
    Scope.Owns
      { scope with names := scope.names.insert name bound, pending := scope.pending.erase name }
      (⟨some name, bound⟩ :: held) (bound + 1) where
  base_le := Nat.le_succ_of_le h.base_le
  range := (h.range_cons (some name)).1
  distinct := (h.range_cons (some name)).2
  names other slot := by
    rw [Std.TreeMap.getElem?_insert]
    split
    next heq =>
      obtain rfl := Std.compare_eq_iff_eq.mp heq
      have hnone : ⟨some name, slot⟩ ∉ held := by
        rw [← h.names, Std.TreeMap.getElem?_eq_none hname]
        exact (Option.some_ne_none slot).symm
      simp [hnone, eq_comm]
    next hne =>
      have hother : other ≠ name := fun heq => hne (Std.compare_eq_iff_eq.mpr heq.symm)
      simp [h.names, hother]
  pending other hother := by
    rw [Std.TreeSet.mem_erase] at hother
    rw [Std.TreeMap.mem_insert, not_or]
    exact ⟨hother.1, h.pending other hother.2⟩

/-- A name is pending only where it is not declared. -/
theorem announce (h : scope.Owns held bound) {name : String} (hname : name ∉ scope.names) :
    Scope.Owns { scope with pending := scope.pending.insert name } held bound where
  base_le := h.base_le
  range := h.range
  distinct := h.distinct
  names := h.names
  pending other hother := by
    rcases Std.TreeSet.mem_insert.mp hother with heq | hmem
    · exact Std.compare_eq_iff_eq.mp heq ▸ hname
    · exact h.pending other hmem

end Scope.Owns

namespace Stocked

variable {bound : Nat} {scopes : List Scope} {ledger : List (List Holding)}

/-- What is held lies below the bound. -/
theorem slot_lt (h : Stocked bound scopes ledger) {x : Holding} (hx : x ∈ ledger.flatten) :
    x.slot < bound := by
  induction h with
  | nil => cases hx
  | cons howns hrest ih =>
    rcases List.mem_append.mp hx with hinner | houter
    · exact (howns.range x hinner).2
    · exact Nat.lt_of_lt_of_le (ih houter) howns.base_le

/-- No slot is held twice. -/
theorem nodup (h : Stocked bound scopes ledger) : (ledger.flatten.map (·.slot)).Nodup := by
  induction h with
  | nil => exact List.nodup_nil
  | cons howns hrest ih =>
    rw [List.flatten_cons, List.map_append, List.nodup_append]
    refine ⟨howns.distinct, ih, fun a ha b hb => ?_⟩
    obtain ⟨x, hx, rfl⟩ := List.mem_map.mp ha
    obtain ⟨y, hy, rfl⟩ := List.mem_map.mp hb
    -- The outer scopes end where the inner one begins.
    exact Nat.ne_of_gt (Nat.lt_of_lt_of_le (hrest.slot_lt hy) (howns.range x hx).1)

/-- No scope begins above the bound. -/
theorem base_le (h : Stocked bound scopes ledger) : ∀ scope ∈ scopes, scope.base ≤ bound := by
  induction h with
  | nil => exact List.forall_mem_nil _
  | cons howns hrest ih =>
    exact List.forall_mem_cons.mpr
      ⟨howns.base_le, fun scope hscope => Nat.le_trans (ih scope hscope) howns.base_le⟩

/-- No scope begins above a scope inside it. -/
theorem pairwise_base (h : Stocked bound scopes ledger) :
    scopes.Pairwise fun inner outer => outer.base ≤ inner.base := by
  induction h with
  | nil => exact List.Pairwise.nil
  | cons howns hrest ih => exact List.Pairwise.cons hrest.base_le ih

/-- The names of each scope are those of what it holds. -/
theorem names (h : Stocked bound scopes ledger) :
    List.Forall₂ (fun scope held => ∀ (name : String) (slot : Nat),
      scope.names[name]? = some slot ↔ ⟨some name, slot⟩ ∈ held) scopes ledger := by
  induction h with
  | nil => exact List.Forall₂.nil
  | cons howns hrest ih => exact List.Forall₂.cons howns.names ih

/-- No scope has declared a name that is pending in it. -/
theorem pending (h : Stocked bound scopes ledger) :
    ∀ scope ∈ scopes, ∀ name ∈ scope.pending, name ∉ scope.names := by
  induction h with
  | nil => exact List.forall_mem_nil _
  | cons howns hrest ih => exact List.forall_mem_cons.mpr ⟨howns.pending, ih⟩

end Stocked

namespace Scopes

/-- A slot without a name is refused at the limit alone. -/
theorem serve_allocate (s : Scopes) :
    s.serve .allocate =
      if s.next < countLimit then (.slot s.next, s.grow)
      else (.refused (.tooMany "local slots"), s) := by
  show s.answer s.allocate = _
  unfold allocate
  split <;> rfl

/-- A name is refused a slot if it has one, and at the limit. -/
theorem serve_declare (s : Scopes) (name : String) (duplicate : CompileFault) :
    s.serve (.declare name duplicate) =
      if name ∈ s.inner.names then (.refused duplicate, s)
      else if s.next < countLimit then (.slot s.next, s.extend name)
      else (.refused (.tooMany "local slots"), s) := by
  unfold serve declare allocate
  by_cases hname : name ∈ s.inner.names
  · simp [hname, answer]
  · by_cases hnext : s.next < countLimit <;> simp [hname, hnext, answer, extend, grow]

/-- A request leaves the next slot and the peak alone, gives slots back, or takes one
slot below the limit. -/
theorem next_serve (s : Scopes) (r : ScopeRequest) :
    (s.serve r).2.peak = s.peak ∧
      ((s.serve r).2.next = s.next ∨ (s.serve r).2.next = s.inner.base) ∨
      s.next < countLimit ∧ (s.serve r).2.next = s.next + 1 ∧
      (s.serve r).2.peak = max s.peak (s.next + 1) := by
  cases r with
  | enter => exact .inl ⟨rfl, .inl rfl⟩
  | leave =>
    refine .inl ⟨s.peak_leave, ?_⟩
    show s.leave.next = s.next ∨ s.leave.next = s.inner.base
    unfold leave
    split
    · exact .inl rfl
    · exact .inr rfl
  | announce name => exact .inl ⟨s.peak_announce name, .inl (s.next_announce name)⟩
  | declare name duplicate =>
    rw [serve_declare]
    split_ifs with hname hnext
    · exact .inl ⟨rfl, .inl rfl⟩
    · exact .inr ⟨hnext, rfl, rfl⟩
    · exact .inl ⟨rfl, .inl rfl⟩
  | allocate =>
    rw [serve_allocate]
    split_ifs with hnext
    · exact .inr ⟨hnext, rfl, rfl⟩
    · exact .inl ⟨rfl, .inl rfl⟩

end Scopes

/-- Leaving a scope closes its line of the ledger. -/
theorem Stocked.leave {s : Scopes} {ledger : List (List Holding)}
    (h : Stocked s.next s.all ledger) :
    Stocked s.leave.next s.leave.all (ScopeHistory.release ledger) := by
  obtain ⟨inner, outer, next, peak⟩ := s
  cases h with
  | cons howns hrest =>
    cases hrest with
    | nil => exact .cons howns .nil
    | cons howns' hrest' => exact .cons howns' hrest'

/-- Announcing a name leaves the ledger alone. -/
theorem Stocked.announce {s : Scopes} {ledger : List (List Holding)}
    (h : Stocked s.next s.all ledger) (name : String) :
    Stocked (s.announce name).next (s.announce name).all ledger := by
  unfold Scopes.announce
  split
  · exact h
  next hname =>
    rw [Std.TreeMap.contains_iff_mem] at hname
    cases h with
    | cons howns hrest => exact .cons (howns.announce hname) hrest

/-- Scopes and ledger change together. -/
theorem Stocked.serve {s : Scopes} {ledger : List (List Holding)} (h : Stocked s.next s.all ledger)
    (r : ScopeRequest) :
    Stocked (s.serve r).2.next (s.serve r).2.all (ScopeHistory.note ledger r (s.serve r).1) := by
  cases r with
  | enter => exact .cons (.empty s.next) h
  | leave => exact h.leave
  | announce name => exact h.announce name
  | declare name duplicate =>
    rw [Scopes.serve_declare]
    split_ifs with hname hnext
    · exact h
    · cases h with
      | cons howns hrest => exact .cons (howns.extend hname) hrest
    · exact h
  | allocate =>
    rw [Scopes.serve_allocate]
    split_ifs with hnext
    · cases h with
      | cons howns hrest => exact .cons howns.grow hrest
    · exact h

namespace ScopeHistory

/-- What is true of scopes and ledger after every request: the scopes hold what the ledger says, and
their peak is the largest next slot that there was. -/
structure Kept (h : ScopeHistory) : Prop where
  stocked : Stocked h.scopes.next h.scopes.all h.ledger
  next_le : h.scopes.next ≤ h.scopes.peak
  peak_le : h.scopes.peak ≤ countLimit
  peak_eq : h.nexts.max? = some h.scopes.peak

/-- Nothing is held before the first request. -/
theorem kept_empty : Kept {} where
  stocked := .cons (.empty 0) .nil
  next_le := Nat.le_refl 0
  peak_le := Nat.zero_le _
  peak_eq := rfl

/-- Every request keeps scopes and ledger in step. -/
theorem Kept.step {h : ScopeHistory} (hkept : h.Kept) (r : ScopeRequest) : (h.step r).Kept := by
  have hbase : h.scopes.inner.base ≤ h.scopes.next := hkept.stocked.base_le _ List.mem_cons_self
  have hnext := hkept.next_le
  have hpeak := hkept.peak_le
  have hserve := h.scopes.next_serve r
  -- The next slot falls only to the base of a scope, which is below the peak already.
  have hmax : (h.scopes.serve r).2.peak = max (h.scopes.serve r).2.next h.scopes.peak := by omega
  refine ⟨hkept.stocked.serve r, ?_, ?_, ?_⟩
  · show (h.scopes.serve r).2.next ≤ (h.scopes.serve r).2.peak
    omega
  · show (h.scopes.serve r).2.peak ≤ countLimit
    omega
  · show ((h.scopes.serve r).2.next :: h.nexts).max? = some (h.scopes.serve r).2.peak
    rw [List.max?_cons, hkept.peak_eq, hmax]
    rfl

/-- Scopes and ledger are in step after any requests. -/
theorem Kept.after {h : ScopeHistory} (hkept : h.Kept) (requests : List ScopeRequest) :
    (h.after requests).Kept := by
  induction requests generalizing h with
  | nil => exact hkept
  | cons r rest ih => exact ih (hkept.step r)

/-- Whether the open scopes are in order: no slot is held twice or lies above the next one, the
scopes know what has a name, their ranges lie one after the other within the limit, and the peak is
the largest next slot there was. -/
structure Lawful (h : ScopeHistory) : Prop where
  distinct : (h.ledger.flatten.map (·.slot)).Nodup
  slot_lt : ∀ x ∈ h.ledger.flatten, x.slot < h.scopes.next
  names : List.Forall₂ (fun scope held => ∀ (name : String) (slot : Nat),
    scope.names[name]? = some slot ↔ ⟨some name, slot⟩ ∈ held) h.scopes.all h.ledger
  pending : ∀ scope ∈ h.scopes.all, ∀ name ∈ scope.pending, name ∉ scope.names
  bases : h.scopes.all.Pairwise fun inner outer => outer.base ≤ inner.base
  base_le : ∀ scope ∈ h.scopes.all, scope.base ≤ h.scopes.next
  next_le : h.scopes.next ≤ h.scopes.peak
  peak_le : h.scopes.peak ≤ 65535
  peak_eq : h.nexts.max? = some h.scopes.peak

theorem Kept.lawful {h : ScopeHistory} (hkept : h.Kept) : h.Lawful where
  distinct := hkept.stocked.nodup
  slot_lt _ hx := hkept.stocked.slot_lt hx
  names := hkept.stocked.names
  pending := hkept.stocked.pending
  bases := hkept.stocked.pairwise_base
  base_le := hkept.stocked.base_le
  next_le := hkept.next_le
  peak_le := hkept.peak_le
  peak_eq := hkept.peak_eq

/-- Why a request for a slot is to be refused: the innermost scope holds a slot for the name, or
all slots are taken. -/
def denial? (h : ScopeHistory) : ScopeRequest → Option CompileFault
  | .declare name duplicate =>
    if (h.ledger.headD []).any (·.name == some name) then some duplicate
    else if h.scopes.next < countLimit then none
    else some (.tooMany "local slots")
  | .allocate => if h.scopes.next < countLimit then none else some (.tooMany "local slots")
  | _ => none

/-- Whether a request for a slot is answered properly: a refusal has its reason and changes nothing,
and else a slot is handed out that nobody holds. -/
structure Answers (h : ScopeHistory) (r : ScopeRequest) : Prop where
  refused : ∀ fault, h.denial? r = some fault →
    (h.scopes.serve r).1 = .refused fault ∧ (h.step r).scopes = h.scopes ∧
    (h.step r).ledger = h.ledger
  granted :
    h.denial? r = none → ∃ n, (h.scopes.serve r).1 = .slot n ∧ ∀ x ∈ h.ledger.flatten, x.slot ≠ n

/-- The innermost scope has declared a name if it holds a slot for it. -/
theorem Kept.any_head_iff {h : ScopeHistory} (hkept : h.Kept) (name : String) :
    (h.ledger.headD []).any (·.name == some name) = true ↔ name ∈ h.scopes.inner.names := by
  have hnames := hkept.stocked.names
  revert hnames
  cases h.ledger with
  | nil =>
    intro hnames
    cases hnames
  | cons held rest =>
    intro hnames
    have hinner := (List.forall₂_cons.mp hnames).1
    rw [List.headD_cons, List.any_eq_true, Std.TreeMap.mem_iff_isSome_getElem?,
      Option.isSome_iff_exists]
    constructor
    · rintro ⟨x, hx, hname⟩
      refine ⟨x.slot, (hinner name x.slot).mpr ?_⟩
      rw [← beq_iff_eq.mp hname]
      exact hx
    · rintro ⟨slot, hslot⟩
      exact ⟨_, (hinner name slot).mp hslot, beq_self_eq_true _⟩

/-- Nobody holds the next slot. -/
theorem Kept.slot_ne_next {h : ScopeHistory} (hkept : h.Kept) :
    ∀ x ∈ h.ledger.flatten, x.slot ≠ h.scopes.next :=
  fun _ hx => Nat.ne_of_lt (hkept.stocked.slot_lt hx)

/-- A slot is handed out unless there is a reason to refuse it. -/
theorem Kept.serve_eq {h : ScopeHistory} (hkept : h.Kept) {r : ScopeRequest}
    (hr : r.takesSlot = true) :
    ∃ t : Scopes, h.scopes.serve r =
      (h.denial? r).elim (.slot h.scopes.next, t) fun fault => (.refused fault, h.scopes) := by
  cases r with
  | enter => cases hr
  | leave => cases hr
  | announce name => cases hr
  | declare name duplicate =>
    refine ⟨h.scopes.extend name, ?_⟩
    rw [Scopes.serve_declare, denial?]
    simp only [hkept.any_head_iff name]
    split_ifs <;> rfl
  | allocate =>
    refine ⟨h.scopes.grow, ?_⟩
    rw [Scopes.serve_allocate, denial?]
    split_ifs <;> rfl

/-- Requests for slots are answered properly. -/
theorem Kept.answers {h : ScopeHistory} (hkept : h.Kept) {r : ScopeRequest}
    (hr : r.takesSlot = true) : h.Answers r := by
  obtain ⟨t, hserve⟩ := hkept.serve_eq hr
  constructor
  · intro fault hfault
    rw [hfault] at hserve
    have hanswer : (h.scopes.serve r).1 = .refused fault := congrArg Prod.fst hserve
    refine ⟨hanswer, congrArg Prod.snd hserve, ?_⟩
    show note h.ledger r (h.scopes.serve r).1 = h.ledger
    rw [hanswer]
    cases r with
    | enter => cases hr
    | leave => cases hr
    | announce name => cases hr
    | declare name duplicate => rfl
    | allocate => rfl
  · intro hnone
    rw [hnone] at hserve
    exact ⟨h.scopes.next, congrArg Prod.fst hserve, hkept.slot_ne_next⟩

end ScopeHistory

/-- Requests that close every scope they open, and no other. -/
inductive Balanced : List ScopeRequest → Prop
  | nil : Balanced []
  | cons {r : ScopeRequest} {rest : List ScopeRequest} (henter : r ≠ .enter) (hleave : r ≠ .leave)
      (hrest : Balanced rest) : Balanced (r :: rest)
  | scope {body rest : List ScopeRequest} (hbody : Balanced body) (hrest : Balanced rest) :
      Balanced (.enter :: (body ++ .leave :: rest))

namespace Scopes

/-- Whether two scopes give every name the same meaning and hand out the same slot next. -/
structure Alike (s t : Scopes) : Prop where
  find?_eq : ∀ name : String, t.find? name = s.find? name
  isPending_eq : ∀ name : String, t.isPending name = s.isPending name
  next_eq : t.next = s.next

/-- The peak says nothing about names. -/
theorem alike_peak (s : Scopes) (peak : Nat) : s.Alike { s with peak } where
  find?_eq _ := rfl
  isPending_eq _ := rfl
  next_eq := rfl

/-- A request that opens and closes no scope stays inside the innermost one. -/
theorem inside_serve (s : Scopes) {r : ScopeRequest} (henter : r ≠ .enter) (hleave : r ≠ .leave) :
    s.Inside (s.serve r).2 := by
  cases r with
  | enter => exact absurd rfl henter
  | leave => exact absurd rfl hleave
  | announce name => exact inside_announce name
  | declare name duplicate =>
    rw [serve_declare]
    split_ifs
    · exact .refl s
    · exact inside_extend name
    · exact .refl s
  | allocate =>
    rw [serve_allocate]
    split_ifs
    · exact inside_grow
    · exact .refl s

end Scopes

namespace ScopeHistory

theorem after_append (h : ScopeHistory) (first rest : List ScopeRequest) :
    h.after (first ++ rest) = (h.after first).after rest :=
  List.foldl_append

/-- A scope that is opened and closed again leaves the scopes as they were, up to the peak. -/
theorem scopes_after_scope {h : ScopeHistory} {body : List ScopeRequest}
    (hbody : h.scopes.enter.Inside ((h.step .enter).after body).scopes) :
    ∃ peak, h.scopes.peak ≤ peak ∧
      (h.after (.enter :: (body ++ [.leave]))).scopes = { h.scopes with peak } := by
  refine ⟨_, hbody.peak_le, ?_⟩
  show ((h.step .enter).after (body ++ [.leave])).scopes = _
  rw [after_append]
  exact hbody.leave

/-- Balanced requests stay inside the innermost scope. -/
theorem inside_after {body : List ScopeRequest} (hbody : Balanced body) (h : ScopeHistory) :
    h.scopes.Inside (h.after body).scopes := by
  induction hbody generalizing h with
  | nil => exact .refl _
  | cons henter hleave hrest ih => exact (h.scopes.inside_serve henter hleave).trans (ih (h.step _))
  | @scope body rest hbody hrest ihbody ihrest =>
    -- The scope that is opened and closed again comes first, and the other requests follow
    -- in the same scopes.
    obtain ⟨peak, hpeak, hclosed⟩ := scopes_after_scope (ihbody (h.step .enter))
    have hopened : h.scopes.Inside (h.after (.enter :: (body ++ [.leave]))).scopes := by
      rw [hclosed]
      exact ⟨rfl, rfl, Nat.le_refl _, hpeak⟩
    have hsplit : ScopeRequest.enter :: (body ++ .leave :: rest) =
        .enter :: (body ++ [.leave]) ++ rest := by simp
    rw [hsplit, after_append]
    exact hopened.trans (ihrest _)

/-- Whatever was asked of the scopes, they are in order, the next slot is handed out properly, and a
scope that is opened and closed again, with any scopes inside it, changes no meaning of a name. -/
theorem ofRequests_lawful (requests : List ScopeRequest) :
    (ofRequests requests).Lawful ∧
      (∀ r : ScopeRequest, r.takesSlot = true → (ofRequests requests).Answers r) ∧
      ∀ body : List ScopeRequest, Balanced body →
        (ofRequests requests).scopes.Alike
          ((ofRequests requests).after (.enter :: (body ++ [.leave]))).scopes := by
  have hkept : (ofRequests requests).Kept := kept_empty.after requests
  refine ⟨hkept.lawful, fun r hr => hkept.answers hr, fun body hbody => ?_⟩
  obtain ⟨peak, _, hclosed⟩ :=
    scopes_after_scope (inside_after hbody ((ofRequests requests).step .enter))
  rw [hclosed]
  exact Scopes.alike_peak _ peak

/-- A history in which one name has a slot. -/
def namedHistory : ScopeHistory :=
  ofRequests [.declare "x" (.duplicateDeclaration "x")]

/-- Requests that hide the name, with a scope among them that takes a slot without a name. -/
def hidingRequests : List ScopeRequest :=
  [.declare "x" (.duplicateDeclaration "x"), .enter, .allocate, .leave, .announce "y"]

theorem balanced_hidingRequests : Balanced hidingRequests := by
  have hinner : Balanced [.allocate] := .cons nofun nofun .nil
  have hrest : Balanced [.announce "y"] := .cons nofun nofun .nil
  exact .cons nofun nofun (.scope hinner hrest)

theorem hiddenName_restored :
    Balanced hidingRequests ∧
      namedHistory.scopes.find? "x" = some 0 ∧
      (namedHistory.after (.enter :: hidingRequests)).scopes.find? "x" = some 1 ∧
      namedHistory.scopes.Alike (namedHistory.after
          (.enter :: (hidingRequests ++ [.leave]))).scopes ∧
      namedHistory.Answers (.declare "x" (.duplicateDeclaration "x")) := by
  obtain ⟨_, hanswers, halike⟩ := ofRequests_lawful [.declare "x" (.duplicateDeclaration "x")]
  refine ⟨balanced_hidingRequests, ?_, ?_, halike hidingRequests balanced_hidingRequests,
    hanswers _ rfl⟩
  · decide
  · decide

end ScopeHistory

end HostScript
