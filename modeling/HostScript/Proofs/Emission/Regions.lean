import HostScript.Proofs.Emission.Unit

/-!
# Regions of a unit

The code of a unit is cut into regions, one for each body: a region begins at the start of its entry
and ends where the next entry starts, or where the code does. The regions of an emitted program are
exactly the stretches of code of its bodies, the top-level code first.
-/

namespace HostScript

/-- A stretch of code that belongs to one body, and the number of slots in a frame of that body. -/
structure Region where
  start : Nat
  /-- The first offset behind the region. -/
  stop : Nat
  locals : Nat
  deriving DecidableEq, Repr

/-- The offsets of a region. -/
instance : Membership Nat Region where
  mem r pc := r.start ≤ pc ∧ pc < r.stop

theorem Region.mem_iff {r : Region} {pc : Nat} : pc ∈ r ↔ r.start ≤ pc ∧ pc < r.stop :=
  Iff.rfl

/-- The regions of entries in the order of their code, which ends at `size`. -/
def Region.ofEntries (size : Nat) : List Entry → List Region
  | [] => []
  | entry :: rest =>
    { start := entry.start
      stop := (rest.head?.map (·.start)).getD size
      locals := entry.locals } ::
      Region.ofEntries size rest

namespace CodeUnit

/-- The entries of a unit, the top-level code first. -/
def entries (u : CodeUnit) : List Entry :=
  u.top :: u.functions.toList

/-- The regions of a unit, the top-level code first. -/
def regions (u : CodeUnit) : List Region :=
  Region.ofEntries u.code.size u.entries

/-- The instructions of a region. -/
def regionCode (u : CodeUnit) (r : Region) : List Instruction :=
  (u.code.toList.drop r.start).take (r.stop - r.start)

/-- The region of a body: that of the top-level code, or of a function by its number. -/
def region? (u : CodeUnit) : Option Nat → Option Region
  | none => u.regions[0]?
  | some id => u.regions[id + 1]?

end CodeUnit

namespace Bound

/-- The region of a body that starts at an offset. -/
def Body.region (start : Nat) (b : Body) : Region where
  start
  stop := start + b.size
  locals := b.locals

/-- The number of instructions of bodies together. -/
def Body.sizes : List Body → Nat
  | [] => 0
  | b :: rest => b.size + Body.sizes rest

/-- The regions of bodies that stand one after the other. -/
def Body.regions (start : Nat) : List Body → List Region
  | [] => []
  | b :: rest => b.region start :: Body.regions (start + b.size) rest

namespace Program

variable (program : Program)

/-- The bodies of a program in the order of their code. -/
def bodies : List Body :=
  program.top :: program.functions

/-- The body of the top-level code, or of a function by its number. -/
def body? : Option Nat → Option Body
  | none => some program.top
  | some id => program.functions[id]?

end Program

@[simp] theorem Body.length_codes (start : Nat) (bs : List Body) :
    (Body.codes start bs).length = Body.sizes bs := by
  induction bs generalizing start with
  | nil => rfl
  | cons b rest ih => simp [Body.codes, Body.sizes, ih]

@[simp] theorem Body.length_regions (start : Nat) (bs : List Body) :
    (Body.regions start bs).length = bs.length := by
  induction bs generalizing start with
  | nil => rfl
  | cons b rest ih => rw [Body.regions, List.length_cons, List.length_cons, ih]

/-- Entries that stand one after the other cut the code into the regions of their bodies. -/
theorem Body.ofEntries_entries (start : Nat) (bs : List Body) :
    Region.ofEntries (start + Body.sizes bs) (Body.entries start bs) = Body.regions start bs := by
  induction bs generalizing start with
  | nil => rfl
  | cons b rest ih =>
    have hsize : start + Body.sizes (b :: rest) = start + b.size + Body.sizes rest := by
      rw [Body.sizes]
      omega
    rw [hsize, Body.entries, Region.ofEntries, ih, Body.regions]
    congr 1
    -- The next region starts where this one stops, and without one the code ends there.
    cases rest <;> simp [Body.region, Body.entry, Body.entries, Body.sizes]

/-- The region of a body, found by its position, holds the code of that body. -/
theorem Body.regions_getElem? {start k : Nat} {bs : List Body} {r : Region}
    (h : (Body.regions start bs)[k]? = some r) :
    ∃ b, bs[k]? = some b ∧ r = b.region r.start ∧
      ∀ P, Op.Each P start (Body.codes start bs) → Op.Each P r.start (b.code r.start) := by
  induction bs generalizing start k with
  | nil => simp [Body.regions] at h
  | cons b rest ih =>
    cases k with
    | zero =>
      obtain rfl : b.region start = r := by simpa [Body.regions] using h
      exact ⟨b, rfl, rfl, fun P hP => (Op.each_append.mp hP).1⟩
    | succ k =>
      obtain ⟨b', hb', hr, hcode⟩ := ih (by simpa [Body.regions] using h)
      refine ⟨b', by simpa using hb', hr, fun P hP => hcode P ?_⟩
      have hrest := (Op.each_append.mp hP).2
      rwa [Body.length_code] at hrest

/-- The entry and the region of a body have the same position. -/
theorem Body.entries_getElem? (start k : Nat) (bs : List Body) :
    (Body.entries start bs)[k]? =
      (Body.regions start bs)[k]?.bind fun r => bs[k]?.map fun b => b.entry r.start := by
  induction bs generalizing start k with
  | nil => simp [Body.entries, Body.regions]
  | cons b rest ih => cases k <;> simp [Body.entries, Body.regions, Body.region, ih]

/-- Regions that stand one after the other are, put together, one stretch of code. -/
theorem Body.flatten_regions (code : List Instruction) (start : Nat) (bs : List Body) :
    ((Body.regions start bs).map fun r => (code.drop r.start).take (r.stop - r.start)).flatten =
      (code.drop start).take (Body.sizes bs) := by
  induction bs generalizing start with
  | nil => simp [Body.regions, Body.sizes]
  | cons b rest ih =>
    rw [Body.regions, List.map_cons, List.flatten_cons, ih, Body.sizes, List.take_add,
      List.drop_drop]
    simp [Body.region]

namespace Program

variable (program : Program)

/-- The code of a program is that of its bodies. -/
theorem code_eq_codes : program.code = Body.codes 0 program.bodies := by
  simp [Program.code, Program.bodies, Body.codes]

/-- The unit of a program has as many instructions as its bodies together. -/
theorem size_code_eq_sizes : program.toUnit.code.size = Body.sizes program.bodies := by
  rw [size_code_toUnit, code_eq_codes, Body.length_codes]

/-- The entries of the unit are those of the bodies. -/
theorem entries_toUnit : program.toUnit.entries = Body.entries 0 program.bodies := by
  simp [toUnit_eq, CodeUnit.entries, Program.bodies, Body.entries]

/-- The regions of the unit are those of the bodies. -/
theorem regions_toUnit : program.toUnit.regions = Body.regions 0 program.bodies := by
  rw [CodeUnit.regions, entries_toUnit, size_code_eq_sizes, ← Body.ofEntries_entries, Nat.zero_add]

/-- A region of the unit holds the code of the body with the same position. -/
theorem regions_toUnit_getElem? {program : Program} {k : Nat} {r : Region}
    (h : program.toUnit.regions[k]? = some r) :
    ∃ b, program.bodies[k]? = some b ∧ r = b.region r.start ∧
      ∀ P, Op.Each P 0 program.code → Op.Each P r.start (b.code r.start) := by
  rw [regions_toUnit] at h
  rw [code_eq_codes]
  exact Body.regions_getElem? h

/-- The region of a body holds the code of that body. -/
theorem region_toUnit {program : Program} {function : Option Nat} {r : Region}
    (h : program.toUnit.region? function = some r) :
    ∃ b, program.body? function = some b ∧ r = b.region r.start ∧
      ∀ P, Op.Each P 0 program.code → Op.Each P r.start (b.code r.start) := by
  cases function with
  | none =>
    obtain ⟨b, hb, hrest⟩ := regions_toUnit_getElem? h
    exact ⟨b, by simpa [bodies, body?] using hb, hrest⟩
  | some id =>
    obtain ⟨b, hb, hrest⟩ := regions_toUnit_getElem? h
    exact ⟨b, by simpa [bodies, body?] using hb, hrest⟩

/-- Every function has a region, which holds its code. -/
theorem exists_region_toUnit {program : Program} {id : Nat} {b : Body}
    (hb : program.functions[id]? = some b) :
    ∃ start, program.toUnit.region? (some id) = some (b.region start) ∧
      ∀ P, Op.Each P 0 program.code → Op.Each P start (b.code start) := by
  obtain ⟨hid, -⟩ := List.getElem?_eq_some_iff.mp hb
  have hlength : id + 1 < program.toUnit.regions.length := by
    rw [regions_toUnit, Body.length_regions, bodies, List.length_cons]
    exact Nat.succ_lt_succ hid
  have hregion : program.toUnit.region? (some id) = some program.toUnit.regions[id + 1] :=
    List.getElem?_eq_getElem hlength
  obtain ⟨b', hb', hr, hcode⟩ := region_toUnit hregion
  obtain rfl : b = b' := Option.some.inj (hb.symm.trans hb')
  rw [hr] at hregion
  exact ⟨_, hregion, hcode⟩

/-- A function in the table has a region, and its entry is that of its body. -/
theorem function_toUnit {program : Program} {id : Nat} {entry : Entry}
    (h : program.toUnit.functions[id]? = some entry) :
    ∃ b, program.functions[id]? = some b ∧ entry = b.entry entry.start ∧
      program.toUnit.region? (some id) = some (b.region entry.start) := by
  have hentry : program.toUnit.entries[id + 1]? = some entry := by simpa [CodeUnit.entries] using h
  rw [entries_toUnit, Body.entries_getElem?] at hentry
  obtain ⟨r, hr, hmap⟩ := Option.bind_eq_some_iff.mp hentry
  obtain ⟨b, hb, rfl⟩ := Option.map_eq_some_iff.mp hmap
  obtain ⟨b', hb', hregion, -⟩ := Body.regions_getElem? hr
  obtain rfl : b = b' := by simpa [hb] using hb'
  refine ⟨b, by simpa [bodies] using hb, rfl, ?_⟩
  rw [CodeUnit.region?, regions_toUnit, hr, hregion]
  rfl

/-- The regions of the unit are, put together, its code. -/
theorem flatten_regions_toUnit :
    (program.toUnit.regions.map program.toUnit.regionCode).flatten =
      program.toUnit.code.toList := by
  have hsize : program.toUnit.code.toList.length = Body.sizes program.bodies :=
    size_code_eq_sizes program
  have hflatten := Body.flatten_regions program.toUnit.code.toList 0 program.bodies
  rw [← regions_toUnit, List.drop_zero, ← hsize, List.take_length] at hflatten
  exact hflatten

end Program

end Bound

end HostScript
