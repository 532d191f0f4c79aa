import Mathlib.Data.List.Nodup
import HostScript.Compile.Signature

/-!
# Tables of a program

The tables that binding works with say the same as the program: a name stands for the function with
that name, under its position and with its number of parameters, and for the script global with that
name, under its position among the names that top-level statements declare.
-/

namespace HostScript

/-- The script globals of a program, in order. -/
def Program.globalNames (program : Program) : List String :=
  program.statements.filterMap Stmt.declared?

/-- Only declarations declare a name. -/
theorem Stmt.eq_declare {stmt : Stmt} {name : String} (h : stmt.declared? = some name) :
    ∃ initial, stmt = .declare name initial := by
  unfold Stmt.declared? at h
  split at h
  · exact ⟨_, by rw [Option.some.inj h]⟩
  · cases h

namespace Signatures

variable {s s' : Signatures}

/-- Whether the table of functions is that of a list of functions. -/
def HasFunctions (s : Signatures) (fs : List FunctionDecl) : Prop :=
  ∀ (name : String) (signature : Signature), s.functions[name]? = some signature ↔
    ∃ f, fs[signature.id]? = some f ∧ f.name = name ∧ f.params.length = signature.arity

/-- Whether the table of script globals is that of a list of names. -/
structure HasGlobals (s : Signatures) (names : List String) : Prop where
  names_eq : s.globalNames.toList = names
  id_iff : ∀ (name : String) (id : Nat), s.globals[name]? = some id ↔ names[id]? = some name

/-- A function with a new name goes to the end of the table. -/
theorem HasFunctions.insert {fs : List FunctionDecl} (h : s.HasFunctions fs) {f : FunctionDecl}
    (hnew : f.name ∉ s.functions) :
    HasFunctions { s with functions := s.functions.insert f.name ⟨fs.length, f.params.length⟩ }
      (fs ++ [f]) := by
  intro name signature
  -- A function of the same name further up in the list would be in the table already.
  have hother : ∀ g ∈ fs, g.name ≠ f.name := by
    intro g hg hname
    obtain ⟨k, hk, rfl⟩ := List.mem_iff_getElem.mp hg
    have hfound := (h f.name ⟨k, fs[k].params.length⟩).mpr ⟨fs[k], by simp [hk], hname, rfl⟩
    exact hnew (Std.TreeMap.mem_iff_isSome_getElem?.mpr (by simp [hfound]))
  obtain ⟨id, arity⟩ := signature
  simp only [Std.TreeMap.getElem?_insert]
  split
  next heq =>
    obtain rfl : f.name = name := by simpa using heq
    constructor
    · intro hsome
      obtain ⟨rfl, rfl⟩ : fs.length = id ∧ f.params.length = arity := by simpa using hsome
      exact ⟨f, by simp, rfl, rfl⟩
    · rintro ⟨g, hg, hname, rfl⟩
      rcases Nat.lt_trichotomy id fs.length with hlt | rfl | hgt
      · rw [List.getElem?_append_left hlt] at hg
        exact absurd hname (hother g (List.mem_of_getElem? hg))
      · obtain rfl : f = g := by simpa using hg
        rfl
      · simp [List.getElem?_eq_none (show (fs ++ [f]).length ≤ id by simp; omega)] at hg
  next hne =>
    have hne : f.name ≠ name := by simpa using hne
    rw [h name ⟨id, arity⟩]
    constructor
    · rintro ⟨g, hg, hrest⟩
      exact ⟨g, by rw [List.getElem?_append_left (List.getElem?_eq_some_iff.mp hg).1]; exact hg,
        hrest⟩
    · rintro ⟨g, hg, hname, harity⟩
      refine ⟨g, ?_, hname, harity⟩
      rcases Nat.lt_trichotomy id fs.length with hlt | rfl | hgt
      · rwa [List.getElem?_append_left hlt] at hg
      · obtain rfl : f = g := by simpa using hg
        exact absurd hname hne
      · simp [List.getElem?_eq_none (show (fs ++ [f]).length ≤ id by simp; omega)] at hg

/-- Entering functions leaves the script globals alone and completes the table. -/
theorem addFunctions_table {fs : List FunctionDecl} (rest : List FunctionDecl)
    (h : s.HasFunctions fs) (hok : s.addFunctions fs.length rest = .ok s') :
    s'.HasFunctions (fs ++ rest) ∧ s'.globals = s.globals ∧ s'.globalNames = s.globalNames := by
  induction rest generalizing s fs with
  | nil =>
    obtain rfl : s = s' := by simpa [addFunctions] using hok
    exact ⟨by simpa using h, rfl, rfl⟩
  | cons f rest ih =>
    rw [addFunctions] at hok
    split at hok
    · cases hok
    split at hok
    · cases hok
    split at hok
    · cases hok
    next hnew =>
    have hnext := h.insert (f := f) (by simpa using hnew)
    have := ih hnext (by simpa using hok)
    simpa using this

/-- A new name goes to the end of the script globals. -/
theorem HasGlobals.push {names : List String} (h : s.HasGlobals names) {name : String}
    (hnew : name ∉ s.globals) :
    HasGlobals
      { s with
        globals := s.globals.insert name s.globalNames.size
        globalNames := s.globalNames.push name }
      (names ++ [name]) := by
  have hsize : s.globalNames.size = names.length := by rw [← h.names_eq, Array.length_toList]
  refine ⟨by simp [h.names_eq], fun other id => ?_⟩
  simp only [Std.TreeMap.getElem?_insert, hsize]
  split
  next heq =>
    obtain rfl : name = other := by simpa using heq
    rcases Nat.lt_trichotomy id names.length with hlt | rfl | hgt
    · rw [List.getElem?_append_left hlt, ← h.id_iff]
      have hnone : s.globals[name]? = none := by simpa using hnew
      simp [hnone, Nat.ne_of_gt hlt]
    · simp
    · simp [List.getElem?_eq_none (show (names ++ [name]).length ≤ id by simp; omega),
        Nat.ne_of_lt hgt]
  next hne =>
    have hne : name ≠ other := by simpa using hne
    rw [h.id_iff]
    rcases Nat.lt_trichotomy id names.length with hlt | rfl | hgt
    · rw [List.getElem?_append_left hlt]
    · simp [hne]
    · simp [List.getElem?_eq_none (show (names ++ [name]).length ≤ id by simp; omega),
        List.getElem?_eq_none (Nat.le_of_lt hgt)]

/-- Entering script globals leaves the functions alone and completes the table. -/
theorem addGlobals_table {names : List String} (statements : List Stmt) (h : s.HasGlobals names)
    (hok : s.addGlobals statements = .ok s') :
    s'.HasGlobals (names ++ statements.filterMap Stmt.declared?) ∧ s'.functions = s.functions := by
  induction statements generalizing s names with
  | nil =>
    obtain rfl : s = s' := by simpa [addGlobals] using hok
    exact ⟨by simpa using h, rfl⟩
  | cons stmt rest ih =>
    rw [addGlobals] at hok
    split at hok
    next hnone =>
      have := ih h hok
      simpa [hnone] using this
    next name hsome =>
      split at hok
      · cases hok
      split at hok
      · cases hok
      next hnew =>
      have := ih (h.push (by simpa using hnew : name ∉ s.globals)) hok
      simpa [hsome] using this

/-- The tables of a program. -/
theorem ofProgram_table {program : Program} (hok : ofProgram program = .ok s) :
    s.HasFunctions program.functions ∧ s.HasGlobals program.globalNames := by
  unfold ofProgram at hok
  split at hok
  · cases hok
  next s₁ hfunctions =>
    have hempty : HasFunctions {} [] := by
      intro name signature
      simp
    obtain ⟨htable, hglobals, hnames⟩ := addFunctions_table program.functions hempty hfunctions
    have hnone : s₁.HasGlobals [] := by
      refine ⟨by simp [hnames], fun name id => ?_⟩
      simp [hglobals]
    obtain ⟨hglobals', hsame⟩ := addGlobals_table program.statements hnone hok
    refine ⟨fun name signature => ?_, by simpa [Program.globalNames] using hglobals'⟩
    rw [hsame]
    simpa using htable name signature

/-- Functions in a table have different names. -/
theorem HasFunctions.nodup {fs : List FunctionDecl} (h : s.HasFunctions fs) :
    (fs.map (·.name)).Nodup := by
  rw [List.nodup_iff_getElem?_ne_getElem?]
  intro i j hij hj heq
  have hj' : j < fs.length := by simpa using hj
  have hi' : i < fs.length := Nat.lt_trans hij hj'
  have hname : fs[i].name = fs[j].name := by
    simpa [List.getElem?_eq_getElem, hi', hj'] using heq
  have hfirst := (h fs[j].name ⟨i, fs[i].params.length⟩).mpr ⟨fs[i], by simp [hi'], hname, rfl⟩
  have hsecond := (h fs[j].name ⟨j, fs[j].params.length⟩).mpr ⟨fs[j], by simp [hj'], rfl, rfl⟩
  rw [hfirst] at hsecond
  have : i = j := by
    injection hsecond with hsecond
    exact congrArg Signature.id hsecond
  omega

/-- Script globals in a table have different names. -/
theorem HasGlobals.nodup {names : List String} (h : s.HasGlobals names) : names.Nodup := by
  rw [List.nodup_iff_getElem?_ne_getElem?]
  intro i j hij hj heq
  rw [List.getElem?_eq_getElem hj] at heq
  have hfirst := (h.id_iff names[j] i).mpr heq
  have hsecond := (h.id_iff names[j] j).mpr (List.getElem?_eq_getElem hj)
  rw [hfirst] at hsecond
  have : i = j := by simpa using hsecond
  omega

end Signatures

end HostScript
