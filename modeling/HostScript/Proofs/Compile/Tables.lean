import HostScript.Compile
import HostScript.Proofs.Compile.Operands

/-!
# Tables of compiled units

The table of functions of a compiled unit lists the functions of the program in order, and its table
of globals the script globals. So binding worked with numbers that mean the same in the unit, and
every body of the bound program mentions only what the unit has.
-/

namespace HostScript

/-- A program compiles to the unit of its bound program. -/
theorem compile_eq_ok_iff {p : Program} {u : CodeUnit} :
    compile p = .ok u ↔ ∃ program, p.bind = .ok program ∧ program.toUnit = u :=
  map_eq_ok_iff

/-- A function is bound as a body with its name and its parameters, which sees every script
global. -/
theorem bindFunction_eq_ok_iff {s : Signatures} {f : FunctionDecl} {b : Bound.Body} :
    bindFunction s f = .ok b ↔
      bindBody { signatures := s, topLevel := false }
        { reached := s.globalNames.size } f.name f.params [f.body] = .ok b :=
  mapError_eq_ok_iff

/-- Top-level code is bound as a body without parameters, which sees no script global at its
start. -/
theorem bindTopLevel_eq_ok_iff {s : Signatures} {statements : List Stmt} {b : Bound.Body} :
    bindTopLevel s statements = .ok b ↔
      bindBody { signatures := s, topLevel := true } {} topLevelName [] statements = .ok b :=
  mapError_eq_ok_iff

/-- A bound body has the name and as many parameters as it was bound with. -/
theorem bindBody_signature {around : Surroundings} {v : Visible} {name : String}
    {params : List String} {statements : List Stmt} {b : Bound.Body}
    (h : bindBody around v name params statements = .ok b) :
    b.name = name ∧ b.arity = params.length := by
  obtain ⟨_, _, _, _, _, rfl⟩ := bindBody_eq_ok_iff.mp h
  exact ⟨rfl, rfl⟩

/-- Bound functions have the names and the numbers of parameters of the functions they come from. -/
theorem bindFunctions_signatures {s : Signatures} {fs : List FunctionDecl} {bs : List Bound.Body}
    (h : bindFunctions s [] fs = .ok bs) :
    bs.map (fun b => (b.name, b.arity)) = fs.map fun f => (f.name, f.params.length) := by
  have hall := bindFunctions_eq_ok_iff.mp h
  clear h
  induction hall with
  | nil => rfl
  | cons hf _ ih =>
    obtain ⟨hname, harity⟩ := bindBody_signature (bindFunction_eq_ok_iff.mp hf)
    simp [ih, hname, harity]

/-- A bound function comes from the function with the same number. -/
theorem bindFunctions_getElem? {s : Signatures} {fs : List FunctionDecl} {bs : List Bound.Body}
    (h : bindFunctions s [] fs = .ok bs) {id : Nat} {b : Bound.Body} (hb : bs[id]? = some b) :
    ∃ f, fs[id]? = some f ∧ bindFunction s f = .ok b := by
  have hall := bindFunctions_eq_ok_iff.mp h
  clear h
  induction hall generalizing id with
  | nil => simp at hb
  | @cons f b' fs bs hf _ ih =>
    cases id with
    | zero =>
      obtain rfl : b' = b := by simpa using hb
      exact ⟨f, rfl, hf⟩
    | succ id => exact ih (by simpa using hb)

/-- Entries have the names and the numbers of parameters of their bodies. -/
theorem Bound.Body.signatures_entries (start : Nat) (bs : List Body) :
    (Body.entries start bs).map (fun e => (e.name, e.arity)) =
      bs.map fun b => (b.name, b.arity) := by
  induction bs generalizing start with
  | nil => rfl
  | cons b rest ih => simp [Body.entries, Body.entry, ih]

section Program

variable {p : Program} {program : Bound.Program}

/-- The functions of the unit are those of the program. -/
theorem functions_toUnit (h : p.bind = .ok program) :
    program.toUnit.functions.toList.map (fun e => (e.name, e.arity)) =
      p.functions.map fun f => (f.name, f.params.length) := by
  obtain ⟨s, top, functions, -, -, hfunctions, rfl⟩ := bind_program_eq_ok_iff.mp h
  rw [← bindFunctions_signatures hfunctions, Bound.Program.toUnit_eq]
  exact Bound.Body.signatures_entries _ functions

/-- The globals of the unit are the script globals of the program. -/
theorem globals_toUnit (h : p.bind = .ok program) :
    program.toUnit.globals.toList = p.globalNames := by
  obtain ⟨s, top, functions, hs, -, -, rfl⟩ := bind_program_eq_ok_iff.mp h
  rw [Bound.Program.toUnit_eq]
  exact (Signatures.ofProgram_table hs).2.names_eq

/-- The tables that a program is bound with describe its unit. -/
theorem describes_toUnit {s : Signatures} (hs : Signatures.ofProgram p = .ok s)
    (h : p.bind = .ok program) : s.Describes program.toUnit := by
  obtain ⟨hfunctions, hglobals⟩ := Signatures.ofProgram_table hs
  constructor
  · intro name signature hsignature
    obtain ⟨f, hf, -, harity⟩ := (hfunctions name signature).mp hsignature
    have hentry := congrArg (·[signature.id]?) (functions_toUnit h)
    simp only [List.getElem?_map, hf, Option.map_some] at hentry
    obtain ⟨entry, hentry, heq⟩ := Option.map_eq_some_iff.mp hentry
    rw [← Array.getElem?_toList, hentry, Option.map_some, ← harity]
    exact congrArg some (Prod.mk.inj heq).2
  · intro name id hid
    have hname := (hglobals.id_iff name id).mp hid
    rw [← Array.length_toList, globals_toUnit h]
    exact (List.getElem?_eq_some_iff.mp hname).1

/-- Every body of a bound program mentions only what the unit has. -/
theorem bind_bodies_valid (h : p.bind = .ok program) {b : Bound.Body} (hb : b ∈ program.bodies) :
    b.arity ≤ b.locals ∧ Bound.Stmt.AllValid program.toUnit b.locals b.statements := by
  obtain ⟨s, top, functions, hs, htop, hfunctions, hprogram⟩ := bind_program_eq_ok_iff.mp h
  have hdescribes := describes_toUnit hs h
  subst hprogram
  rcases List.mem_cons.mp hb with rfl | hmem
  · refine bindBody_valid ?_ Scopes.sound_empty (bindTopLevel_eq_ok_iff.mp htop)
    exact hdescribes
  · obtain ⟨id, hid⟩ := List.mem_iff_getElem?.mp hmem
    obtain ⟨f, -, hf⟩ := bindFunctions_getElem? hfunctions hid
    refine bindBody_valid ?_ Scopes.sound_empty (bindFunction_eq_ok_iff.mp hf)
    exact hdescribes

end Program

end HostScript
