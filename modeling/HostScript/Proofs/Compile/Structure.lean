import HostScript.Proofs.Compile.Tables

/-!
# Structure of compiled units

A compiled unit is made of one region of code for each body, the top-level code first, without gaps.
Every region ends in a return of void and all its instructions have their operands in range. The
tables of the unit list the functions and the script globals of the program, and looking a name up
in them gives its position.
-/

namespace HostScript

/-- Whether the code of a unit is made of regions of well-formed instructions. -/
structure CodeUnit.Structured (u : CodeUnit) : Prop where
  /-- The top-level code comes first. -/
  top_start : u.top.start = 0
  /-- The regions are, put together, the code. -/
  code_eq : (u.regions.map u.regionCode).flatten = u.code.toList
  /-- Every region holds an instruction, and lies in the code. -/
  bounds : ∀ r ∈ u.regions, r.start < r.stop ∧ r.stop ≤ u.code.size
  /-- Every region ends in a return of void. -/
  last : ∀ r ∈ u.regions, (u.regionCode r).getLast? = some .returnVoid
  /-- Every instruction has its operands in range. -/
  valid : ∀ r ∈ u.regions, ∀ pc ∈ r, ∀ instruction, u.code[pc]? = some instruction →
    instruction.Valid u r pc
  /-- Every frame has a slot for each parameter. -/
  arity_le : ∀ entry ∈ u.entries, entry.arity ≤ entry.locals

namespace CodeUnit

/-- A function that is found from the end of the table, by its position in the table. -/
theorem functionByName?_back {u : CodeUnit} {name : String} {back : Nat}
    (h : u.functions.reverse.findIdx? (·.name == name) = some back) :
    ∃ entry, u.functions[u.functions.size - 1 - back]? = some entry ∧ entry.name = name := by
  obtain ⟨hlt, hname, -⟩ := Array.findIdx?_eq_some_iff_getElem.mp h
  refine ⟨u.functions.reverse[back], ?_, by simpa using hname⟩
  rw [Array.getElem_reverse]
  exact Array.getElem?_eq_getElem _

/-- Looking a function up by name gives its position and its entry, if names differ. -/
theorem functionByName?_eq_some_iff {u : CodeUnit} (h : (u.functions.toList.map (·.name)).Nodup)
    {name : String} {id : Nat} {entry : Entry} :
    u.functionByName? name = some (id, entry) ↔ u.functions[id]? = some entry ∧
      entry.name = name := by
  unfold functionByName?
  constructor
  · intro hfound
    split at hfound
    next back hback =>
      obtain ⟨e, he, hmk⟩ := Option.map_eq_some_iff.mp hfound
      obtain ⟨rfl, rfl⟩ := Prod.mk.inj hmk
      obtain ⟨e', he', hname⟩ := functionByName?_back hback
      obtain rfl : e = e' := by simpa [he] using he'
      exact ⟨he, hname⟩
    · cases hfound
  · rintro ⟨hid, rfl⟩
    split
    next back hback =>
      -- Two positions with the same name are one position.
      obtain ⟨e, he, hname⟩ := functionByName?_back hback
      have hlt : u.functions.size - 1 - back < (u.functions.toList.map (·.name)).length := by
        simpa using (Array.getElem?_eq_some_iff.mp he).1
      have hback' : u.functions.size - 1 - back = id := by
        refine (List.getElem?_inj hlt h).mp ?_
        simp [he, hid, hname]
      simp [hback', hid]
    next hnone =>
      have hmem : entry ∈ u.functions.reverse := Array.mem_reverse.mpr (Array.mem_of_getElem? hid)
      exact absurd (Array.findIdx?_eq_none_iff.mp hnone entry hmem) (by simp)

/-- Looking a script global up by name gives its position, if names differ. -/
theorem globalByName?_eq_some_iff {u : CodeUnit} (h : u.globals.toList.Nodup) {name : String}
    {id : Nat} : u.globalByName? name = some id ↔ u.globals[id]? = some name := by
  unfold globalByName?
  rw [Array.findIdx?_eq_some_iff_getElem]
  constructor
  · rintro ⟨hlt, hname, -⟩
    rw [Array.getElem?_eq_getElem hlt]
    exact congrArg some (by simpa using hname)
  · intro hid
    obtain ⟨hlt, hget⟩ := Array.getElem?_eq_some_iff.mp hid
    refine ⟨hlt, by simpa using hget, fun j hj heq => ?_⟩
    have hj' : j < u.globals.size := Nat.lt_trans hj hlt
    have hsame : u.globals.toList[j]? = u.globals.toList[id]? := by
      rw [Array.getElem?_toList, Array.getElem?_toList, hid, Array.getElem?_eq_getElem hj']
      exact congrArg some (by simpa using heq)
    exact Nat.ne_of_lt hj ((List.getElem?_inj (by simpa using hj') h).mp hsame)

end CodeUnit

/-- A region that ends in the code is as long as it should be. -/
theorem CodeUnit.getLast?_regionCode {u : CodeUnit} {r : Region} {instruction : Instruction}
    (hlt : r.start < r.stop) (h : u.code[r.stop - 1]? = some instruction) :
    (u.regionCode r).getLast? = some instruction := by
  obtain ⟨hsize, hget⟩ := Array.getElem?_eq_some_iff.mp h
  have hlength : (u.regionCode r).length = r.stop - r.start := by
    simp [regionCode]
    omega
  have hindex : r.start + (r.stop - r.start - 1) = r.stop - 1 := by omega
  rw [List.getLast?_eq_getElem?, hlength, regionCode, List.getElem?_take_of_lt (by omega),
    List.getElem?_drop, hindex, Array.getElem?_toList, h]

/-- The unit of a bound program is structured. -/
theorem structured_toUnit {p : Program} {program : Bound.Program} (h : p.bind = .ok program) :
    program.toUnit.Structured := by
  have hbody : ∀ r ∈ program.toUnit.regions, ∃ b ∈ program.bodies, r = b.region r.start ∧
      Op.Each program.toUnit.Has r.start (b.code r.start) := by
    intro r hr
    obtain ⟨k, hk⟩ := List.mem_iff_getElem?.mp hr
    obtain ⟨b, hb, hregion, hcode⟩ := Bound.Program.regions_toUnit_getElem? hk
    exact ⟨b, List.mem_of_getElem? hb, hregion, hcode _ program.each_has_toUnit⟩
  have hlast : ∀ r ∈ program.toUnit.regions, r.start < r.stop ∧
      program.toUnit.code[r.stop - 1]? = some .returnVoid := by
    intro r hr
    obtain ⟨b, -, hregion, hcode⟩ := hbody r hr
    have hreturn := (Bound.Body.each_code.mp hcode).2
    rw [hregion]
    exact ⟨by simp [Bound.Body.region, Bound.Body.size],
      by simpa [Bound.Body.region, Bound.Body.size] using hreturn⟩
  constructor
  · rw [Bound.Program.toUnit_eq]
    rfl
  · exact program.flatten_regions_toUnit
  · intro r hr
    obtain ⟨hlt, hcode⟩ := hlast r hr
    have := (Array.getElem?_eq_some_iff.mp hcode).1
    exact ⟨hlt, by omega⟩
  · intro r hr
    exact CodeUnit.getLast?_regionCode (hlast r hr).1 (hlast r hr).2
  · intro r hr pc hpc instruction hinstruction
    obtain ⟨b, hb, hregion, hcode⟩ := hbody r hr
    have hvalid : Op.Each (Op.Valid program.toUnit r) r.start (b.code r.start) := by
      have := Bound.Body.each_valid r.start (bind_bodies_valid h hb).2
      rwa [← hregion] at this
    have hstop : pc < r.start + (b.code r.start).length := by
      rw [Bound.Body.length_code]
      exact hregion ▸ hpc.2
    obtain ⟨op, hhas, hop⟩ := (hcode.and hvalid).exists_at hpc.1 hstop
    exact hhas.valid hop hinstruction
  · intro entry hentry
    obtain ⟨k, hk⟩ := List.mem_iff_getElem?.mp hentry
    rw [Bound.Program.entries_toUnit, Bound.Body.entries_getElem?] at hk
    obtain ⟨r, -, hmap⟩ := Option.bind_eq_some_iff.mp hk
    obtain ⟨b, hb, rfl⟩ := Option.map_eq_some_iff.mp hmap
    exact (bind_bodies_valid h (List.mem_of_getElem? hb)).1

/-- A compiled unit is structured, its tables are those of the program, and looking a
name up inverts them. -/
theorem compile_structured {p : Program} {u : CodeUnit} (h : compile p = .ok u) :
    u.Structured ∧
      u.functions.toList.map (fun e => (e.name, e.arity)) =
        p.functions.map (fun f => (f.name, f.params.length)) ∧
      u.globals.toList = p.globalNames ∧
      (∀ name id entry, u.functionByName? name = some (id, entry) ↔
        u.functions[id]? = some entry ∧ entry.name = name) ∧
      (∀ name id, u.globalByName? name = some id ↔ u.globals[id]? = some name) := by
  obtain ⟨program, hbind, rfl⟩ := compile_eq_ok_iff.mp h
  obtain ⟨s, _, _, hs, -, -, -⟩ := bind_program_eq_ok_iff.mp hbind
  obtain ⟨hfunctions, hglobals⟩ := Signatures.ofProgram_table hs
  have htable := functions_toUnit hbind
  have hnames : (program.toUnit.functions.toList.map (·.name)).Nodup := by
    have := congrArg (List.map Prod.fst) htable
    simp only [List.map_map, Function.comp_def] at this
    rw [this]
    exact hfunctions.nodup
  refine ⟨structured_toUnit hbind, htable, globals_toUnit hbind, fun name id entry => ?_,
    fun name id => ?_⟩
  · exact CodeUnit.functionByName?_eq_some_iff hnames
  · exact CodeUnit.globalByName?_eq_some_iff (globals_toUnit hbind ▸ hglobals.nodup)

/-- A program with a loop that is left early, a call and both kinds of variables. -/
def searchProgram : Program where
  functions :=
    [{ name := "find"
       params := ["items", "wanted"]
       body := .block
        [.forLoop "item" (.var "items")
          (.ifThen (.binary .and (.binary .equals (.var "item") (.var "wanted")) (.var "enabled"))
            (.block
              [.assign (.var "hits") (.binary .plus (.var "hits") (.number 1.0)), .breakLoop])),
         .returnValue (.var "hits")] }]
  statements :=
    [.declare "hits" none,
     .assign (.var "hits") (.call "find" [.array [.number 1.0, .number 2.0], .number 2.0])]

/-- A program compiles if something can be computed from its unit. -/
theorem exists_compile_eq_ok {p : Program} {α : Type} {f : CodeUnit → α} {a : α}
    (h : (compile p).toOption.map f = some a) : ∃ u, compile p = .ok u ∧ f u = a := by
  obtain ⟨u, hu, ha⟩ := Option.map_eq_some_iff.mp h
  refine ⟨u, ?_, ha⟩
  cases hcompile : compile p with
  | ok u' =>
    rw [hcompile] at hu
    exact congrArg Except.ok (Option.some.inj hu)
  | error error =>
    rw [hcompile] at hu
    cases hu

/-- The program with a loop that is left early compiles, to a unit with one function. -/
theorem compile_searchProgram : ∃ u, compile searchProgram = .ok u ∧ u.functions.size = 1 :=
  exists_compile_eq_ok (by decide +kernel)

/-- The unit of the program with a loop that is left early is structured and has one global. -/
theorem searchProgram_structured :
    ∃ u, compile searchProgram = .ok u ∧ u.Structured ∧ u.globals.toList = ["hits"] ∧
      ∀ id, u.globalByName? "hits" = some id ↔ u.globals[id]? = some "hits" := by
  obtain ⟨u, hu, -⟩ := compile_searchProgram
  obtain ⟨hstructured, -, hglobals, -, hinverse⟩ := compile_structured hu
  exact ⟨u, hu, hstructured, hglobals, hinverse "hits"⟩

end HostScript
