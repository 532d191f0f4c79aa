import HostScript.Proofs.Compile.Assignments
import HostScript.Proofs.Execution.Programs

/-!
# Compiled assignments to elements

The code of an assignment evaluates the value once. After that it goes through the indices by
rounds, as many as there are indices, so that only the last index is evaluated once, and the
first one in every round. Rounds that see the same replace the element at the path of the
indices, and so they do if no index changes the world. Rounds that see different arrays or
indices do not: a native that counts its calls, used as an index, makes the assignment copy one
row into the place of another.
-/

namespace HostScript

open Machine

/-- Whether the code between two offsets of a unit assigns a value by rounds to what lies in a place
under indices. In whichever frame and world, a machine that is not hindered by its limits comes to
the end of the code exactly when the value, the rounds and the write go through, one after the
other. Rounds that see one array and one path replace the element at that path, and they see it if
neither the place nor the indices change the world. -/
def CodeUnit.AssignsByRounds (u : CodeUnit) (program : Bound.Program) (root : Place)
    (indices : List Bound.Expr) (value : Bound.Expr) (start stop : Nat) : Prop :=
  ∀ (σ : Type) (limits : Limits) (fuel : Nat) (function : Option Nat) (slots : Slots)
    (callers : List Frame) (w : World (Array Value) σ),
    ∃ result : EStateM.Result Halt (World (Array Value) σ) Slots,
      Reaches u limits fuel
        (state u limits (.running ⟨function, start, slots, #[]⟩ callers) w) result
        (fun slots' => .running ⟨function, stop, slots', #[]⟩ callers) ∧
      (∀ slots' w', result = .ok slots' w' ↔
        ∃ v w₀ rounds w₁ changed, value.eval (program.callFunction fuel) slots w = .ok v w₀ ∧
          (prefixesDown indices).mapM (Bound.evalRound (program.callFunction fuel) slots root) w₀ =
            .ok rounds w₁ ∧
          rounds.foldlM (fun value round => round.1.innermostWith round.2 value) v = .ok changed ∧
          root.write slots changed w₁ = .ok slots' w' ∧
          ∀ array path, rounds = (prefixesDown path).map (fun indices => (array, indices)) →
            array.replaceAt path v = .ok changed) ∧
      ∀ v w₀ array path, value.eval (program.callFunction fuel) slots w = .ok v w₀ →
        root.read slots w₀ = .ok array w₀ →
        List.Forall₂ (fun x index => x.eval (program.callFunction fuel) slots w₀ = .ok index w₀)
          indices path →
        ∀ slots' w', result = .ok slots' w' ↔
          ∃ changed, array.replaceAt path v = .ok changed ∧
            root.write slots changed w₀ = .ok slots' w'

/-- The code of a store assigns by rounds. -/
theorem Bound.Program.assignsByRounds (program : Bound.Program) {t : Bound.Target}
    {value : Bound.Expr} {exits : Exits} {start : Nat}
    (hcode : Op.Each program.toUnit.Has start ((Bound.Stmt.store t value).code exits start)) :
    program.toUnit.AssignsByRounds program t.root t.indices value start
      (start + value.size + t.storeSize) := by
  intro σ limits fuel function slots callers w
  obtain ⟨hvalue, htarget⟩ := Bound.Stmt.each_store.mp hcode
  have hcalls :
      CallsPerform program.toUnit limits fuel (program.callFunction fuel : Calls (Array Value) σ) :=
    program.callFunction_performs fuel
  have hperforms :
      Performs program.toUnit limits fuel (.running ⟨function, start, slots, #[]⟩ callers)
      (value.eval (program.callFunction fuel) slots >>= t.store (program.callFunction fuel) slots)
      (fun slots' => .running ⟨function, start + value.size + t.storeSize, slots', #[]⟩ callers) :=
    (value.performs hcalls start 0 #[] hvalue).bind fun v => t.performs hcalls _ 0 v htarget
  refine ⟨_, hperforms w, fun slots' w' => ?_,
    fun v w₀ array path hv hread hindices slots' w' => ?_⟩
  · rw [Eval.bind_eq_ok_iff]
    constructor
    · rintro ⟨v, w₀, hv, hstore⟩
      obtain ⟨rounds, w₁, changed, hrounds, hchanged, hwrite⟩ :=
        Bound.Target.store_eq_ok_iff.mp hstore
      refine ⟨v, w₀, rounds, w₁, changed, hv, hrounds, hchanged, hwrite,
        fun array path hagree => ?_⟩
      rw [← Value.foldlM_innermostWith, ← hagree]
      exact hchanged
    · rintro ⟨v, w₀, rounds, w₁, changed, hv, hrounds, hchanged, hwrite, -⟩
      exact ⟨v, w₀, hv,
        Bound.Target.store_eq_ok_iff.mpr ⟨rounds, w₁, changed, hrounds, hchanged, hwrite⟩⟩
  · rw [Eval.bind_of_eq_ok hv, Bound.Target.store_eq_ok_iff_of_quiet hread hindices]

/-- Every assignment of a program that compiles has a place of its own in the unit, and one to a
variable, or to an element under a path of indices from a variable, goes to the place that the name
of the variable stands for where the assignment is. Its code evaluates the value once, and then the
indices by rounds: all of them, then all but the last, and so on to the first one alone. -/
theorem compiled_assignment_rounds {p : Program} {u : CodeUnit} (hcompile : compile p = .ok u) :
    ∃ program s as, p.bind = .ok program ∧ program.toUnit = u ∧ Signatures.ofProgram p = .ok s ∧
      LineUp (Assignment.Realizes program s) Assignment.stop 0 u.code.size p.assignments as ∧
      ∀ (a : Assignment) (here : Point) (name : String) (indices : List Expr) (value : Expr),
        a.Realizes program s ⟨here, indices.foldl .index (.var name), value⟩ →
        here.Resolves p.globalNames name a.target.root ∧
        (∃ v, v.Matches s here ∧
          List.Forall₂ (fun x b => bindExpr s v x = .ok b) indices a.target.indices ∧
          bindExpr s v value = .ok a.value) ∧
        u.AssignsByRounds program a.target.root a.target.indices a.value a.start a.stop := by
  obtain ⟨program, hbind, rfl⟩ := compile_eq_ok_iff.mp hcompile
  obtain ⟨s, as, hs, has⟩ := bind_assignments_lineUp hbind
  refine ⟨program, s, as, hbind, rfl, hs, has, fun a here name indices value ha => ?_⟩
  obtain ⟨hroot, hparts⟩ := ha.resolves hs
  obtain ⟨v, exits, -, -, -, hcode⟩ := ha
  exact ⟨hroot, hparts, program.assignsByRounds (program.each_has_toUnit.part hcode)⟩

/-- A program that asks a native for an index of an assignment. -/
def askingProgram : Program where
  functions := []
  statements :=
    [.declare "a"
      (some (.array [.array [.number 1.0, .number 2.0], .array [.number 3.0, .number 4.0]])),
     .assign (.index (.index (.var "a") (.call "next" [])) (.number 0.0)) (.number 9.0)]

/-- The unit of the program that asks a native for an index. The native is called twice. -/
def askingUnit : CodeUnit where
  code := #[.pushNumber 1.0, .pushNumber 2.0, .makeArray 2, .pushNumber 3.0, .pushNumber 4.0,
    .makeArray 2, .makeArray 2, .storeGlobal 0, .pushNumber 9.0, .loadGlobal 0, .callNative 0 0,
    .loadIndex, .pushNumber 0.0, .storeIndex, .loadGlobal 0, .callNative 0 0, .storeIndex,
    .storeGlobal 0, .returnVoid]
  strings := #["next"]
  top := ⟨topLevelName, 0, 0, 0⟩
  globals := #["a"]

/-- The assignment calls the native in the round of both indices, and again in the
round of the first one. -/
theorem askingProgram_rounds :
    ∃ program root start stop, compile askingProgram = .ok askingUnit ∧
      askingProgram.bind = .ok program ∧
      prefixesDown [Bound.Expr.callNative "next" [], .number 0.0] =
        [[.callNative "next" [], .number 0.0], [.callNative "next" []]] ∧
      askingUnit.AssignsByRounds program root [.callNative "next" [], .number 0.0] (.number 9.0)
        start stop := by
  have hcompile : compile askingProgram = .ok askingUnit := rfl
  obtain ⟨program, s, as, hbind, -, hs, has, hassigns⟩ := compiled_assignment_rounds hcompile
  obtain ⟨a, -, ha, -, -⟩ := List.forall₂_cons_left_iff.mp has.realize
  obtain ⟨-, ⟨v, -, hindices, hvalue⟩, hrounds⟩ :=
    hassigns a _ "a" [.call "next" [], .number 0.0] (.number 9.0) ha
  have hnative : s.functions["next"]? = none := by
    have hnone : (Signatures.ofProgram askingProgram).toOption.map (·.functions["next"]?.isNone) =
        some true := by
      decide +kernel
    rw [hs] at hnone
    exact Option.isNone_iff_eq_none.mp (Option.some.inj hnone)
  have hsame : a.target.indices = [.callNative "next" [], .number 0.0] := by
    obtain ⟨_, _, hcall, hrest, heq⟩ := List.forall₂_cons_left_iff.mp hindices
    obtain ⟨_, _, hzero, hend, rfl⟩ := List.forall₂_cons_left_iff.mp hrest
    obtain ⟨-, _, hargs, rfl⟩ := (bindExpr_call_native hnative).mp hcall
    obtain rfl := bindExprs_nil.mp hargs
    obtain rfl := bindExpr_number.mp hzero
    cases hend
    exact heq
  rw [hsame, ← bindExpr_number.mp hvalue] at hrounds
  exact ⟨program, a.target.root, a.start, a.stop, hcompile, hbind, rfl, hrounds⟩

/-- A host with a native that answers with the number of calls before. -/
def countingHost : Host Nat where
  state := 0
  natives := ({} : Std.TreeMap String (Callable Nat)).insert "next"
    (.native (some 0) fun _ calls => (.ok (.immediate (.number (Float.ofNat calls))), calls + 1))

/-- One round sees the first row and the other one the second, so that the assignment of 9 to an
element of the first row replaces the second row. -/
theorem askingProgram_replaces_other_row :
    compile askingProgram = .ok askingUnit ∧
      (after (start askingUnit {}, countingHost) 19).1.isRunning = false ∧
      (after (start askingUnit {}, countingHost) 19).1.fault? = none ∧
      ((after (start askingUnit {}, countingHost) 19).1.globals ==
        #[.array #[.array #[.number 1.0, .number 2.0], .array #[.number 9.0, .number 2.0]]]) =
        true ∧
      (after (start askingUnit {}, countingHost) 19).2.state = 2 :=
  ⟨rfl, by decide +kernel, Option.isNone_iff_eq_none.mp (by decide +kernel), by decide +kernel,
    by decide +kernel⟩

end HostScript
