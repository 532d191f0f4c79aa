import HostScript.Proofs.Machine.Loops

/-!
# What the code of an expression delivers

The code of an expression works on top of the operands that are there when it starts. It never digs
below them, so that whenever the code is left, by however many calls it has made, the call has
exactly one operand more, and its locals are as they were.
-/

namespace HostScript

open Machine

variable {σ : Type}

/-- Whether an operation leaves the lowest `n` operands alone, whichever number its string gets. -/
def Op.Spares (n : Nat) : Op → Prop
  | .plain height i => n + i.pops ≤ height
  | .named height _ i => ∀ id, n + (i id).pops ≤ height

section Operations

variable {n m : Nat}

theorem Place.spares_loadOp (h : n ≤ m) (p : Place) : (p.loadOp m).Spares n := by
  cases p with
  | slot k => exact h
  | script id => exact h
  | host name => exact fun _ => h

theorem Emitter.spares_skip (h : n ≤ m) (op : Connective) (target : Nat) :
    Op.Spares n (.plain (m + 1) (Emitter.skip op target)) := by
  cases op with
  | and => exact Nat.succ_le_succ h
  | or => exact Nat.succ_le_succ h

/-- An operation that is there is an instruction that leaves the same operands alone. -/
theorem CodeUnit.Has.spares {u : CodeUnit} {height : Nat → Nat} {pc : Nat} {op : Op}
    (h : u.Has pc op) (hheight : op.HeightAt height pc) (hop : op.Spares n) :
    ∃ i, u.code[pc]? = some i ∧ n + i.pops ≤ height pc := by
  cases op with
  | plain m i => exact ⟨i, h, Nat.le_trans hop (Nat.le_of_eq hheight.symm)⟩
  | named m name i =>
    obtain ⟨id, -, hcode⟩ := h
    exact ⟨i id, hcode, Nat.le_trans (hop id) (Nat.le_of_eq hheight.symm)⟩

end Operations

namespace Bound

mutual

/-- The code of an expression leaves the operands alone that are there when it starts. -/
theorem Expr.each_spares {n : Nat} (start m : Nat) (h : n ≤ m) :
    (x : Expr) → Op.Each (fun _ op => op.Spares n) start (x.code start m)
  | .void => Expr.each_void.mpr h
  | .number _ => Expr.each_number.mpr h
  | .string _ => Expr.each_string.mpr fun _ => h
  | .load p => Expr.each_load.mpr (p.spares_loadOp h)
  | .index base position =>
    Expr.each_index.mpr ⟨Expr.each_spares _ _ h base,
      Expr.each_spares _ _ (Nat.le_succ_of_le h) position, Nat.add_le_add_right h 2⟩
  | .array items =>
    Expr.each_array.mpr ⟨Expr.each_codes_spares _ _ h items, Nat.add_le_add_right h _⟩
  | .callScript _ args =>
    Expr.each_callScript.mpr ⟨Expr.each_codes_spares _ _ h args, Nat.add_le_add_right h _⟩
  | .callNative _ args =>
    Expr.each_callNative.mpr ⟨Expr.each_codes_spares _ _ h args, fun _ => Nat.add_le_add_right h _⟩
  | .callMethod object _ args =>
    Expr.each_callMethod.mpr ⟨Expr.each_spares _ _ h object,
      Expr.each_codes_spares _ _ (Nat.le_succ_of_le h) args,
      fun _ => by simp only [Instruction.pops]; omega⟩
  | .unary _ operand =>
    Expr.each_unary.mpr ⟨Expr.each_spares _ _ h operand, Nat.add_le_add_right h 1⟩
  | .strict _ lhs rhs =>
    Expr.each_strict.mpr ⟨Expr.each_spares _ _ h lhs,
      Expr.each_spares _ _ (Nat.le_succ_of_le h) rhs, Nat.add_le_add_right h 2⟩
  | .connect op lhs rhs =>
    Expr.each_connect.mpr ⟨Expr.each_spares _ _ h lhs, Emitter.spares_skip h op _,
      Expr.each_spares _ _ h rhs, Emitter.spares_skip h op _, h, Nat.le_succ_of_le h, h⟩

/-- The code of expressions leaves the operands alone that are there when it starts. -/
theorem Expr.each_codes_spares {n : Nat} (start m : Nat) (h : n ≤ m) :
    (xs : List Expr) → Op.Each (fun _ op => op.Spares n) start (Expr.codes start m xs)
  | [] => Op.each_nil
  | x :: xs =>
    Expr.each_codes_cons.mpr ⟨Expr.each_spares _ _ h x,
      Expr.each_codes_spares _ _ (Nat.le_succ_of_le h) xs⟩

end

end Bound

/-- Whether the operands of a frame are some others with any number of operands on top of them. -/
def Frame.StandsOn (base : Array Value) (f : Frame) : Prop :=
  ∃ rest, f.stack = base ++ rest

namespace Frame

variable {base : Array Value} {f g : Frame} {i : Instruction} {k : Nat}

/-- A frame stands on the same operands without some of those on top of them. -/
theorem StandsOn.without (h : f.StandsOn base) (hk : base.size + k ≤ f.stack.size) :
    (f.without k).StandsOn base := by
  obtain ⟨rest, hrest⟩ := h
  refine ⟨rest.take (rest.size - k), ?_⟩
  have hsize : f.stack.size = base.size + rest.size := by rw [hrest, Array.size_append]
  have hlast : f.stack.size - k = base.size + (rest.size - k) := by omega
  rw [Frame.without, hlast, hrest]
  exact Array.ext' (by simp)

theorem StandsOn.continues (h : f.StandsOn base) (hk : base.size + i.pops ≤ f.stack.size)
    (hg : f.Continues i g) : g.StandsOn base := by
  obtain ⟨rest, hrest⟩ := h.without hk
  rcases hg.goes with ⟨-, -, results, -, hstack⟩ | ⟨target, -, rfl⟩
  · exact ⟨rest ++ results, by rw [hstack, hrest, Array.append_assoc]⟩
  · exact ⟨rest, hrest⟩

end Frame

section Steps

variable {u : CodeUnit} {height : Nat → Nat} {lo hi n : Nat} {base : Array Value}
  {f current g : Frame}

/-- Whether the code from `lo` to `hi` leaves the lowest `n` operands alone. -/
def CodeUnit.Spares (u : CodeUnit) (height : Nat → Nat) (lo hi n : Nat) : Prop :=
  ∀ pc, lo ≤ pc → pc < hi → ∃ i, u.code[pc]? = some i ∧ n + i.pops ≤ height pc

/-- Below the operands that an instruction of such code takes there are the lowest ones. -/
theorem CodeUnit.Spares.pops_le (hu : u.Spares height lo hi n) (hsize : f.stack.size = height f.pc)
    (hpc : lo ≤ f.pc ∧ f.pc < hi) {i : Instruction} (hcode : u.code[f.pc]? = some i) :
    n + i.pops ≤ f.stack.size := by
  obtain ⟨i', hi', hpops⟩ := hu f.pc hpc.1 hpc.2
  obtain rfl := Option.some.inj (hi'.symm.trans hcode)
  rwa [hsize]

/-- An instruction of the current call, in code that leaves the lowest operands alone. A call that
waits for the current one is given nothing but its result. -/
theorem Frame.Advances.standsOn (h : f.Advances u lo hi current g)
    (hu : u.Spares height lo hi base.size) (hsize : current.stack.size = height current.pc)
    (hf : f.StandsOn base) : g.StandsOn base ∧ g.function = f.function := by
  have hnext : (f.goto (f.pc + 1)).StandsOn base := hf
  cases h with
  | proceed heq hpc hcode hg =>
    exact ⟨hnext.continues (hu.pops_le (heq ▸ hsize) hpc hcode) hg, hg.function_eq⟩
  | call heq hpc hcode => exact ⟨hnext.without (hu.pops_le (heq ▸ hsize) hpc hcode), rfl⟩
  | wait => exact ⟨hf, rfl⟩
  | resume value =>
    obtain ⟨rest, hrest⟩ := hf
    exact ⟨⟨rest.push value, by rw [hrest, Array.append_push]⟩, rfl⟩

end Steps

section Runs

variable {p : Program} {program : Bound.Program} {limits : Limits} {lo hi k : Nat}
  {offsets slots : Nat → Prop} {callers : List Frame} {base : Array Value} {f g : Frame}
  {c : Machine × Host σ}

/-- A call that leaves code which spares the lowest operands still stands on them. -/
theorem Machine.Departs.standsOn (h : Departs lo hi callers c k g) (hbind : p.bind = .ok program)
    (hc : Reachable program.toUnit limits c) (hu : program.toUnit.Confines lo hi offsets slots)
    (hspares : program.toUnit.Spares program.height lo hi base.size)
    (hfollows : c.1.status.Follows lo hi offsets callers f) (hf : f.StandsOn base) :
    g.StandsOn base ∧ g.function = f.function := by
  induction k generalizing c f with
  | zero =>
    have hstatus : c.1.status = .running g callers := h.status_eq
    generalize c.1.status = status at hfollows hstatus
    cases hfollows with
    | current hpc =>
      obtain ⟨rfl, -⟩ := Status.running.inj hstatus
      exact ⟨hf, rfl⟩
    | waiting g' above hlo hhi =>
      exact absurd (Status.running.inj hstatus).2.symm (ne_append_cons callers above f)
  | succ k ih =>
    have hinside : c.1.status.Inside lo hi callers := h.inside 0 (Nat.succ_pos k)
    have habove := h.tail.above
    cases hstatus : c.1.status with
    | running current waiting =>
      have hsize : current.stack.size = program.height current.pc :=
        (hc.placed hbind hstatus).height
      rw [hstatus] at hinside hfollows
      have hsuccessor := exec_successor hstatus c.2
      rw [hc.unit_eq] at hsuccessor
      obtain ⟨f', hadvances, hfollows'⟩ := hfollows.advances hu hinside hsuccessor habove
      obtain ⟨hf', hfunction⟩ := hadvances.standsOn hspares hsize hf
      obtain ⟨hg, hfunction'⟩ := ih h.tail (hc.after 1) hfollows' hf'
      exact ⟨hg, hfunction'.trans hfunction⟩
    | done =>
      obtain ⟨g', inner, heq⟩ := hinside.above
      cases hstatus.symm.trans heq
    | faulted error =>
      obtain ⟨g', inner, heq⟩ := hinside.above
      cases hstatus.symm.trans heq

/-- When the code of an expression is left, its value is on top of the operands that were there when
it started, and the locals are as they were then. -/
theorem Machine.Departs.delivers {x : Bound.Expr} {start n : Nat}
    (h : Departs start (start + x.size) callers c k g)
    (hbind : p.bind = .ok program) (hc : Reachable program.toUnit limits c)
    (hcode : Op.Each (Op.Of program.code) start (x.code start n))
    (hend : program.height (start + x.size) = n + 1)
    (hstatus : c.1.status = .running f callers) (hf : f.pc = start) :
    ∃ value, g = ⟨f.function, start + x.size, f.locals, f.stack.push value⟩ := by
  have hhas := program.each_has_toUnit.part hcode
  have hheights := program.each_heightAt.part hcode
  have hlength : start + (x.code start n).length = start + x.size := by rw [Bound.Expr.length_code]
  have hconfines :
      program.toUnit.Confines start (start + x.size) (fun pc => start ≤ pc ∧ pc ≤ start + x.size)
      fun _ => False :=
    CodeUnit.confines_of_each hhas
      (x.each_keepsTo (fun pc hlo hhi => ⟨hlo, hhi⟩) _ _ (Nat.le_refl _) (Nat.le_refl _)) hlength
      fun pc hlo hhi => ⟨hlo, hhi⟩
  have hsize : f.stack.size = n := by
    have hheight := (hc.placed hbind hstatus).height
    rwa [hf, (x.each_flows start n hheights hend).1] at hheight
  have hspares : program.toUnit.Spares program.height start (start + x.size) f.stack.size := by
    intro pc hlo hhi
    obtain ⟨op, ⟨hop, hheight⟩, hspares⟩ :=
      ((hhas.and hheights).and (x.each_spares start n (Nat.le_of_eq hsize))).exists_at hlo
        (hlength ▸ hhi)
    exact hop.spares hheight hspares
  have hfollows : c.1.status.Follows start (start + x.size)
      (fun pc => start ≤ pc ∧ pc ≤ start + x.size) callers f := by
    rw [hstatus]
    exact .current ⟨Nat.le_of_eq hf.symm, hf ▸ Nat.le_add_right _ _⟩
  obtain ⟨hkeeps, hlo, hhi⟩ := h.keeps (hc.unit_eq ▸ hconfines) hfollows
  have hpc :
      g.pc = start + x.size := Nat.le_antisymm hhi (Nat.not_lt.mp fun hlt => h.outside ⟨hlo, hlt⟩)
  have hlocals : g.locals = f.locals := Array.ext_getElem? fun slot => hkeeps slot not_false
  obtain ⟨⟨rest, hrest⟩, hfunction⟩ :=
    h.standsOn hbind hc hconfines hspares hfollows ⟨#[], Array.append_empty.symm⟩
  have hrestSize : rest.size = 1 := by
    have hheight := ((hc.after k).placed hbind h.status_eq).height
    rw [hpc, hend, hrest, Array.size_append, hsize] at hheight
    omega
  obtain ⟨value, hvalue⟩ := Array.size_eq_one_iff.mp hrestSize
  obtain ⟨function, pc, locals, stack⟩ := g
  subst hpc hlocals hfunction
  obtain rfl : stack = f.stack ++ rest := hrest
  exact ⟨value, by rw [hvalue, Array.push_eq_append]⟩

end Runs

end HostScript
