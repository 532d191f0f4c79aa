import HostScript.Proofs.Binding.Bounded
import HostScript.Proofs.Execution.Programs
import HostScript.Proofs.Machine.Ends
import HostScript.Proofs.Machine.Safety

/-!
# Programs without while loops halt

Calls can nest only as deep as the limit, and a loop over an array ends since its cursor counts up
to the number of items. The array and the cursor are in slots that the body of the loop leaves
alone. So a run of a program without while loops comes to an end, whatever the host does.
-/

namespace HostScript

open Machine

variable {σ : Type}

section Stmts

variable {c : OpenCall} {kept : List Nat} {locals : Array Value}

open OpenCall

/-- What leads from one offset to another whatever the locals are does so whatever they keep. -/
theorem OpenCall.EndsKeeping.before {pc next : Nat} (hnext : c.EndsKeeping kept next locals)
    (h : ∀ locals', c.EndsAt next locals' → c.EndsAt pc locals') : c.EndsKeeping kept pc locals :=
  fun locals' hkept => h locals' (hnext locals' hkept)

/-- Overwriting a slot that is not kept keeps the others. -/
theorem getElem?_kept {slot : Nat} (hslot : slot ∉ kept) {locals' : Array Value} (value : Value)
    (h : ∀ n ∈ kept, locals'[n]? = locals[n]?) :
    ∀ n ∈ kept, (locals'.setIfInBounds slot value)[n]? = locals[n]? := by
  intro n hn
  have hne : slot ≠ n := fun heq => hslot (heq ▸ hn)
  rw [Array.getElem?_setIfInBounds_ne hne]
  exact h n hn

/-- The run ends where a value is stored into a target if it does after that. -/
theorem Bound.Target.endsKeeping (hc : c.Closes) (start n : Nat) {t : Bound.Target}
    (h : Op.Each c.unit.Has start (t.code start n)) (hslot : ∀ slot ∈ t.slot?, slot ∉ kept)
    (hnext : c.EndsKeeping kept (start + t.storeSize) locals) :
    c.EndsKeeping kept start locals := by
  induction t generalizing start with
  | place p =>
    have hstore := Bound.Target.each_place.mp h
    cases p with
    | slot k =>
      intro locals' hkept
      refine endsAt_storeLocal hc hstore fun value => ?_
      exact hnext _ (getElem?_kept (hslot k rfl) value hkept)
    | script id => exact hnext.before fun locals' => endsAt_of_succ hc hstore rfl rfl
    | host name => exact hnext.before fun locals' => endsAt_of_named hc hstore fun _ => ⟨rfl, rfl⟩
  | element base position ih =>
    obtain ⟨hread, hposition, hlast, hbase⟩ := Bound.Target.each_element.mp h
    have hend : c.EndsKeeping kept
        (start + base.read.size + position.size + 1 + base.storeSize) locals := by
      rwa [Bound.Target.add_storeSize_element] at hnext
    refine (ih _ hbase hslot hend).before fun locals' hstored => ?_
    exact Bound.Expr.endsAt hc _ _ base.read hread
      (Bound.Expr.endsAt hc _ _ position hposition (endsAt_of_succ hc hlast rfl rfl hstored))

section Loops

variable {array cursor item next exit : Nat}

/-- What the step of a loop makes of the frame. -/
theorem continues_iterNext {f g : Frame} (h : f.Continues (.iterNext array cursor exit) g) :
    ∃ n items, f.locals[cursor]? = some (.number n) ∧ f.locals[array]? = some (.array items) ∧
      (Number.count n < items.size ∧
          g = ⟨f.function, f.pc, f.locals.setIfInBounds cursor (.number (n + 1.0)), g.stack⟩ ∨
        g = ⟨f.function, exit, f.locals, g.stack⟩) := by
  obtain ⟨n, items, hcursor, harray, hitem⟩ := h.effect
  refine ⟨n, items, hcursor, harray, ?_⟩
  rcases hitem with ⟨item, hitem, hpc, hlocals⟩ | ⟨hpc, hlocals⟩
  · refine Or.inl ⟨(Array.getElem?_eq_some_iff.mp hitem).1, ?_⟩
    rw [← hlocals, ← hpc, ← h.function_eq]
  · exact Or.inr (by rw [← hlocals, ← hpc, ← h.function_eq])

/-- The run ends at the start of a turn of a loop over an array, of which at most `left` are
left. -/
theorem endsAt_turn (hc : c.Closes) (hcursor : cursor ∉ array :: kept)
    (hitem : item ∉ cursor :: array :: kept)
    (hstep : c.unit.code[next]? = some (.iterNext array cursor exit))
    (hstore : c.unit.code[next + 1]? = some (.storeLocal item))
    (hexit : c.EndsKeeping kept exit locals)
    (hbody : ∀ locals', c.EndsKeeping (cursor :: array :: kept) exit locals' →
      c.EndsKeeping (cursor :: array :: kept) next locals' →
      c.EndsKeeping (cursor :: array :: kept) (next + 2) locals')
    (left k : Nat) {locals₁ : Array Value} (hkept : ∀ n ∈ kept, locals₁[n]? = locals[n]?)
    (hcount : ∀ n, locals₁[cursor]? = some (.number n) → n = Number.counted k)
    (hleft : ∀ items, locals₁[array]? = some (.array items) → items.size ≤ k + left) :
    c.EndsAt next locals₁ := by
  simp only [List.mem_cons, not_or] at hcursor hitem
  induction left using Nat.strongRecOn generalizing k locals₁ with
  | _ left ih =>
    intro stack
    refine ends_of_continues hc hstep stack (fun g hshort hg => ?_) fun hcall => by cases hcall
    obtain ⟨n, items, hn, hitems, ⟨hlt, hg⟩ | hg⟩ := continues_iterNext hg
    · rw [hg]
      obtain rfl := hcount n hn
      have hmore : k < items.size ∧ items.size ≤ k + left := by
        have hsize := Frame.size_le_of_arraysShort hshort hitems
        rw [Number.count_counted] at hlt
        exact ⟨by omega, hleft items hitems⟩
      refine endsAt_storeLocal hc hstore (fun value => ?_) g.stack
      -- The body starts with the cursor moved on and the item in its slot, and keeps array and
      -- cursor.
      generalize hlocals₂ : (locals₁.setIfInBounds cursor
        (.number (Number.counted k + 1.0))).setIfInBounds item value = locals₂
      have hkept₂ : ∀ n ∈ kept, locals₂[n]? = locals[n]? :=
        hlocals₂ ▸ getElem?_kept hitem.2.2 value (getElem?_kept hcursor.2 _ hkept)
      have harray₂ : locals₂[array]? = some (.array items) := by
        rw [← hlocals₂, Array.getElem?_setIfInBounds_ne hitem.2.1,
          Array.getElem?_setIfInBounds_ne hcursor.1]
        exact hitems
      have hcursor₂ : ∀ n, locals₂[cursor]? = some (.number n) → n = Number.counted (k + 1) := by
        intro n hn
        rw [← hlocals₂, Array.getElem?_setIfInBounds_ne hitem.1,
          Array.getElem?_setIfInBounds_self] at hn
        split at hn
        · cases hn
          rfl
        · cases hn
      refine hbody locals₂ (fun locals₃ h₃ => ?_) (fun locals₃ h₃ => ?_) locals₂ fun _ _ => rfl
      · exact hexit locals₃ fun n hn => (h₃ n (by simp [hn])).trans (hkept₂ n hn)
      · refine ih (left - 1) (by omega) (k + 1)
          (fun n hn => (h₃ n (by simp [hn])).trans (hkept₂ n hn))
          (fun n hn => hcursor₂ n ((h₃ cursor (by simp)).symm.trans hn)) fun items' hitems' => ?_
        rw [h₃ array (by simp), harray₂] at hitems'
        cases hitems'
        omega
    · rw [hg]
      exact hexit locals₁ hkept g.stack

/-- The run ends at the start of a loop over an array, right after its source has been evaluated. -/
theorem endsKeeping_loop (hc : c.Closes) (harray : array ∉ kept) (hcursor : cursor ∉ array :: kept)
    (hitem : item ∉ cursor :: array :: kept) {start : Nat}
    (hsource : c.unit.code[start]? = some (.storeLocal array))
    (hzero : c.unit.code[start + 1]? = some (.pushNumber 0.0))
    (hstart : c.unit.code[start + 2]? = some (.storeLocal cursor))
    (hstep : c.unit.code[start + 3]? = some (.iterNext array cursor exit))
    (hstore : c.unit.code[start + 4]? = some (.storeLocal item))
    (hexit : c.EndsKeeping kept exit locals)
    (hbody : ∀ locals', c.EndsKeeping (cursor :: array :: kept) exit locals' →
      c.EndsKeeping (cursor :: array :: kept) (start + 3) locals' →
      c.EndsKeeping (cursor :: array :: kept) (start + 5) locals') :
    c.EndsKeeping kept start locals := by
  intro locals₁ hkept
  refine endsAt_storeLocal hc hsource fun source => ?_
  refine endsAt_storeNumber hc hzero hstart ?_
  generalize hlocals₂ : (locals₁.setIfInBounds array source).setIfInBounds cursor (.number 0.0) =
    locals₂
  have hcursor' : cursor ∉ kept := fun h => hcursor (List.mem_cons_of_mem _ h)
  have hkept₂ : ∀ n ∈ kept, locals₂[n]? = locals[n]? :=
    hlocals₂ ▸ getElem?_kept hcursor' _ (getElem?_kept harray source hkept)
  have hcount : ∀ n, locals₂[cursor]? = some (.number n) → n = Number.counted 0 := by
    intro n hn
    rw [← hlocals₂, Array.getElem?_setIfInBounds_self] at hn
    split at hn
    · cases hn
      rfl
    · cases hn
  obtain ⟨left, hleft⟩ : ∃ left, ∀ items, locals₂[array]? = some (.array items) →
    items.size ≤ 0 + left := by
    cases locals₂[array]? with
    | none => exact ⟨0, fun items h => by cases h⟩
    | some source' =>
      cases source' with
      | array items => exact ⟨items.size, fun items' h => by cases h; omega⟩
      | _ => exact ⟨0, fun items h => by cases h⟩
  exact endsAt_turn hc hcursor hitem hstep hstore hexit hbody left 0 hkept₂ hcount hleft

end Loops

mutual

/-- The run ends at the start of a bounded statement if it does after the statement and where the
statement breaks off to. -/
theorem Bound.Stmt.endsKeeping (hc : c.Closes) (kept : List Nat) (locals : Array Value)
    (exits : Exits) (start : Nat) (hbreak : c.EndsKeeping kept exits.breakTo locals)
    (hcontinue : c.EndsKeeping kept exits.continueTo locals) :
    (stmt : Bound.Stmt) → Op.Each c.unit.Has start (stmt.code exits start) → stmt.Bounded kept →
      c.EndsKeeping kept (start + stmt.size) locals → c.EndsKeeping kept start locals
  | .store target value, h, hbounded, hnext => by
    obtain ⟨hvalue, htarget⟩ := Bound.Stmt.each_store.mp h
    rw [Bound.Stmt.add_size_store] at hnext
    exact (Bound.Target.endsKeeping hc _ _ htarget hbounded hnext).before fun locals' =>
      Bound.Expr.endsAt hc _ _ value hvalue
  | .returnVoid, h, _, _ => fun locals' _ =>
    endsAt_of_next hc (Bound.Stmt.each_returnVoid.mp h) rfl (fun h => by cases h)
      fun target h => by cases h
  | .returnValue value, h, _, _ => fun locals' _ => by
    obtain ⟨hvalue, hlast⟩ := Bound.Stmt.each_returnValue.mp h
    exact Bound.Expr.endsAt hc _ _ value hvalue
      (endsAt_of_next hc hlast rfl (fun h => by cases h) fun target h => by cases h)
  | .discard value, h, _, hnext => by
    obtain ⟨hvalue, hlast⟩ := Bound.Stmt.each_discard.mp h
    exact hnext.before fun locals' hend =>
      Bound.Expr.endsAt hc _ _ value hvalue (endsAt_of_succ hc hlast rfl rfl hend)
  | .forLoop array cursor item source body, h, hbounded, hnext => by
    obtain ⟨hsource, hstore, hzero, hstart, hstep, hitem, hbody, hagain⟩ :=
      Bound.Stmt.each_forLoop.mp h
    obtain ⟨harray, hcursor, hitem', hinner⟩ := hbounded
    have hexit : c.EndsKeeping kept (start + source.size + 5 + body.size + 1) locals := by
      rwa [Bound.Stmt.add_size_forLoop] at hnext
    refine (endsKeeping_loop hc harray hcursor hitem' hstore hzero hstart hstep hitem hexit
      fun locals' hout hturn => ?_).before fun locals' => Bound.Expr.endsAt hc _ _ source hsource
    refine Bound.Stmt.endsKeeping hc _ locals' _ _ hout hturn body hbody hinner ?_
    exact hturn.before fun locals'' hend =>
      endsAt_of_next hc hagain rfl (fun h => by cases h) fun target h => Option.some.inj h ▸ hend
  | .ifThen condition body, h, hbounded, hnext => by
    obtain ⟨hcondition, htest, hbody⟩ := Bound.Stmt.each_ifThen.mp h
    have hexit : c.EndsKeeping kept (start + condition.size + 1 + body.size) locals := by
      rwa [Bound.Stmt.add_size_ifThen] at hnext
    have hfirst := Bound.Stmt.endsKeeping hc kept locals exits _ hbreak hcontinue body hbody
      hbounded hexit
    exact fun locals' hkept => Bound.Expr.endsAt hc _ _ condition hcondition
      (endsAt_of_next hc htest rfl (fun _ => hfirst locals' hkept) fun target h =>
        Option.some.inj h ▸ hexit locals' hkept)
  | .ifElse condition body otherwise, h, hbounded, hnext => by
    obtain ⟨hcondition, htest, hbody, hskip, hotherwise⟩ := Bound.Stmt.each_ifElse.mp h
    have hexit : c.EndsKeeping kept
        (start + condition.size + 1 + body.size + 1 + otherwise.size) locals := by
      rwa [Bound.Stmt.add_size_ifElse] at hnext
    have hover : c.EndsKeeping kept (start + condition.size + 1 + body.size) locals :=
      hexit.before fun locals' hend =>
        endsAt_of_next hc hskip rfl (fun h => by cases h) fun target h => Option.some.inj h ▸ hend
    have hfirst := Bound.Stmt.endsKeeping hc kept locals exits _ hbreak hcontinue body hbody
      hbounded.1 hover
    have hsecond :=
      Bound.Stmt.endsKeeping hc kept locals exits _ hbreak hcontinue otherwise hotherwise
        hbounded.2 hexit
    exact fun locals' hkept => Bound.Expr.endsAt hc _ _ condition hcondition
      (endsAt_of_next hc htest rfl (fun _ => hfirst locals' hkept) fun target h =>
        Option.some.inj h ▸ hsecond locals' hkept)
  | .block statements, h, hbounded, hnext =>
    Bound.Stmt.endsKeeping_all hc kept locals exits start hbreak hcontinue statements
      (Bound.Stmt.each_block.mp h) hbounded hnext
  | .breakLoop, h, _, _ => hbreak.before fun locals' hend =>
    endsAt_of_next hc (Bound.Stmt.each_breakLoop.mp h) rfl (fun h => by cases h) fun target h =>
      Option.some.inj h ▸ hend
  | .continueLoop, h, _, _ => hcontinue.before fun locals' hend =>
    endsAt_of_next hc (Bound.Stmt.each_continueLoop.mp h) rfl (fun h => by cases h) fun target h =>
      Option.some.inj h ▸ hend

/-- The run ends at the start of bounded statements if it does after them and where
they break off to. -/
theorem Bound.Stmt.endsKeeping_all (hc : c.Closes) (kept : List Nat) (locals : Array Value)
    (exits : Exits) (start : Nat) (hbreak : c.EndsKeeping kept exits.breakTo locals)
    (hcontinue : c.EndsKeeping kept exits.continueTo locals) :
    (statements : List Bound.Stmt) →
      Op.Each c.unit.Has start (Bound.Stmt.codes exits start statements) →
      Bound.Stmt.AllBounded kept statements →
      c.EndsKeeping kept (start + Bound.Stmt.sizes 0 statements) locals →
      c.EndsKeeping kept start locals
  | [], _, _, hnext => hnext
  | stmt :: rest, h, hbounded, hnext => by
    obtain ⟨hstmt, hrest⟩ := Bound.Stmt.each_codes_cons.mp h
    rw [Bound.Stmt.add_sizes_cons] at hnext
    exact Bound.Stmt.endsKeeping hc kept locals exits start hbreak hcontinue stmt hstmt hbounded.1
      (Bound.Stmt.endsKeeping_all hc kept locals exits _ hbreak hcontinue rest hrest
        hbounded.2 hnext)

end

/-- The run ends at the start of a body with bounded statements. -/
theorem Bound.Body.endsAt (hc : c.Closes) {b : Bound.Body} {start : Nat}
    (h : Op.Each c.unit.Has start (b.code start)) (hbounded : Bound.Stmt.AllBounded [] b.statements)
    (locals : Array Value) : c.EndsAt start locals := by
  obtain ⟨hstatements, hreturn⟩ := Bound.Body.each_code.mp h
  have hend : c.EndsKeeping [] (start + Bound.Stmt.sizes 0 b.statements) locals := fun locals' _ =>
    endsAt_of_next hc hreturn rfl (fun h => by cases h) fun target h => by cases h
  exact Bound.Stmt.endsKeeping_all hc [] locals _ start hend hend b.statements hstatements hbounded
    hend locals fun n hn => by cases hn

end Stmts

section Programs

variable {p : Program} {program : Bound.Program} {limits : Limits}

/-- The run ends when a call of a program without while loops is opened, if it does when the call is
closed. The deeper the call, the less room there is for calls from it. -/
theorem openCall_ends (hbind : p.bind = .ok program) (hfree : p.isWhileFree) (room : Nat)
    {callers : List Frame} (hroom : limits.callDepth ≤ callers.length + room) {function : Nat}
    {args : Array Value} {callee : Frame}
    (hopen : program.toUnit.openCall limits callers.length function args = .ok callee)
    (hresumes : Resumes program.toUnit limits callers) :
    Ends program.toUnit limits (.running callee callers) := by
  induction room generalizing callers function args callee with
  | zero =>
    obtain ⟨entry, -, -, hdepth, -⟩ := CodeUnit.openCall_eq_ok hopen
    omega
  | succ room ih =>
    obtain ⟨entry, hentry, -, -, rfl⟩ := CodeUnit.openCall_eq_ok hopen
    obtain ⟨b, start, hb, rfl, hcode⟩ := program.exists_function_code hentry
    have hc : OpenCall.Closes ⟨program.toUnit, limits, some function, callers⟩ := by
      refine ⟨hresumes, fun waiting function args callee hopen hresumes => ih ?_ hopen hresumes⟩
      calc limits.callDepth ≤ callers.length + (room + 1) := hroom
        _ = (waiting :: callers).length + room := by rw [List.length_cons]; omega
    have hmem : b ∈ program.bodies := List.mem_cons_of_mem _ (List.mem_of_getElem? hb)
    exact Bound.Body.endsAt hc hcode (bind_bounded hbind hfree hmem) _ #[]

/-- Every run of a program without while loops ends. -/
theorem start_ends (hbind : p.bind = .ok program) (hfree : p.isWhileFree) (limits : Limits) :
    Ends program.toUnit limits (Machine.start program.toUnit limits).status := by
  have hc : OpenCall.Closes ⟨program.toUnit, limits, none, []⟩ := by
    refine ⟨fun caller rest value h => (by cases h),
      fun waiting function args callee hopen hresumes => ?_⟩
    exact openCall_ends hbind hfree limits.callDepth (Nat.le_add_left _ _) hopen hresumes
  have hcode : Op.Each program.toUnit.Has 0 (program.top.code 0) :=
    (Op.each_append.mp program.each_has_toUnit).1
  have hstart : program.toUnit.top.start = 0 := by
    rw [Bound.Program.toUnit_eq]
    rfl
  have hends := Bound.Body.endsAt hc hcode (bind_bounded hbind hfree List.mem_cons_self)
    (Array.replicate program.toUnit.top.locals .void) #[]
  rw [Machine.start, hstart]
  exact hends

end Programs

/-- A compiled program without while loops halts, under whatever limits and with any host, as long
as the arrays of its run are so short that their items can be counted. -/
theorem compiled_whileFree_halts {p : Program} {u : CodeUnit} (hcompile : compile p = .ok u)
    (hfree : p.isWhileFree) (limits : Limits) (host : Host σ)
    (hshort : ∀ n, ((Machine.start u limits).execMany host n).1.arraysShort) :
    ∃ n, ((Machine.start u limits).execMany host n).1.isRunning = false := by
  obtain ⟨program, hbind, rfl⟩ := compile_eq_ok_iff.mp hcompile
  exact (start_ends hbind hfree limits).halts rfl rfl rfl hshort

/-- The arrays of a run that stops are short if they are short before it stops. -/
theorem arraysShort_of_stopped {c : Machine × Host σ} {k : Nat}
    (hstopped : (after c k).1.isRunning = false) (hbefore : ∀ n, n < k → (after c n).1.arraysShort)
    (n : Nat) : (after c n).1.arraysShort := by
  rcases Nat.lt_or_ge n k with hlt | hle
  · exact hbefore n hlt
  · obtain ⟨j, rfl⟩ := Nat.exists_eq_add_of_le hle
    rw [after_add_of_not_running hstopped, arraysShort]
    split
    next hstatus =>
      rw [isRunning, hstatus] at hstopped
      cases hstopped
    · rfl
    · rfl

/-- A program that calls itself from a loop over an array. -/
def visitProgram : Program where
  functions :=
    [{ name := "visit"
       params := ["items"]
       body := .forLoop "item" (.var "items") (.discard (.call "visit" [.var "items"])) }]
  statements := [.discard (.call "visit" [.array [.number 1.0, .number 2.0]])]

/-- The program that calls itself from a loop halts when no more than four calls may be open. -/
theorem visitProgram_halts :
    visitProgram.isWhileFree ∧ ∃ u, compile visitProgram = .ok u ∧
      (∀ n, ((Machine.start u ⟨4, 8⟩).execMany callbackHost n).1.arraysShort) ∧
      ∃ n, ((Machine.start u ⟨4, 8⟩).execMany callbackHost n).1.isRunning = false := by
  have hcompile : (compile visitProgram).toOption.map (fun u =>
      (((Machine.start u ⟨4, 8⟩).execMany callbackHost 28).1.isRunning,
        (List.range 28).all fun n =>
          ((Machine.start u ⟨4, 8⟩).execMany callbackHost n).1.arraysShort)) =
      some (false, true) := by
    decide +kernel
  obtain ⟨u, hu, hrun⟩ := exists_compile_eq_ok hcompile
  obtain ⟨hstopped, hbefore⟩ := Prod.mk.inj hrun
  have hshort : ∀ n, ((Machine.start u ⟨4, 8⟩).execMany callbackHost n).1.arraysShort :=
    arraysShort_of_stopped (c := (Machine.start u ⟨4, 8⟩, callbackHost)) hstopped fun n hn =>
      List.all_eq_true.mp hbefore n (List.mem_range.mpr hn)
  exact ⟨rfl, u, hu, hshort, compiled_whileFree_halts hu rfl ⟨4, 8⟩ callbackHost hshort⟩

end HostScript
