import HostScript.Proofs.Execution.Expressions

/-!
# The code of statements

The code of a statement runs on an empty operand stack. It ends behind itself, at one of the exits
of the loop around it, or by closing the current call, according to the signal of the statement.
Every turn of a loop executes an instruction at least, so that a loop which runs out of turns has
kept the machine busy for as many instructions.
-/

namespace HostScript

open Machine

variable {σ : Type} {u : CodeUnit} {limits : Limits} {bound : Nat} {function : Option Nat}
  {pc : Nat} {slots : Slots} {stack : Array Value} {callers : List Frame}
  {call : Calls (Array Value) σ}

/-- The code that stores into a target takes the value from the stack. -/
theorem Bound.Target.performs (hcalls : CallsPerform u limits bound call) :
    (t : Bound.Target) → (start n : Nat) → (value : Value) → Op.Each u.Has start (t.code start n) →
      Performs u limits bound (.running ⟨function, start, slots, stack.push value⟩ callers)
        (t.store call slots value)
        fun slots' => .running ⟨function, start + t.storeSize, slots', stack⟩ callers
  | .place p, start, n, value, h => by
    rw [Bound.Target.store]
    exact (Place.steps_store (Bound.Target.each_place.mp h)).performs
  | .element base position, start, n, value, h => by
    obtain ⟨hread, hposition, hcode, hbase⟩ := Bound.Target.each_element.mp h
    rw [Bound.Target.store, Bound.Target.add_storeSize_element]
    refine (base.read.performs hcalls start _ (stack.push value) hread).bind fun array => ?_
    refine (position.performs hcalls _ _ ((stack.push value).push array) hposition).bind
      fun index => ?_
    refine (steps_storeIndex hcode).performs.bind fun changed => ?_
    exact Bound.Target.performs hcalls base _ _ changed hbase

/-- Where the machine is when a statement has ended with a signal: behind it, at an exit,
or out of the call. -/
def stmtEnd (function : Option Nat) (callers : List Frame) (exits : Exits) (stop : Nat) :
    Signal × Slots → Status
  | (.next, slots) => .running ⟨function, stop, slots, #[]⟩ callers
  | (.breakLoop, slots) => .running ⟨function, exits.breakTo, slots, #[]⟩ callers
  | (.continueLoop, slots) => .running ⟨function, exits.continueTo, slots, #[]⟩ callers
  | (.returned value, _) => left callers value

section Loops

variable {goal : Signal × Slots → Status} {turn : Nat → Slots → Eval (Array Value) σ (Turn Slots)}

/-- Where the machine is after a turn of a loop: at the head of the loop again, or
where the loop ends. -/
def turnEnd (head : Slots → Status) (goal : Signal × Slots → Status) : Turn Slots → Status
  | .again slots => head slots
  | .finish signal slots => goal (signal, slots)

/-- A loop is performed when each of its turns is and executes an instruction at least. -/
theorem Performs.loop (bound : Nat) (head : Slots → Frame)
    (hturn : ∀ (k : Nat) (slots : Slots) (rest : Nat)
      (f : Turn Slots → Eval (Array Value) σ (Signal × Slots)), rest ≤ bound →
      (∀ t, Performs u limits rest (turnEnd (fun slots => .running (head slots) callers) goal t)
          (f t) goal) →
      Performs u limits (min bound (rest + 1)) (.running (head slots) callers)
        (turn k slots >>= f) goal)
    {fuel : Nat} (hfuel : bound ≤ fuel) (k : Nat) (slots : Slots) :
    Performs u limits bound (.running (head slots) callers) (Eval.loop turn fuel k slots) goal := by
  have hloop : Performs u limits (min bound fuel) (.running (head slots) callers)
      (Eval.loop turn fuel k slots) goal := by
    clear hfuel
    induction fuel generalizing k slots with
    | zero => exact fun w => Reaches.here ⟨by omega, _, _, rfl⟩
    | succ fuel ih =>
      rw [Eval.loop]
      refine (hturn k slots (min bound fuel) _ (Nat.min_le_left _ _) fun t => ?_).mono (by omega)
      cases t with
      | again slots => exact ih (k + 1) slots
      | finish signal slots => exact Performs.pure rfl
  rwa [Nat.min_eq_left hfuel] at hloop

/-- The body of a loop that ends behind itself jumps back to the head of the loop. -/
theorem performs_turnEnd {rest head stop exit : Nat}
    {f : Turn Slots → Eval (Array Value) σ (Signal × Slots)}
    (hjump : u.code[stop]? = some (.jump head)) {exits : Exits} (hf : ∀ t, Performs u limits rest
      (turnEnd (fun slots => .running ⟨function, head, slots, #[]⟩ callers)
      (stmtEnd function callers exits exit) t) (f t) (stmtEnd function callers exits exit))
    (r : Signal × Slots) :
    Performs u limits rest (stmtEnd function callers ⟨exit, head⟩ stop r) (f (r.1.turn r.2))
      (stmtEnd function callers exits exit) := by
  obtain ⟨signal, slots⟩ := r
  cases signal with
  | next => exact (steps_jump hjump).before (hf (.again slots))
  | continueLoop => exact hf (.again slots)
  | breakLoop => exact hf (.finish .next slots)
  | returned value => exact hf (.finish (.returned value) slots)

end Loops

namespace Bound

/-- The code of a loop performs the loop. -/
theorem performs_whileLoop (hcalls : CallsPerform u limits bound call) {condition : Expr}
    {body : Stmt} {fuel start : Nat} (hfuel : bound ≤ fuel) {exits : Exits}
    (h : Op.Each u.Has start ((Stmt.whileLoop condition body).code exits start))
    (hbody : ∀ slots, Performs u limits bound
      (.running ⟨function, start + condition.size + 1, slots, #[]⟩ callers) (body.exec call fuel
        slots) (stmtEnd function callers ⟨start + condition.size + 1 + body.size + 1, start⟩
        (start + condition.size + 1 + body.size))) (slots : Slots) :
    Performs u limits bound (.running ⟨function, start, slots, #[]⟩ callers)
      ((Stmt.whileLoop condition body).exec call fuel slots)
      (stmtEnd function callers exits (start + condition.size + 1 + body.size + 1)) := by
  obtain ⟨hcondition, hbranch, -, hjump⟩ := Stmt.each_whileLoop.mp h
  rw [Stmt.exec]
  refine Performs.loop bound (fun slots => ⟨function, start, slots, #[]⟩)
    (fun k slots rest f hrest hf => ?_) hfuel 0 slots
  rw [bind_assoc]
  refine ((condition.performs hcalls start 0 #[] hcondition).mono (Nat.min_le_left _ _)).bind
    fun value => ?_
  refine ((steps_branch hbranch fun _ _ _ => rfl).count (?_ : Performs u limits rest _ _ _)).mono
    (Nat.min_le_right _ _)
  cases value.isTruthy with
  | false => exact hf (.finish .next slots)
  | true =>
    change Performs u limits rest _ ((body.exec call fuel slots >>= _) >>= f) _
    rw [bind_assoc]
    exact ((hbody slots).mono hrest).bind fun r => performs_turnEnd hjump hf r

/-- The code of a loop over an array performs the loop. -/
theorem performs_forLoop (hcalls : CallsPerform u limits bound call) {array cursor item : Nat}
    {source : Expr} {body : Stmt} {fuel start : Nat} (hfuel : bound ≤ fuel) {exits : Exits}
    (h : Op.Each u.Has start ((Stmt.forLoop array cursor item source body).code exits start))
    (hbody : ∀ slots, Performs u limits bound
      (.running ⟨function, start + source.size + 5, slots, #[]⟩ callers) (body.exec call fuel slots)
      (stmtEnd function callers ⟨start + source.size + 5 + body.size + 1, start + source.size + 3⟩
        (start + source.size + 5 + body.size))) (slots : Slots) :
    Performs u limits bound (.running ⟨function, start, slots, #[]⟩ callers)
      ((Stmt.forLoop array cursor item source body).exec call fuel slots)
      (stmtEnd function callers exits (start + source.size + 5 + body.size + 1)) := by
  obtain ⟨hsource, harray, hzero, hcursor, hnext, hitem, -, hjump⟩ := Stmt.each_forLoop.mp h
  rw [Stmt.exec]
  refine (source.performs hcalls start 0 #[] hsource).bind fun value => ?_
  refine (steps_storeLocal harray).performs.bind fun slots => ?_
  refine (Steps.push hzero fun _ _ _ => rfl).before ?_
  refine (steps_storeLocal hcursor).performs.bind fun slots => ?_
  refine Performs.loop bound (fun slots => ⟨function, start + source.size + 3, slots, #[]⟩)
    (fun k slots rest f hrest hf => ?_) hfuel 0 slots
  rw [bind_assoc]
  refine ((steps_iterNext hnext).bind fun found => ?_).mono (Nat.min_le_right _ _)
  cases found with
  | none => exact hf (.finish .next slots)
  | some r =>
    change Performs u limits rest _ ((r.2.write item r.1 >>= _) >>= f) _
    rw [bind_assoc]
    refine (steps_storeLocal hitem).performs.bind fun slots => ?_
    rw [bind_assoc]
    exact ((hbody slots).mono hrest).bind fun r => performs_turnEnd hjump hf r

mutual

/-- The code of a statement performs it. -/
theorem Stmt.performs (hcalls : CallsPerform u limits bound call) {fuel : Nat}
    (hfuel : bound ≤ fuel) :
    (s : Stmt) → (exits : Exits) → (start : Nat) → (slots : Slots) →
      Op.Each u.Has start (s.code exits start) →
      Performs u limits bound (.running ⟨function, start, slots, #[]⟩ callers)
        (s.exec call fuel slots) (stmtEnd function callers exits (start + s.size))
  | .store target value, exits, start, slots, h => by
    obtain ⟨hvalue, htarget⟩ := Stmt.each_store.mp h
    rw [Stmt.exec, Stmt.add_size_store]
    refine (value.performs hcalls start 0 #[] hvalue).bind fun assigned => ?_
    refine (target.performs hcalls _ 0 assigned htarget).bind fun slots => ?_
    exact Performs.pure rfl
  | .returnVoid, exits, start, slots, h => by
    rw [Stmt.exec]
    exact (Steps.leave (Stmt.each_returnVoid.mp h) fun _ _ _ => rfl).before (Performs.pure rfl)
  | .returnValue value, exits, start, slots, h => by
    obtain ⟨hvalue, hcode⟩ := Stmt.each_returnValue.mp h
    rw [Stmt.exec]
    refine (value.performs hcalls start 0 #[] hvalue).bind fun result => ?_
    refine (Steps.leave hcode fun limit globals host => ?_).before (Performs.pure rfl)
    simp only [Instruction.act, Frame.pop_push]
    rfl
  | .whileLoop condition body, exits, start, slots, h => by
    have hbody := (Stmt.each_whileLoop.mp h).2.2.1
    rw [Stmt.add_size_whileLoop]
    exact performs_whileLoop hcalls hfuel h
      (fun slots => Stmt.performs hcalls hfuel body _ _ slots hbody) slots
  | .forLoop array cursor item source body, exits, start, slots, h => by
    have hbody := (Stmt.each_forLoop.mp h).2.2.2.2.2.2.1
    rw [Stmt.add_size_forLoop]
    exact performs_forLoop hcalls hfuel h
      (fun slots => Stmt.performs hcalls hfuel body _ _ slots hbody) slots
  | .ifThen condition body, exits, start, slots, h => by
    obtain ⟨hcondition, hbranch, hbody⟩ := Stmt.each_ifThen.mp h
    rw [Stmt.exec, Stmt.add_size_ifThen]
    refine (condition.performs hcalls start 0 #[] hcondition).bind fun value => ?_
    refine (steps_branch hbranch fun _ _ _ => rfl).before ?_
    cases value.isTruthy with
    | false => exact Performs.pure rfl
    | true => exact Stmt.performs hcalls hfuel body exits _ slots hbody
  | .ifElse condition body otherwise, exits, start, slots, h => by
    obtain ⟨hcondition, hbranch, hbody, hjump, hotherwise⟩ := Stmt.each_ifElse.mp h
    rw [Stmt.exec, Stmt.add_size_ifElse]
    refine (condition.performs hcalls start 0 #[] hcondition).bind fun value => ?_
    refine (steps_branch hbranch fun _ _ _ => rfl).before ?_
    cases value.isTruthy with
    | false => exact Stmt.performs hcalls hfuel otherwise exits _ slots hotherwise
    | true =>
      change Performs u limits bound _ (body.exec call fuel slots) _
      rw [← bind_pure (body.exec call fuel slots)]
      refine (Stmt.performs hcalls hfuel body exits _ slots hbody).bind fun r => ?_
      obtain ⟨signal, slots⟩ := r
      cases signal with
      | next => exact (steps_jump hjump).before (Performs.pure rfl)
      | breakLoop => exact Performs.pure rfl
      | continueLoop => exact Performs.pure rfl
      | returned value => exact Performs.pure rfl
  | .discard value, exits, start, slots, h => by
    obtain ⟨hvalue, hcode⟩ := Stmt.each_discard.mp h
    rw [Stmt.exec]
    refine (value.performs hcalls start 0 #[] hvalue).bind fun _ => ?_
    exact (steps_pop hcode).before (Performs.pure rfl)
  | .block statements, exits, start, slots, h => by
    have hpc : start + (Stmt.block statements).size = start + Stmt.sizes 0 statements := by
      rw [Stmt.size]
    rw [Stmt.exec, hpc]
    exact Stmt.performs_all hcalls hfuel statements exits start slots (Stmt.each_block.mp h)
  | .breakLoop, exits, start, slots, h => by
    rw [Stmt.exec]
    exact (steps_jump (Stmt.each_breakLoop.mp h)).before (Performs.pure rfl)
  | .continueLoop, exits, start, slots, h => by
    rw [Stmt.exec]
    exact (steps_jump (Stmt.each_continueLoop.mp h)).before (Performs.pure rfl)
termination_by structural s => s

/-- The code of statements performs them in order. -/
theorem Stmt.performs_all (hcalls : CallsPerform u limits bound call) {fuel : Nat}
    (hfuel : bound ≤ fuel) :
    (ss : List Stmt) → (exits : Exits) → (start : Nat) → (slots : Slots) →
      Op.Each u.Has start (Stmt.codes exits start ss) →
      Performs u limits bound (.running ⟨function, start, slots, #[]⟩ callers)
        (Stmt.execAll call fuel slots ss) (stmtEnd function callers exits (start + Stmt.sizes 0 ss))
  | [], exits, start, slots, _ => by
    rw [Stmt.execAll]
    exact Performs.pure rfl
  | s :: ss, exits, start, slots, h => by
    obtain ⟨hs, hss⟩ := Stmt.each_codes_cons.mp h
    rw [Stmt.execAll, Stmt.add_sizes_cons]
    refine (Stmt.performs hcalls hfuel s exits start slots hs).bind fun r => ?_
    obtain ⟨signal, slots⟩ := r
    cases signal with
    | next => exact Stmt.performs_all hcalls hfuel ss exits _ slots hss
    | breakLoop => exact Performs.pure rfl
    | continueLoop => exact Performs.pure rfl
    | returned value => exact Performs.pure rfl
termination_by structural ss => ss

end

end Bound

end HostScript
