import HostScript.Proofs.Machine.Loops

/-!
# The turns of a loop

Once the source of a loop has been evaluated to an array, the loop takes one turn for each item, in
order, as long as the runs of its body come to their end or to a continue. Then it is left, and a
break leaves it at once. Any other value of the source is an error before the body has started.
-/

namespace HostScript

open Machine

variable {σ : Type}

/-- Whether the call above some callers is the current one, at an offset and without operands, with
locals that have a property. -/
def Status.RestsAt (callers : List Frame) (pc : Nat) (P : Array Value → Prop)
    (status : Status) : Prop :=
  ∃ function locals, status = .running ⟨function, pc, locals, #[]⟩ callers ∧ P locals

/-- A current call without operands rests where it is. -/
theorem Status.restsAt {callers : List Frame} {pc : Nat} {P : Array Value → Prop} {status : Status}
    {f : Frame} (h : status = .running f callers) (hpc : f.pc = pc) (hstack : f.stack = #[])
    (hlocals : P f.locals) : status.RestsAt callers pc P := by
  obtain ⟨function, _, locals, _⟩ := f
  subst hpc hstack
  exact ⟨function, locals, h, hlocals⟩

namespace Loop

variable (l : Loop) (callers : List Frame)

/-- Whether locals have an array and a cursor that has counted some turns. -/
def Carries (items : Array Value) (k : Nat) (locals : Array Value) : Prop :=
  locals[l.cursor]? = some (.number (Number.counted k)) ∧ locals[l.array]? = some (.array items)

/-- Whether a turn of the loop begins, after some others. -/
def AtTurn (items : Array Value) (k : Nat) (status : Status) : Prop :=
  status.RestsAt callers l.next (l.Carries items k)

/-- Whether the body of the loop starts with an item in the slot of the loop variable. -/
def BodyStarts (item : Value) (status : Status) : Prop :=
  status.RestsAt callers l.first fun locals => locals[l.item]? = some item

/-- Whether the run goes on after the loop. -/
def IsOver (status : Status) : Prop :=
  status.RestsAt callers l.exit fun _ => True

/-- Whether the body of the loop, which has been left after `k` instructions, is followed by another
turn, which begins after `n` instructions: the body has come to its end, from where a jump goes
back, or to a continue. -/
def GoesBack (g : Frame) (k n : Nat) : Prop :=
  g.pc = l.close ∧ n = k + 1 ∨ g.pc = l.next ∧ n = k

/-- Turns of a loop from one machine to another, in which the body comes to its end or to a
continue, with the machines in which the body starts. A turn takes an item and stores it, and
then the body runs. -/
inductive Turns : Machine × Host σ → List (Machine × Host σ) → Machine × Host σ → Prop
  | none (c : Machine × Host σ) : Turns c [] c
  | turn {c c' : Machine × Host σ} {starts : List (Machine × Host σ)} {f g : Frame} {k n : Nat}
      (htaken : (after c 1).1.status = .running f callers) (hf : f.pc = l.next + 1)
      (hdeparts : Departs l.first l.close callers (after c 2) k g) (hback : l.GoesBack g k n)
      (hrest : Turns (after (after c 2) n) starts c') : Turns c (after c 2 :: starts) c'

/-- How a loop goes on after some turns: it is over when there have been as many turns as items; if
not, the body starts with the next item and comes to a break, which leaves the loop at once, or its
run has no end of any kind. -/
inductive GoesOn (items : Array Value) (k : Nat) (c : Machine × Host σ) : Prop
  | over (hk : k = items.size) (hover : l.IsOver callers (after c 1).1.status)
  | broken {item : Value} (hitem : items[k]? = some item)
      (hstart : l.BodyStarts callers item (after c 2).1.status)
      {j : Nat} {g : Frame} (hdeparts : Departs l.first l.close callers (after c 2) j g)
      (hover : l.IsOver callers (after (after c 2) j).1.status)
  | unfinished {item : Value} (hitem : items[k]? = some item)
      (hstart : l.BodyStarts callers item (after c 2).1.status)
      (hnever : ∀ j g, ¬Departs l.first l.close callers (after c 2) j g)

/-- What a loop does once its source has been evaluated to a value. -/
structure RunsOver (value : Value) (c : Machine × Host σ) : Prop where
  /-- At the beginning of every turn the array is as it was and the cursor is a number. -/
  atTurn : ∀ items, value = .array items → ∀ starts c', l.Turns callers (after c 3) starts c' →
    l.AtTurn callers items starts.length c'.1.status
  /-- The body starts with one item after the other until the loop is over or left early. -/
  turns : ∀ items, value = .array items → items.size ≤ Number.countingLimit →
    ∃ (starts : List (Machine × Host σ)) (c' : Machine × Host σ),
      l.Turns callers (after c 3) starts c' ∧
      (∀ (k : Nat) (s : Machine × Host σ), starts[k]? = some s →
        ∃ item, items[k]? = some item ∧ l.BodyStarts callers item s.1.status) ∧
      l.GoesOn callers items starts.length c'
  /-- The step of the first turn fails if there is no array. -/
  mismatch : (∀ items, value ≠ .array items) →
    (∀ j, j ≤ 3 → ∃ f, (after c j).1.status = .running f callers ∧ f.pc = l.loaded + j) ∧
    ∃ error, (after c 4).1.status = .faulted error ∧
      error.fault = .typeMismatch "array" value.typeName ∧
      error.pc = some l.next

end Loop

namespace Loop

variable {l : Loop} {callers : List Frame} {p : Program} {program : Bound.Program} {limits : Limits}
  {c : Machine × Host σ} {items : Array Value} {k : Nat}

/-- The value of the source goes to the slot of the array, and the cursor is reset. -/
theorem StandsIn.enters (hl : l.StandsIn program) (hbind : p.bind = .ok program)
    (hc : Reachable program.toUnit limits c)
    {function : Option Nat} {locals : Array Value} {value : Value}
    (hstatus : c.1.status = .running ⟨function, l.loaded, locals, #[value]⟩ callers) :
    (∀ j, j ≤ 3 → ∃ f, (after c j).1.status = .running f callers ∧ f.pc = l.loaded + j) ∧
      (after c 3).1.status.RestsAt callers l.next fun locals' =>
        locals'[l.cursor]? = some (.number 0.0) ∧ locals'[l.array]? = some value := by
  have hroom : 0 < limits.operands := hc.size_stack_le hstatus
  have harray : l.array < locals.size := hc.slot_lt hbind hstatus hl.store
  have h₁ : (after c 1).1.status =
      .running ⟨function, l.loaded + 1, locals.setIfInBounds l.array value, #[]⟩ callers :=
    exec_storeLocal hstatus (hc.unit_eq ▸ hl.store) harray c.2
  have hc₁ := hc.after 1
  have h₂ : (after c 2).1.status =
      .running ⟨function, l.loaded + 2, locals.setIfInBounds l.array value, #[.number 0.0]⟩
        callers :=
    exec_pushNumber h₁ (hc₁.unit_eq ▸ hl.zero) (hc₁.limits_eq ▸ hroom) (after c 1).2
  have hc₂ := hc.after 2
  have hcursor := hc₂.slot_lt hbind h₂ hl.reset
  have h₃ : (after c 3).1.status = .running ⟨function, l.next,
      (locals.setIfInBounds l.array value).setIfInBounds l.cursor (.number 0.0), #[]⟩ callers :=
    exec_storeLocal h₂ (hc₂.unit_eq ▸ hl.reset) hcursor (after c 2).2
  refine ⟨fun j hj => ?_, function, _, h₃, ?_, ?_⟩
  · obtain rfl | rfl | rfl | rfl : j = 0 ∨ j = 1 ∨ j = 2 ∨ j = 3 := by omega
    · exact ⟨_, hstatus, rfl⟩
    · exact ⟨_, h₁, rfl⟩
    · exact ⟨_, h₂, rfl⟩
    · exact ⟨_, h₃, rfl⟩
  · rw [Array.getElem?_setIfInBounds_self, if_pos hcursor]
  · rw [Array.getElem?_setIfInBounds_ne hl.array_ne_cursor.symm, Array.getElem?_setIfInBounds_self,
      if_pos harray]

/-- If there is an item at the cursor, it is in the slot of the loop variable when the body starts,
and the cursor has moved on. -/
theorem StandsIn.starts (hl : l.StandsIn program) (hbind : p.bind = .ok program)
    (hc : Reachable program.toUnit limits c) (hroom : 0 < limits.operands)
    (h : l.AtTurn callers items k c.1.status)
    {item : Value} (hitem : items[Number.count (Number.counted k)]? = some item) :
    (∃ f, (after c 1).1.status = .running f callers ∧ f.pc = l.next + 1) ∧
      (after c 2).1.status.RestsAt callers l.first fun locals =>
        l.Carries items (k + 1) locals ∧ locals[l.item]? = some item := by
  obtain ⟨function, locals, hstatus, hcursor, harray⟩ := h
  have hslot : l.cursor < locals.size := (Array.getElem?_eq_some_iff.mp hcursor).1
  have h₁ : (after c 1).1.status = .running ⟨function, l.next + 1,
      locals.setIfInBounds l.cursor (.number (Number.counted (k + 1))), #[item]⟩ callers :=
    exec_iterNext_some hstatus (hc.unit_eq ▸ hl.step)
      (hc.limits_eq ▸ hroom) hcursor harray hitem c.2
  have hc₁ := hc.after 1
  have htake := hc₁.slot_lt hbind h₁ hl.take
  have h₂ : (after c 2).1.status = .running ⟨function, l.first,
      (locals.setIfInBounds l.cursor (.number (Number.counted (k + 1)))).setIfInBounds l.item item,
      #[]⟩ callers :=
    exec_storeLocal h₁ (hc₁.unit_eq ▸ hl.take) htake (after c 1).2
  refine ⟨⟨_, h₁, rfl⟩, function, _, h₂, ⟨?_, ?_⟩, ?_⟩
  · rw [Array.getElem?_setIfInBounds_ne hl.item_ne_cursor,
      Array.getElem?_setIfInBounds_self, if_pos hslot]
  · rw [Array.getElem?_setIfInBounds_ne hl.item_ne_array,
      Array.getElem?_setIfInBounds_ne hl.array_ne_cursor.symm, harray]
  · rw [Array.getElem?_setIfInBounds_self, if_pos htake]

/-- If there is no item at the cursor, the loop is over. -/
theorem StandsIn.stops (hl : l.StandsIn program) (hc : Reachable program.toUnit limits c)
    (h : l.AtTurn callers items k c.1.status)
    (hitem : items[Number.count (Number.counted k)]? = none) :
    l.IsOver callers (after c 1).1.status := by
  obtain ⟨function, locals, hstatus, hcursor, harray⟩ := h
  exact ⟨function, locals,
    exec_iterNext_none hstatus (hc.unit_eq ▸ hl.step) hcursor harray hitem c.2, trivial⟩

/-- After the loop the call has no operands. -/
theorem StandsIn.height_exit (hl : l.StandsIn program) (hbind : p.bind = .ok program)
    (hc : Reachable program.toUnit limits c) (h : l.AtTurn callers items k c.1.status) :
    program.height l.exit = 0 := by
  obtain ⟨function, locals, hstatus, -⟩ := h
  obtain ⟨-, -, -, hflows⟩ := hc.valid hbind hstatus hl.step
  rw [hflows.jump l.exit rfl, hl.height_next]
  rfl

/-- The run of the body is followed by another turn, or it has come to a break and the loop is
over. -/
theorem StandsIn.body_ends (hl : l.StandsIn program) (hbind : p.bind = .ok program)
    (hc : Reachable program.toUnit limits c) (hexit : program.height l.exit = 0)
    (h : c.1.status.RestsAt callers l.first (l.Carries items k)) {j : Nat} {g : Frame}
    (hdeparts : Departs l.first l.close callers c j g) :
    (∀ n, l.GoesBack g j n → l.AtTurn callers items k (after c n).1.status) ∧
      ((∃ n, l.GoesBack g j n) ∨ l.IsOver callers (after c j).1.status) := by
  obtain ⟨function, locals, hstatus, hcursor, harray⟩ := h
  have hcj := hc.after j
  have hfollows :
      c.1.status.Follows l.first l.close l.Reach callers ⟨function, l.first, locals, #[]⟩ := by
    rw [hstatus]
    exact .current (.inl ⟨Nat.le_refl _, Nat.le_add_right _ _⟩)
  obtain ⟨hkeeps, hreach⟩ := hdeparts.keeps (hc.unit_eq ▸ hl.body) hfollows
  have hcarries : l.Carries items k g.locals :=
    ⟨(hkeeps _ hl.cursor_unwritten).trans hcursor, (hkeeps _ hl.array_unwritten).trans harray⟩
  constructor
  · rintro n (⟨hpc, rfl⟩ | ⟨hpc, rfl⟩)
    · have hstack := hcj.stack_eq_empty hbind hdeparts.status_eq (hpc ▸ hl.height_close)
      obtain ⟨function', locals', hstatus', hcarries'⟩ :=
        Status.restsAt hdeparts.status_eq hpc hstack hcarries
      refine ⟨function', locals', ?_, hcarries'⟩
      rw [after_succ_last]
      exact exec_jump hstatus' (hcj.unit_eq ▸ hl.again) (after c j).2
    · have hstack := hcj.stack_eq_empty hbind hdeparts.status_eq (hpc ▸ hl.height_next)
      exact Status.restsAt hdeparts.status_eq hpc hstack hcarries
  · rcases hreach with ⟨hlo, hhi⟩ | hpc | hpc
    · have hpc : g.pc = l.close := Nat.le_antisymm hhi
        (Nat.not_lt.mp fun hlt => hdeparts.outside ⟨hlo, hlt⟩)
      exact .inl ⟨j + 1, .inl ⟨hpc, rfl⟩⟩
    · have hstack := hcj.stack_eq_empty hbind hdeparts.status_eq (hpc ▸ hexit)
      exact .inr (Status.restsAt hdeparts.status_eq hpc hstack trivial)
    · exact .inl ⟨j, .inr ⟨hpc, rfl⟩⟩

/-- When the step of a turn has taken an item, the body starts with it. -/
theorem StandsIn.taken (hl : l.StandsIn program) (hbind : p.bind = .ok program)
    (hc : Reachable program.toUnit limits c) (hroom : 0 < limits.operands)
    (h : l.AtTurn callers items k c.1.status)
    {f : Frame} (htaken : (after c 1).1.status = .running f callers) (hf : f.pc = l.next + 1) :
    ∃ item, items[Number.count (Number.counted k)]? = some item ∧
      (after c 2).1.status.RestsAt callers l.first fun locals =>
        l.Carries items (k + 1) locals ∧ locals[l.item]? = some item := by
  cases hitem : items[Number.count (Number.counted k)]? with
  | none =>
    obtain ⟨function, locals, hstatus, -⟩ := hl.stops hc h hitem
    obtain ⟨rfl, -⟩ := Status.running.inj (hstatus.symm.trans htaken)
    have hf : l.exit = l.next + 1 := hf
    unfold Loop.exit Loop.close Loop.first Loop.next at hf
    omega
  | some item => exact ⟨item, rfl, (hl.starts hbind hc hroom h hitem).2⟩

/-- Whether the body starts with one item after the other, from where the cursor is after some
turns. -/
def StartsFrom (l : Loop) (callers : List Frame) (items : Array Value) (k : Nat)
    (starts : List (Machine × Host σ)) : Prop :=
  ∀ i s, starts[i]? = some s → ∃ item, items[Number.count (Number.counted (k + i))]? = some item ∧
    l.BodyStarts callers item s.1.status

theorem StartsFrom.cons {starts : List (Machine × Host σ)} {item : Value}
    (hitem : items[Number.count (Number.counted k)]? = some item)
    (hstart : l.BodyStarts callers item c.1.status)
    (h : l.StartsFrom callers items (k + 1) starts) :
    l.StartsFrom callers items k (c :: starts) := by
  intro i s hs
  cases i with
  | zero =>
    obtain rfl := Option.some.inj hs
    exact ⟨item, hitem, hstart⟩
  | succ i =>
    rw [Nat.add_comm i, ← Nat.add_assoc]
    exact h i s hs

/-- Turns lead from the beginning of a turn to the beginning of a turn, and each has the
item at the cursor. -/
theorem StandsIn.turns (hl : l.StandsIn program)
    (hbind : p.bind = .ok program) (hroom : 0 < limits.operands)
    {c' : Machine × Host σ} {starts : List (Machine × Host σ)} (h : l.Turns callers c starts c')
    (hc : Reachable program.toUnit limits c) (hturn : l.AtTurn callers items k c.1.status) :
    l.AtTurn callers items (k + starts.length) c'.1.status ∧
      l.StartsFrom callers items k starts := by
  induction h generalizing k with
  | none c => exact ⟨hturn, nofun⟩
  | @turn c c' starts f g j n htaken hf hdeparts hback hrest ih =>
    obtain ⟨item, hitem, function, locals, hstatus, hcarries, hlocal⟩ :=
      hl.taken hbind hc hroom hturn htaken hf
    have hexit := hl.height_exit hbind hc hturn
    obtain ⟨hagain, -⟩ := hl.body_ends hbind (hc.after 2) hexit
      ⟨function, locals, hstatus, hcarries⟩ hdeparts
    obtain ⟨hlast, hstarts⟩ := ih ((hc.after 2).after n) (hagain n hback)
    refine ⟨?_, hstarts.cons hitem ⟨function, locals, hstatus, hlocal⟩⟩
    rwa [List.length_cons, Nat.add_comm starts.length, ← Nat.add_assoc]

/-- From the beginning of a turn on there are turns until the loop is over or left early. The items
that are left become fewer with every turn. -/
theorem StandsIn.exists_turns (hl : l.StandsIn program) (hbind : p.bind = .ok program)
    (hroom : 0 < limits.operands) (hlimit : items.size ≤ Number.countingLimit) (left : Nat)
    (hleft : items.size = k + left) (hc : Reachable program.toUnit limits c)
    (hturn : l.AtTurn callers items k c.1.status) :
    ∃ (starts : List (Machine × Host σ)) (c' : Machine × Host σ), l.Turns callers c starts c' ∧
      l.GoesOn callers items (k + starts.length) c' := by
  have hcount : Number.count (Number.counted k) = k := by
    rw [Number.count_counted]
    omega
  induction left generalizing k c with
  | zero =>
    have hnone : items[Number.count (Number.counted k)]? = none := by
      rw [hcount]
      exact Array.getElem?_eq_none (by omega)
    exact ⟨[], c, .none c, .over hleft.symm (hl.stops hc hturn hnone)⟩
  | succ left ih =>
    have hitem : items[k]? = some items[k] := Array.getElem?_eq_getElem (by omega)
    have hsome : items[Number.count (Number.counted k)]? = some items[k] := by
      rw [hcount]
      exact hitem
    obtain ⟨⟨f, htaken, hf⟩, function, locals, hstatus, hcarries, hlocal⟩ :=
      hl.starts hbind hc hroom hturn hsome
    have hstart : l.BodyStarts callers items[k] (after c 2).1.status :=
      ⟨function, locals, hstatus, hlocal⟩
    have hcount' : Number.count (Number.counted (k + 1)) = k + 1 := by
      rw [Number.count_counted]
      omega
    by_cases hends : ∃ j g, Departs l.first l.close callers (after c 2) j g
    · obtain ⟨j, g, hdeparts⟩ := hends
      have hexit := hl.height_exit hbind hc hturn
      obtain ⟨hagain, ⟨n, hback⟩ | hover⟩ :=
        hl.body_ends hbind (hc.after 2) hexit ⟨function, locals, hstatus, hcarries⟩ hdeparts
      · obtain ⟨starts, c', hturns, hgoesOn⟩ :=
          ih (by omega) ((hc.after 2).after n) (hagain n hback) hcount'
        refine ⟨after c 2 :: starts, c', .turn htaken hf hdeparts hback hturns, ?_⟩
        rwa [List.length_cons, Nat.add_comm starts.length, ← Nat.add_assoc]
      · exact ⟨[], c, .none c, .broken hitem hstart hdeparts hover⟩
    · exact ⟨[], c, .none c, .unfinished hitem hstart fun j g hdeparts => hends ⟨j, g, hdeparts⟩⟩

/-- What a loop does once its source has been evaluated. -/
theorem StandsIn.runsOver (hl : l.StandsIn program) (hbind : p.bind = .ok program)
    (hc : Reachable program.toUnit limits c)
    {function : Option Nat} {locals : Array Value} {value : Value}
    (hstatus : c.1.status = .running ⟨function, l.loaded, locals, #[value]⟩ callers) :
    l.RunsOver callers value c := by
  have hroom : 0 < limits.operands := hc.size_stack_le hstatus
  have hc₃ := hc.after 3
  obtain ⟨hbefore, hfirst⟩ := hl.enters hbind hc hstatus
  refine ⟨?_, ?_, ?_⟩
  · rintro items rfl starts c' hturns
    have hturn : l.AtTurn callers items 0 (after c 3).1.status := hfirst
    have hlast := (hl.turns hbind hroom hturns hc₃ hturn).1
    rwa [Nat.zero_add] at hlast
  · rintro items rfl hlimit
    have hturn : l.AtTurn callers items 0 (after c 3).1.status := hfirst
    obtain ⟨starts, c', hturns, hgoesOn⟩ :=
      hl.exists_turns hbind hroom hlimit items.size (Nat.zero_add _).symm hc₃ hturn
    rw [Nat.zero_add] at hgoesOn
    refine ⟨starts, c', hturns, fun i s hs => ?_, hgoesOn⟩
    obtain ⟨item, hitem, hstart⟩ := (hl.turns hbind hroom hturns hc₃ hturn).2 i s hs
    -- The cursor is at the item, since it has not reached the limit.
    have hlt := (Array.getElem?_eq_some_iff.mp hitem).1
    have hcount : Number.count (Number.counted (0 + i)) = i := by
      rw [Number.count_counted] at hlt ⊢
      omega
    rw [hcount] at hitem
    exact ⟨item, hitem, hstart⟩
  · intro hvalue
    obtain ⟨function', locals', hstatus', hcursor, harray⟩ := hfirst
    refine ⟨hbefore, ?_⟩
    rw [after_succ_last]
    exact exec_iterNext_mismatch hstatus' (hc₃.unit_eq ▸ hl.step) hcursor harray
      hvalue (after c 3).2

/-- When the source has been evaluated, its value is the only operand. -/
theorem StandsIn.loads (hl : l.StandsIn program) (hbind : p.bind = .ok program)
    (hc : Reachable program.toUnit limits c) {f : Frame} (hstatus : c.1.status = .running f callers)
    (hf : f.pc = l.start) {j : Nat} {g : Frame}
    (hdeparts : Departs l.start l.loaded callers c j g) :
    ∃ value, g = ⟨g.function, l.loaded, f.locals, #[value]⟩ := by
  have hfollows :
      c.1.status.Follows l.start l.loaded (fun pc => l.start ≤ pc ∧ pc ≤ l.loaded) callers f := by
    rw [hstatus]
    exact .current ⟨Nat.le_of_eq hf.symm, hf ▸ Nat.le_add_right _ _⟩
  obtain ⟨hkeeps, hlo, hhi⟩ := hdeparts.keeps (hc.unit_eq ▸ hl.source) hfollows
  have hpc :
      g.pc = l.loaded := Nat.le_antisymm hhi (Nat.not_lt.mp fun hlt => hdeparts.outside ⟨hlo, hlt⟩)
  have hlocals : g.locals = f.locals := Array.ext_getElem? fun slot => hkeeps slot not_false
  have hsize := ((hc.after j).placed hbind hdeparts.status_eq).height
  rw [hpc, hl.height_loaded] at hsize
  obtain ⟨value, hvalue⟩ := Array.size_eq_one_iff.mp hsize
  obtain ⟨function, pc, locals, stack⟩ := g
  subst hpc hlocals hvalue
  exact ⟨value, rfl⟩

end Loop

/-- Every loop over an array in a program that compiles has a place of its own in the unit, and its
variable a slot of its own. Whenever a call comes to the loop, in whichever run, it has no operands,
and when the source has been evaluated to a value the loop runs over that value. -/
theorem compiled_loop_runsOver {p : Program} {u : CodeUnit} (hcompile : compile p = .ok u) :
    ∃ program s loops, p.bind = .ok program ∧ program.toUnit = u ∧ Signatures.ofProgram p = .ok s ∧
      LineUp (Loop.Realizes program s) Loop.begun 0 u.code.size
        (p.stmts.filter Stmt.isForLoop) loops ∧
      ∀ (l : Loop) (around : Surroundings) (v : Visible) (name : String) (source : Expr)
        (body : Stmt), l.IsOf program around v name source body →
        (v.forHeader name).enter.place around.signatures name = .ok (.slot l.item) ∧
        ∀ (σ : Type) (limits : Limits) (c : Machine × Host σ) (f : Frame) (callers : List Frame),
          Reachable u limits c → c.1.status = .running f callers → f.pc = l.start →
          f.stack = #[] ∧ ∀ k g, Departs l.start l.loaded callers c k g →
            ∃ value, g = ⟨g.function, l.loaded, f.locals, #[value]⟩ ∧
              l.RunsOver callers value (after c k) := by
  obtain ⟨program, hbind, rfl⟩ := compile_eq_ok_iff.mp hcompile
  obtain ⟨s, loops, hs, hloops⟩ := bind_loops_lineUp hbind
  refine ⟨program, s, loops, hbind, rfl, hs, hloops, ?_⟩
  intro l around v name source body hof
  have hl := hof.standsIn
  refine ⟨hof.place_item, fun σ limits c f callers hc hstatus hf => ⟨?_, fun k g hdeparts => ?_⟩⟩
  · exact hc.stack_eq_empty hbind hstatus (hf ▸ hl.height_start)
  · obtain ⟨value, hg⟩ := hl.loads hbind hc hstatus hf hdeparts
    have hloaded := hdeparts.status_eq
    rw [hg] at hloaded
    exact ⟨value, hg, hl.runsOver hbind (hc.after k) hloaded⟩

/-- A body that assigns to the loop variable and to an element of the array, and has a loop of its
own over the same array with a variable of the same name. -/
def meddlingBody : Stmt :=
  .block
    [.assign (.index (.var "a") (.number 0.0)) (.number 9.0),
     .assign (.var "x") (.number 7.0),
     .forLoop "x" (.var "a") .continueLoop]

/-- A program with a loop over an array whose body meddles with the loop. -/
def meddlingProgram : Program where
  functions := []
  statements :=
    [.declare "a" (some (.array [.number 1.0, .number 2.0])), .forLoop "x" (.var "a") meddlingBody]

/-- The loop with the meddling body. -/
def meddlingLoop : Loop where
  start := 4
  source := .load (.script 0)
  body := .block
    [.store (.element (.place (.script 0)) (.number 0.0)) (.number 9.0),
     .store (.place (.slot 2)) (.number 7.0),
     .forLoop 3 4 5 (.load (.script 0)) .continueLoop]
  array := 0
  cursor := 1
  item := 2

/-- The program with the meddling body, bound. -/
def meddlingBound : Bound.Program where
  top :=
    { name := topLevelName
      arity := 0
      locals := 6
      statements :=
        [.store (.place (.script 0)) (.array [.number 1.0, .number 2.0]), meddlingLoop.stmt] }
  functions := []
  globals := #["a"]

/-- The run of the program comes to the loop after four instructions. One more evaluates the source,
and from there the loop runs over the two items, though its body meddles. -/
theorem meddlingProgram_runsOver :
    ∃ u, compile meddlingProgram = .ok u ∧
      (after (start u {}, callbackHost) 4).1.status.Inside 4 5 [] ∧
      meddlingLoop.RunsOver [] (.array #[.number 1.0, .number 2.0])
        (after (start u {}, callbackHost) 5) := by
  have hbind : meddlingProgram.bind = .ok meddlingBound := rfl
  have hcompile : compile meddlingProgram = .ok meddlingBound.toUnit := rfl
  let around : Surroundings :=
    { signatures := { globals := ({} : Std.TreeMap String Nat).insert "a" 0, globalNames := #["a"] }
      topLevel := true }
  have hof :
      meddlingLoop.IsOf meddlingBound around { reached := 1 } "x" (.var "a") meddlingBody := by
    refine ⟨false, _, ⟨0, 0⟩, Scopes.sound_empty, rfl, fun k op hop => ?_⟩
    have hcode : meddlingBound.code.drop meddlingLoop.start =
        meddlingLoop.stmt.code ⟨0, 0⟩ meddlingLoop.start ++ [.plain 0 .returnVoid] := rfl
    have hlt := (List.getElem?_eq_some_iff.mp hop).1
    rw [Op.Of, ← List.getElem?_drop, hcode, List.getElem?_append_left hlt]
    exact hop
  have hinside : (after (start meddlingBound.toUnit {}, callbackHost) 4).1.status.Inside 4 5 [] :=
    ⟨_, .inl ⟨rfl, by decide, by decide⟩⟩
  have hdeparts : Departs 4 5 [] (after (start meddlingBound.toUnit {}, callbackHost) 4) 1
      ⟨none, 5, Array.replicate 6 .void, #[.array #[.number 1.0, .number 2.0]]⟩ := by
    refine ⟨fun j hj => ?_, rfl, by decide⟩
    obtain rfl : j = 0 := by omega
    exact hinside
  obtain ⟨program, s, loops, hbind', -, -, -, hloops⟩ := compiled_loop_runsOver hcompile
  obtain rfl := Except.ok.inj (hbind.symm.trans hbind')
  obtain ⟨-, hruns⟩ := hloops _ _ _ _ _ _ hof
  obtain ⟨-, hruns⟩ := hruns Unit {} _ _ [] ⟨callbackHost, 4, rfl⟩ rfl rfl
  obtain ⟨value, hg, hover⟩ := hruns _ _ hdeparts
  obtain ⟨-, -, -, hstack⟩ := Frame.mk.inj hg
  obtain rfl : .array #[.number 1.0, .number 2.0] = value := by simpa using hstack
  exact ⟨_, hcompile, hinside, hover⟩

end HostScript
