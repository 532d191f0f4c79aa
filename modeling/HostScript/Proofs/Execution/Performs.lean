import HostScript.Proofs.Machine.Room
import HostScript.Proofs.Semantics.Evaluation

/-!
# Machines that perform evaluations

A machine performs an evaluation when it comes to the status in which the evaluation should leave
it, with the globals and the host that the evaluation ends with. It faults where the evaluation
does, for the same reason. Where an evaluation runs out of turns and calls the machine is still
running, and has executed as many instructions at least. All of this holds as long as no instruction
fails because of the limits of the machine.
-/

namespace HostScript

variable {σ α β : Type}

open Machine

section Performs

variable (u : CodeUnit) (limits : Limits)

/-- A machine of a unit with a status, in a world. -/
def state (status : Status) (w : World (Array Value) σ) : Machine × Host σ :=
  ({ unit := u, limits, globals := w.globals, status }, w.host)

/-- Whether a machine that has executed `n` instructions is where a result says. When the result is
that turns and calls ran out, it has executed as many as `bound`. -/
def Arrived (bound n : Nat) (c : Machine × Host σ) (goal : α → Status) :
    EStateM.Result Halt (World (Array Value) σ) α → Prop
  | .ok a w => c = state u limits (goal a) w
  | .error (.fault error) w => ∃ pc trace, c = state u limits (.faulted (error.locate pc trace)) w
  | .error .exhausted w =>
    bound ≤ n ∧ ∃ frame callers, c = state u limits (.running frame callers) w

/-- Whether a machine comes to where a result says. -/
def Reaches (bound : Nat) (c : Machine × Host σ)
    (result : EStateM.Result Halt (World (Array Value) σ) α) (goal : α → Status) : Prop :=
  c.1.Unhindered c.2 → ∃ n, Arrived u limits bound n (after c n) goal result

/-- Whether a machine with a status performs an evaluation, in every world. -/
def Performs (bound : Nat) (status : Status) (x : Eval (Array Value) σ α)
    (goal : α → Status) : Prop :=
  ∀ w, Reaches u limits bound (state u limits status w) (x w) goal

/-- Whether a machine with a status performs an evaluation with its next instruction, in every
world. -/
def Steps (status : Status) (x : Eval (Array Value) σ α) (goal : α → Status) : Prop :=
  ∀ w, ¬(state u limits status w).1.LacksRoom (state u limits status w).2 →
    (∃ a w', x w = .ok a w' ∧
      (state u limits status w).1.exec (state u limits status w).2 = state u limits (goal a) w') ∨
    (∃ error w' pc trace, x w = .error (.fault error) w' ∧
      (state u limits status w).1.exec (state u limits status w).2 =
        state u limits (.faulted (error.locate pc trace)) w')

end Performs

section Lemmas

variable {u : CodeUnit} {limits : Limits} {bound bound' n n' : Nat} {c : Machine × Host σ}
  {status : Status} {x : Eval (Array Value) σ α} {f : α → Eval (Array Value) σ β}
  {middle : α → Status} {goal : β → Status}

/-- A machine that has executed more instructions, or needs fewer of them, has arrived as well. -/
theorem Arrived.mono {result : EStateM.Result Halt (World (Array Value) σ) β}
    (h : Arrived u limits bound n c goal result) (hle : bound ≤ n → bound' ≤ n') :
    Arrived u limits bound' n' c goal result := by
  match result, h with
  | .ok _ _, h => exact h
  | .error (.fault _) _, h => exact h
  | .error .exhausted _, h => exact ⟨hle h.1, h.2⟩

/-- Where a machine arrives with an early stop does not depend on the goal. -/
theorem Arrived.of_error {halt : Halt} {w : World (Array Value) σ}
    (h : Arrived u limits bound n c middle (.error halt w)) :
    Arrived u limits bound n c goal (.error halt w) := by
  cases halt with
  | fault error => exact h
  | exhausted => exact h

/-- After an instruction the rest of the way is one shorter. -/
theorem Reaches.step {c' : Machine × Host σ}
    {result : EStateM.Result Halt (World (Array Value) σ) β}
    (hexec : ¬c.1.LacksRoom c.2 → c.1.exec c.2 = c') (h : Reaches u limits bound c' result goal) :
    Reaches u limits (bound + 1) c result goal := by
  intro hroom
  have hfirst : after c 1 = c' := hexec (hroom 0)
  have hrest := hroom.after 1
  rw [hfirst] at hrest
  obtain ⟨n, hn⟩ := h hrest
  refine ⟨1 + n, ?_⟩
  rw [after_add, hfirst]
  exact hn.mono fun hle => by omega

/-- A machine that is told apart from its goal by no instruction has reached it. -/
theorem Reaches.here {result : EStateM.Result Halt (World (Array Value) σ) β}
    (h : Arrived u limits bound 0 c goal result) : Reaches u limits bound c result goal :=
  fun _ => ⟨0, h⟩

theorem Reaches.mono {result : EStateM.Result Halt (World (Array Value) σ) β}
    (h : Reaches u limits bound c result goal) (hle : bound' ≤ bound) :
    Reaches u limits bound' c result goal := by
  intro hroom
  obtain ⟨n, hn⟩ := h hroom
  exact ⟨n, hn.mono fun hbound => Nat.le_trans hle hbound⟩

theorem Performs.mono {y : Eval (Array Value) σ β} (h : Performs u limits bound status y goal)
    (hle : bound' ≤ bound) :
    Performs u limits bound' status y goal :=
  fun w => (h w).mono hle

/-- Nothing is left to do for a value. -/
theorem Performs.pure {b : β} (h : status = goal b) :
    Performs u limits bound status (Pure.pure b : Eval (Array Value) σ β) goal :=
  fun w => Reaches.here (congrArg (state u limits · w) h)

/-- Evaluations that follow each other are performed one after the other, the second for all values
that the first can have. -/
theorem Performs.bind_of {P : α → Prop} (hx : Performs u limits bound status x middle)
    (hvalues : ∀ w a w', x w = .ok a w' → P a)
    (hf : ∀ a, P a → Performs u limits bound (middle a) (f a) goal) :
    Performs u limits bound status (x >>= f) goal := by
  intro w hroom
  obtain ⟨n, hn⟩ := hx w hroom
  change ∃ n, Arrived u limits bound n (after _ n) goal (EStateM.bind x f w)
  unfold EStateM.bind
  have hrest := hroom.after n
  cases hresult : x w with
  | error halt w' => exact ⟨n, Arrived.of_error (hresult ▸ hn)⟩
  | ok a w' =>
    rw [hresult] at hn
    have hmiddle : after (state u limits status w) n = state u limits (middle a) w' := hn
    rw [hmiddle] at hrest
    obtain ⟨k, hk⟩ := hf a (hvalues w a w' hresult) w' hrest
    refine ⟨n + k, ?_⟩
    rw [after_add, hmiddle]
    exact hk.mono fun hle => by omega

/-- Evaluations that follow each other are performed one after the other. -/
theorem Performs.bind (hx : Performs u limits bound status x middle)
    (hf : ∀ a, Performs u limits bound (middle a) (f a) goal) :
      Performs u limits bound status (x >>= f) goal :=
  hx.bind_of (fun _ _ _ _ => trivial) fun a _ => hf a

/-- What follows an instruction is performed after it. -/
theorem Steps.bind (hx : Steps u limits status x middle)
    (hf : ∀ a, Performs u limits bound (middle a) (f a) goal) :
    Performs u limits (bound + 1) status (x >>= f) goal := by
  intro w hroom
  change ∃ n, Arrived u limits (bound + 1) n (after _ n) goal (EStateM.bind x f w)
  unfold EStateM.bind
  rcases hx w (hroom 0) with ⟨a, w', hresult, hexec⟩ | ⟨error, w', pc, trace, hresult, hexec⟩
  · rw [hresult]
    exact Reaches.step (fun _ => hexec) (hf a w') hroom
  · rw [hresult]
    exact ⟨1, pc, trace, hexec⟩

/-- An instruction performs its evaluation. -/
theorem Steps.performs {y : Eval (Array Value) σ β} (h : Steps u limits status y goal) :
    Performs u limits bound status y goal := by
  have hbind : Performs u limits (bound + 1) status (y >>= Pure.pure) goal :=
    h.bind fun b => Performs.pure rfl
  rw [bind_pure] at hbind
  exact hbind.mono (Nat.le_succ bound)

/-- An instruction that only has a value counts, whatever is performed after it. -/
theorem Steps.count {a : α} {y : Eval (Array Value) σ β}
    (h : Steps u limits status (Pure.pure a : Eval (Array Value) σ α) middle)
    (hy : Performs u limits bound (middle a) y goal) :
    Performs u limits (bound + 1) status y goal := by
  intro w
  refine Reaches.step (fun hroom => ?_) (hy w)
  rcases h w hroom with ⟨_, _, hresult, hexec⟩ | ⟨_, _, _, _, hresult, _⟩
  · cases hresult
    exact hexec
  · cases hresult

/-- An instruction that only has a value may stand before what is performed. -/
theorem Steps.before {a : α} {y : Eval (Array Value) σ β}
    (h : Steps u limits status (Pure.pure a : Eval (Array Value) σ α) middle)
    (hy : Performs u limits bound (middle a) y goal) : Performs u limits bound status y goal :=
  (h.count hy).mono (Nat.le_succ bound)

end Lemmas

end HostScript
