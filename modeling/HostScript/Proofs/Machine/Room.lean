import HostScript.Machine.Run

/-!
# Runs and the room they need

A machine that has stopped stays as it is, so that it stops in one state only. The limits of a
machine come in where an operand is pushed, where a call is opened, and where the result of a call
is handed to the caller. An instruction that fails under some limits and not under others therefore
fails with an overflow.
-/

namespace HostScript

variable {σ : Type}

namespace Machine

/-- Whether the next instruction fails, but would not under other limits. -/
def LacksRoom (m : Machine) (host : Host σ) : Prop :=
  (m.exec host).1.fault?.isSome ∧ ∃ limits, ({ m with limits }.exec host).1.fault? = none

/-- Whether no instruction of a run fails because of the limits. -/
def Unhindered (m : Machine) (host : Host σ) : Prop :=
  ∀ n, ¬(m.execMany host n).1.LacksRoom (m.execMany host n).2

/-- The machine and the host after a number of instructions. -/
def after (c : Machine × Host σ) (n : Nat) : Machine × Host σ :=
  c.1.execMany c.2 n

section Runs

variable {c : Machine × Host σ} {n : Nat}

theorem after_succ (c : Machine × Host σ) (n : Nat) : after c (n + 1) = after (c.1.exec c.2) n :=
  rfl

theorem after_add (c : Machine × Host σ) (m n : Nat) : after c (m + n) = after (after c m) n := by
  induction m generalizing c with
  | zero =>
    rw [Nat.zero_add]
    rfl
  | succ m ih => rw [Nat.add_right_comm, after_succ, after_succ, ih]

/-- The rest of a run is not hindered either. -/
theorem Unhindered.after (h : c.1.Unhindered c.2) (k : Nat) :
    (after c k).1.Unhindered (after c k).2 := by
  intro n
  have hlater := h (k + n)
  change ¬(Machine.after c (k + n)).1.LacksRoom (Machine.after c (k + n)).2 at hlater
  rw [after_add] at hlater
  exact hlater

/-- A machine that has stopped stays as it is. -/
theorem exec_of_not_running {m : Machine} (host : Host σ) (h : m.isRunning = false) :
    m.exec host = (m, host) := by
  obtain ⟨u, limits, globals, status⟩ := m
  cases status with
  | running frame callers => cases h
  | done => rfl
  | faulted error => rfl

theorem after_add_of_not_running (h : (after c n).1.isRunning = false) (k : Nat) :
    after c (n + k) = after c n := by
  induction k with
  | zero => rfl
  | succ k ih =>
    rw [← Nat.add_assoc, after_add, ih]
    exact exec_of_not_running _ h

/-- A machine that stops does so in one state only. -/
theorem after_eq_after {k : Nat} (hn : (after c n).1.isRunning = false)
    (hk : (after c k).1.isRunning = false) :
    after c n = after c k := by
  rcases Nat.le_total n k with hle | hle
  · obtain ⟨j, rfl⟩ := Nat.exists_eq_add_of_le hle
    exact (after_add_of_not_running hn j).symm
  · obtain ⟨j, rfl⟩ := Nat.exists_eq_add_of_le hle
    exact after_add_of_not_running hk j

end Runs

end Machine

namespace Frame

variable {frame : Frame} {limit : Nat}

/-- A push within the limit succeeds. -/
theorem deliver_of_lt (h : frame.stack.size < limit) (value : Value) :
    frame.deliver limit value = .ok (.proceed { frame with stack := frame.stack.push value }) := by
  rw [deliver, push, if_pos h]
  rfl

/-- A push beyond the limit fails. -/
theorem deliver_of_le (h : limit ≤ frame.stack.size) (value : Value) :
    frame.deliver limit value = .error (.operandOverflow limit) := by
  rw [deliver, push, if_neg (Nat.not_lt.mpr h)]
  rfl

end Frame

/-- Whether a result depends on the limit at most by the room for one value, which is
pushed onto a frame. -/
def RoomOnly (run : Nat → Except Fault Action) : Prop :=
  (∃ result, ∀ limit, run limit = result) ∨
    ∃ (frame : Frame) (value : Value), ∀ limit, run limit = frame.deliver limit value

namespace RoomOnly

theorem constant (result : Except Fault Action) : RoomOnly fun _ => result :=
  .inl ⟨result, fun _ => rfl⟩

theorem deliver (frame : Frame) (value : Value) : RoomOnly fun limit => frame.deliver limit value :=
  .inr ⟨frame, value, fun _ => rfl⟩

theorem deliverResult (frame : Frame) (result : Except Fault Value) :
    RoomOnly fun limit => frame.deliverResult limit result := by
  cases result with
  | ok value => exact deliver frame value
  | error fault => exact constant _

theorem bind {α : Type} (x : Except Fault α) {f : Nat → α → Except Fault Action}
    (h : ∀ a, RoomOnly fun limit => f limit a) : RoomOnly fun limit => x >>= f limit := by
  cases x with
  | ok a => exact h a
  | error fault => exact constant _

theorem advance (frame : Frame) (array cursor exit : Nat) :
    RoomOnly fun limit => frame.advance limit array cursor exit := by
  unfold Frame.advance
  refine bind _ fun position => ?_
  cases position with
  | number n =>
    refine bind _ fun source => ?_
    cases source with
    | array items =>
      dsimp only
      cases items[Number.count n]? with
      | some item => exact bind _ fun frame => deliver frame item
      | none => exact constant _
    | _ => exact constant _
  | _ => exact constant _

end RoomOnly

namespace Instruction

/-- Whether what an instruction does depends on the limit at most by the room for one value. -/
def RoomOnly (run : Nat → Except RuntimeError Action × Host σ) : Prop :=
  (∃ result, ∀ limit, run limit = result) ∨
    ∃ (frame : Frame) (value : Value) (host : Host σ), ∀ limit,
      run limit = quietly host (frame.deliver limit value)

namespace RoomOnly

theorem constant (result : Except RuntimeError Action × Host σ) : RoomOnly fun _ => result :=
  .inl ⟨result, fun _ => rfl⟩

theorem quietly (host : Host σ) {run : Nat → Except Fault Action} (h : HostScript.RoomOnly run) :
    RoomOnly fun limit => Instruction.quietly host (run limit) := by
  rcases h with ⟨result, hresult⟩ | ⟨frame, value, hpush⟩
  · exact .inl ⟨Instruction.quietly host result, fun limit => congrArg _ (hresult limit)⟩
  · exact .inr ⟨frame, value, host, fun limit => congrArg _ (hpush limit)⟩

theorem actCall (frame : Frame) (host : Host σ) (callable : Callable σ) (name : String)
    (args : Array Value) :
    RoomOnly fun limit => Instruction.actCall limit frame host callable name args := by
  unfold Instruction.actCall
  generalize host.call callable name args = answer
  obtain ⟨result, host⟩ := answer
  cases result with
  | error error => exact constant _
  | ok outcome =>
    cases outcome with
    | immediate value => exact quietly host (.deliver frame value)
    | invoke function args =>
      exact constant (Instruction.quietly host (.ok (.call frame function args)))

theorem actLoadHost (u : CodeUnit) (frame : Frame) (host : Host σ) (name : Nat) :
    RoomOnly fun limit => Instruction.actLoadHost u limit frame host name := by
  unfold Instruction.actLoadHost
  cases u.string name with
  | error fault => exact constant _
  | ok name => exact quietly _ (.deliverResult frame _)

theorem actCallNative (u : CodeUnit) (frame : Frame) (host : Host σ) (name argc : Nat) :
    RoomOnly fun limit => Instruction.actCallNative u limit frame host name argc := by
  unfold Instruction.actCallNative
  cases frame.popMany argc with
  | error fault => exact constant _
  | ok popped =>
    cases u.string name with
    | error fault => exact constant _
    | ok name =>
      dsimp only
      cases host.natives[name]? with
      | none => exact constant _
      | some callable => exact actCall _ host callable name _

theorem actCallMethod (u : CodeUnit) (frame : Frame) (host : Host σ) (name argc : Nat) :
    RoomOnly fun limit => Instruction.actCallMethod u limit frame host name argc := by
  unfold Instruction.actCallMethod
  cases frame.popMany argc with
  | error fault => exact constant _
  | ok popped =>
    dsimp only
    cases popped.2.pop with
    | error fault => exact constant _
    | ok receiver =>
      obtain ⟨object, rest⟩ := receiver
      cases object with
      | object id =>
        cases u.string name with
        | error fault => exact constant _
        | ok name =>
          dsimp only
          cases host.method? id name host.state with
          | none => exact constant _
          | some callable => exact actCall _ host callable name _
      | _ => exact constant _

/-- The action of an instruction depends on the limits only by the room for the value that it
pushes. -/
theorem act (u : CodeUnit) (globals : Array Value) (frame : Frame) (host : Host σ)
    (i : Instruction) : RoomOnly fun limit => i.act u limit globals frame host := by
  cases i with
  | pushNumber n => exact quietly host (.deliver frame _)
  | pushString id => exact quietly host (.deliverResult frame _)
  | pushBool b => exact quietly host (.deliver frame _)
  | pushVoid => exact quietly host (.deliver frame _)
  | loadLocal slot => exact quietly host (.deliverResult frame _)
  | loadGlobal id =>
    unfold Instruction.act
    refine quietly host ?_
    cases globals[id]? with
    | some value => exact .deliver frame value
    | none => exact .constant _
  | loadHost name => exact actLoadHost u frame host name
  | makeArray count => exact quietly host (.bind _ fun popped => .deliver popped.2 _)
  | loadIndex =>
    exact quietly host (.bind _ fun _ => .bind _ fun popped => .deliverResult popped.2 _)
  | storeIndex =>
    exact quietly host
      (.bind _ fun _ => .bind _ fun _ => .bind _ fun popped => .deliverResult popped.2 _)
  | unary op => exact quietly host (.bind _ fun popped => .deliverResult popped.2 _)
  | binary op =>
    exact quietly host (.bind _ fun _ => .bind _ fun popped => .deliverResult popped.2 _)
  | iterNext array cursor exit => exact quietly host (.advance frame array cursor exit)
  | callNative name argc => exact actCallNative u frame host name argc
  | callMethod name argc => exact actCallMethod u frame host name argc
  | _ => exact constant _

end RoomOnly

/-- What an instruction does is the same under all limits, or it is to push a value onto a frame. -/
theorem act_eq_or_push (u : CodeUnit) (globals : Array Value) (frame : Frame) (host : Host σ)
    (i : Instruction) :
    (∃ result, ∀ limit, i.act u limit globals frame host = result) ∨
      ∃ (g : Frame) (value : Value) (host' : Host σ), ∀ limit,
        i.act u limit globals frame host = quietly host' (g.deliver limit value) :=
  RoomOnly.act u globals frame host i

end Instruction

namespace Machine

variable {u : CodeUnit} {limits limits' : Limits}

theorem fault?_eq_some {m : Machine} {error : RuntimeError} :
    m.fault? = some error ↔ m.status = .faulted error := by
  obtain ⟨u, limits, globals, status⟩ := m
  cases status <;> simp [fault?]

/-- What follows an action stops the machine under some limits only when there is no room. -/
theorem follow_overflow {pc : Nat} {function : Option Nat} {callers : List Frame} {action : Action}
    {error : RuntimeError} (h : follow u limits pc function callers action = .faulted error)
    (h' : ∀ error, follow u limits' pc function callers action ≠ .faulted error) :
    ∃ what limit, error.fault = .stackOverflow what limit := by
  cases action with
  | proceed frame => cases h
  | assign frame id value => cases h
  | call caller id args =>
    unfold follow CodeUnit.openCall at h h'
    dsimp only at h h'
    cases hentry : u.functions[id]? with
    | none =>
      rw [hentry] at h'
      exact absurd rfl (h' _)
    | some entry =>
      rw [hentry] at h h'
      dsimp only at h h'
      by_cases harity : args.size ≠ entry.arity
      · rw [if_pos harity] at h'
        exact absurd rfl (h' _)
      · rw [if_neg harity] at h
        by_cases hdepth : limits.callDepth ≤ callers.length + 1
        · rw [if_pos hdepth] at h
          cases h
          exact ⟨_, _, rfl⟩
        · rw [if_neg hdepth] at h
          cases h
  | leave value =>
    cases callers with
    | nil => cases h
    | cons caller callers =>
      unfold follow Frame.push at h
      by_cases hroom : caller.stack.size < limits.operands
      · simp [hroom] at h
      · simp only [hroom, if_false] at h
        cases h
        exact ⟨_, _, rfl⟩

/-- An instruction that fails for lack of room fails with an overflow. -/
theorem LacksRoom.overflow {m : Machine} {host : Host σ} (h : m.LacksRoom host) :
    ∃ error what limit, (m.exec host).1.fault? = some error ∧
      error.fault = .stackOverflow what limit := by
  obtain ⟨u, limits, globals, status⟩ := m
  obtain ⟨hfault, limits', hother⟩ := h
  cases status with
  | done => cases hfault
  | faulted error => cases hother
  | running frame callers =>
    unfold exec at hfault hother ⊢
    dsimp only at hfault hother ⊢
    cases hcode : u.code[frame.pc]? with
    | none => simp [hcode, fault?] at hother
    | some i =>
      rw [hcode] at hfault hother
      dsimp only at hfault hother ⊢
      rcases Instruction.act_eq_or_push u globals (frame.goto (frame.pc + 1)) host i with
        ⟨⟨result, host'⟩, hsame⟩ | ⟨g, value, host', hpush⟩
      · rw [hsame] at hfault hother ⊢
        cases result with
        | error error => cases hother
        | ok action =>
          obtain ⟨error, herror⟩ := Option.isSome_iff_exists.mp hfault
          have hfollow := fault?_eq_some.mp herror
          obtain ⟨what, limit, hstack⟩ := follow_overflow hfollow fun other hstatus => by
            rw [fault?_eq_some.mpr hstatus] at hother
            cases hother
          exact ⟨error, what, limit, herror, hstack⟩
      · rw [hpush] at hfault ⊢
        by_cases hlt : g.stack.size < limits.operands
        · rw [Frame.deliver_of_lt hlt] at hfault
          cases hfault
        · rw [Frame.deliver_of_le (Nat.not_lt.mp hlt)]
          exact ⟨_, _, _, rfl, rfl⟩

/-- A run that stops with no overflow is not hindered by the limits. -/
theorem unhindered_of_no_overflow {c : Machine × Host σ}
    (h : ∀ n error, (after c n).1.fault? = some error →
      ∀ what limit, error.fault ≠ .stackOverflow what limit) :
    c.1.Unhindered c.2 := by
  intro n hroom
  obtain ⟨error, what, limit, hfault, hoverflow⟩ := hroom.overflow
  refine h (n + 1) error ?_ what limit hoverflow
  rw [after_add]
  exact hfault

/-- A run to the end is not hindered by the limits. -/
theorem unhindered_of_done {c : Machine × Host σ} {n : Nat} (hn : (after c n).1.isRunning = false)
    (hdone : (after c n).1.fault? = none) : c.1.Unhindered c.2 := by
  refine unhindered_of_no_overflow fun k error hfault => ?_
  have hstopped : (after c k).1.isRunning = false := by rw [isRunning, fault?_eq_some.mp hfault]
  rw [after_eq_after hstopped hn, hdone] at hfault
  cases hfault

end Machine

end HostScript
