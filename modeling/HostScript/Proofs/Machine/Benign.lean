import HostScript.Machine.Basic

/-!
# Faults of sound code

A fault is malformed if only ill-formed code can raise it: an operand is missing, or an operand
of an instruction is out of range. A computation is benign if it ends in no malformed fault and
what it gives has a property. The operations on values, frames and hosts are benign where the
operands are there.
-/

namespace HostScript

/-- Whether only ill-formed code raises the fault. -/
def Fault.isMalformed : Fault → Bool
  | .stackUnderflow | .invalidBytecode _ => true
  | _ => false

/-- Whether a result has a property, or is a fault that sound code may raise. -/
def Benign {α : Type} (P : α → Prop) : Except Fault α → Prop
  | .ok a => P a
  | .error fault => fault.isMalformed = false

namespace Benign

variable {α β : Type} {P : α → Prop} {Q : β → Prop}

/-- Two benign computations in a row are benign. -/
theorem bind {x : Except Fault α} {f : α → Except Fault β} (hx : Benign P x)
    (hf : ∀ a, P a → Benign Q (f a)) :
    Benign Q (x >>= f) := by
  cases x with
  | error fault => exact hx
  | ok a => exact hf a hx

/-- A result that is changed afterwards. -/
theorem map {x : Except Fault α} {f : α → β} (hx : Benign P x) (hf : ∀ a, P a → Q (f a)) :
    Benign Q (x.map f) := by
  cases x with
  | error fault => exact hx
  | ok a => exact hf a hx

end Benign

namespace Value

theorem numbers_benign (lhs rhs : Value) : Benign (fun _ => True) (numbers lhs rhs) := by
  unfold numbers
  split <;> simp [Benign, mismatch, Fault.isMalformed]

theorem dividends_benign (lhs rhs : Value) : Benign (fun _ => True) (dividends lhs rhs) := by
  have h := numbers_benign lhs rhs
  unfold dividends
  split
  next heq =>
    rw [heq] at h
    exact h
  next => split <;> simp [Benign, Fault.isMalformed]

theorem order_benign (lhs rhs : Value) : Benign (fun _ => True) (order lhs rhs) := by
  unfold order
  split <;> simp [Benign, mismatch, Fault.isMalformed]

theorem position_benign (index : Value) (length : Nat) :
    Benign (fun _ => True) (index.position length) := by
  unfold position
  split
  · split <;> simp [Benign, Fault.isMalformed]
  · rfl

/-- Taking an element raises no malformed fault. -/
theorem element_benign (array index : Value) : Benign (fun _ => True) (array.element index) := by
  unfold element
  split
  next items =>
    have h := position_benign index items.size
    split
    · trivial
    next heq =>
      rw [heq] at h
      exact h
  · rfl

/-- Replacing an element raises no malformed fault. -/
theorem withElement_benign (array index value : Value) :
    Benign (fun _ => True) (array.withElement index value) := by
  unfold withElement
  split
  next items =>
    have h := position_benign index items.size
    split
    · trivial
    next heq =>
      rw [heq] at h
      exact h
  · rfl

end Value

/-- An operator raises no malformed fault. -/
theorem BinaryOp.apply_benign (op : BinaryOp) (lhs rhs : Value) :
    Benign (fun _ => True) (op.apply lhs rhs) := by
  have hordered : ∀ test, Benign (fun _ => True) (Value.ordered test lhs rhs) :=
    fun _ => (Value.order_benign lhs rhs).map fun _ _ => trivial
  have hnumbers : ∀ f, Benign (fun _ => True) (Value.computed f (Value.numbers lhs rhs)) :=
    fun _ => (Value.numbers_benign lhs rhs).map fun _ _ => trivial
  have hdividends : ∀ f, Benign (fun _ => True) (Value.computed f (Value.dividends lhs rhs)) :=
    fun _ => (Value.dividends_benign lhs rhs).map fun _ _ => trivial
  cases op with
  | equals | differs | and | or => trivial
  | less | more | lessOrEqual | greaterOrEqual => exact hordered _
  | plus | minus | multiply => exact hnumbers _
  | divide | modulus => exact hdividends _

/-- An operator raises no malformed fault. -/
theorem UnaryOp.apply_benign (op : UnaryOp) (operand : Value) :
    Benign (fun _ => True) (op.apply operand) := by
  unfold UnaryOp.apply
  split <;> simp [Benign, Value.mismatch, Fault.isMalformed]

namespace Host

variable {σ : Type}

/-- Why no global is found is no malformed fault. -/
theorem isMalformed_missing (host : Host σ) (name : String) :
    (host.missing name).isMalformed = false := by
  unfold missing
  split <;> rfl

/-- Reading a global raises no malformed fault. -/
theorem read_benign (host : Host σ) (name : String) :
    Benign (fun _ => True) (host.read name).1 := by
  unfold read
  split
  · trivial
  · exact isMalformed_missing _ name

/-- Writing a global raises no malformed fault. -/
theorem write_benign (host : Host σ) (name : String) (value : Value) :
    Benign (fun _ => True) (host.write name value) := by
  unfold write
  split
  · exact isMalformed_missing _ name
  all_goals simp [Benign, Fault.isMalformed]

end Host

namespace Frame

/-- Whether a frame is another one after `k` operands have been popped, as far as sizes go. -/
structure Popped (f : Frame) (k : Nat) (g : Frame) : Prop where
  function_eq : g.function = f.function
  pc_eq : g.pc = f.pc
  locals_size : g.locals.size = f.locals.size
  stack_size : g.stack.size + k = f.stack.size

variable {f g : Frame} {k : Nat}

theorem Popped.refl (f : Frame) : f.Popped 0 f :=
  ⟨rfl, rfl, rfl, rfl⟩

theorem Popped.trans {l : Nat} {g' : Frame} (h : f.Popped k g) (h' : g.Popped l g') :
    f.Popped (k + l) g' := by
  refine ⟨h'.function_eq.trans h.function_eq, h'.pc_eq.trans h.pc_eq,
    h'.locals_size.trans h.locals_size, ?_⟩
  have := h.stack_size
  have := h'.stack_size
  omega

/-- An operand is popped where there is one. -/
theorem pop_benign (h : 0 < f.stack.size) : Benign (fun r => f.Popped 1 r.2) f.pop := by
  unfold pop
  split
  next value _ => exact ⟨rfl, rfl, rfl, by simpa using Nat.sub_add_cancel h⟩
  next hnone =>
    rw [Array.back?_eq_none_iff.mp hnone] at h
    cases h

/-- Operands are popped where there are as many. -/
theorem popMany_benign {n : Nat} (h : n ≤ f.stack.size) :
    Benign (fun r => f.Popped n r.2) (f.popMany n) := by
  unfold popMany
  rw [if_pos h]
  refine ⟨rfl, rfl, rfl, ?_⟩
  simp only [Array.size_shrink]
  omega

/-- A slot of the frame can be read. -/
theorem getLocal_benign {slot : Nat} (h : slot < f.locals.size) :
    Benign (fun _ => True) (f.getLocal slot) := by
  simp [getLocal, h, Benign]

/-- A slot of the frame can be overwritten. -/
theorem setLocal_benign {slot : Nat} (value : Value) (h : slot < f.locals.size) :
    Benign (fun g => f.Popped 0 g) (f.setLocal slot value) := by
  unfold setLocal
  rw [if_pos h]
  exact ⟨rfl, rfl, by simp, rfl⟩

end Frame

/-- A string operand in range names a string. -/
theorem CodeUnit.string_benign {u : CodeUnit} {id : Nat} (h : id < u.strings.size) :
    Benign (fun _ => True) (u.string id) := by
  simp [CodeUnit.string, h, Benign]

end HostScript
