import HostScript.Proofs.Semantics.Evaluation

/-!
# Evaluations in step

Two evaluations that keep their script globals in different ways are in step when, from the same
host and globals that mean the same, they end in the same way: with the same host and globals that
mean the same, and with related results or for the same reason. What they have in common can then be
said once for both.
-/

namespace HostScript

variable {γ γ' σ α α' β β' ν ν' : Type} {G : γ → γ' → Prop}

/-- Whether two results are the same up to a relation between globals and one between values. -/
inductive Alike (G : γ → γ' → Prop) (R : α → α' → Prop) :
    EStateM.Result Halt (World γ σ) α → EStateM.Result Halt (World γ' σ) α' → Prop where
  | ok {g : γ} {g' : γ'} {host : Host σ} {a : α} {a' : α'} (globals : G g g') (value : R a a') :
      Alike G R (.ok a ⟨g, host⟩) (.ok a' ⟨g', host⟩)
  | error {g : γ} {g' : γ'} {host : Host σ} (halt : Halt) (globals : G g g') :
      Alike G R (.error halt ⟨g, host⟩) (.error halt ⟨g', host⟩)

/-- Whether two evaluations are in step. -/
def InStep (G : γ → γ' → Prop) (R : α → α' → Prop) (x : Eval γ σ α) (y : Eval γ' σ α') : Prop :=
  ∀ (g : γ) (g' : γ') (host : Host σ), G g g' → Alike G R (x ⟨g, host⟩) (y ⟨g', host⟩)

/-- Whether functions are called in step. -/
def CallsInStep (G : γ → γ' → Prop) (call : Calls γ σ) (call' : Calls γ' σ) : Prop :=
  ∀ (id : Nat) (args : Array Value), InStep G Eq (call id args) (call' id args)

namespace InStep

variable {R : α → α' → Prop} {S : β → β' → Prop}

theorem pure {a : α} {a' : α'} (h : R a a') :
    InStep G R (Pure.pure a : Eval γ σ α) (Pure.pure a' : Eval γ' σ α') :=
  fun _ _ _ hg => .ok hg h

theorem throw (halt : Halt) :
    InStep G R (MonadExcept.throw halt : Eval γ σ α) (MonadExcept.throw halt : Eval γ' σ α') :=
  fun _ _ _ hg => .error halt hg

/-- What follows evaluations in step is in step when it is so for related values. -/
theorem bind {x : Eval γ σ α} {y : Eval γ' σ α'} {f : α → Eval γ σ β} {f' : α' → Eval γ' σ β'}
    (h : InStep G R x y) (hf : ∀ a a', R a a' → InStep G S (f a) (f' a')) :
    InStep G S (x >>= f) (y >>= f') := by
  intro g g' host hg
  have hfirst := h g g' host hg
  change Alike G S (EStateM.bind x f _) (EStateM.bind y f' _)
  unfold EStateM.bind
  generalize x ⟨g, host⟩ = r at hfirst ⊢
  generalize y ⟨g', host⟩ = r' at hfirst ⊢
  cases hfirst with
  | ok hglobals hvalue => exact hf _ _ hvalue _ _ _ hglobals
  | error halt hglobals => exact .error halt hglobals

/-- What follows evaluations to the same value is in step when it is so for each value. -/
theorem bind_eq {x : Eval γ σ α} {y : Eval γ' σ α} {f : α → Eval γ σ β} {f' : α → Eval γ' σ β'}
    (h : InStep G Eq x y) (hf : ∀ a, InStep G S (f a) (f' a)) :
    InStep G S (x >>= f) (y >>= f') := by
  refine h.bind fun a a' ha => ?_
  subst ha
  exact hf a

/-- A weaker relation between the values will do. -/
theorem mono {R' : α → α' → Prop} {x : Eval γ σ α} {y : Eval γ' σ α'} (h : InStep G R x y)
    (hR : ∀ a a', R a a' → R' a a') : InStep G R' x y := by
  intro g g' host hg
  have hfirst := h g g' host hg
  generalize x ⟨g, host⟩ = r at hfirst ⊢
  generalize y ⟨g', host⟩ = r' at hfirst ⊢
  cases hfirst with
  | ok hglobals hvalue => exact .ok hglobals (hR _ _ hvalue)
  | error halt hglobals => exact .error halt hglobals

/-- Evaluations stay in step when one of them still changes its value. -/
theorem bind_left {S : β → α' → Prop} {x : Eval γ σ α} {y : Eval γ' σ α'} {f : α → Eval γ σ β}
    (h : InStep G R x y) (hf : ∀ a a', R a a' → ∃ b, f a = Pure.pure b ∧ S b a') :
    InStep G S (x >>= f) y := by
  rw [← bind_pure y]
  refine h.bind fun a a' hvalue => ?_
  obtain ⟨b, hb, hrelated⟩ := hf a a' hvalue
  rw [hb]
  exact pure hrelated

theorem fail (fault : Fault) :
    InStep G R (Eval.fail fault : Eval γ σ α) (Eval.fail fault : Eval γ' σ α') :=
  throw _

theorem lift (result : Except Fault α) :
    InStep G Eq (Eval.lift result : Eval γ σ α) (Eval.lift result : Eval γ' σ α) := by
  cases result with
  | ok a => exact pure rfl
  | error fault => exact fail fault

theorem readHost (name : String) :
    InStep G Eq (Eval.readHost name : Eval γ σ Value) (Eval.readHost name : Eval γ' σ Value) := by
  intro g g' host hg
  exact lift (host.read name).1 g g' (host.read name).2 hg

theorem writeHost (name : String) (value : Value) :
    InStep G Eq (Eval.writeHost name value : Eval γ σ Unit)
      (Eval.writeHost name value : Eval γ' σ Unit) := by
  intro g g' host hg
  unfold Eval.writeHost
  cases host.write name value with
  | ok host' => exact .ok hg rfl
  | error fault => exact fail fault g g' host hg

section Calls

variable {call : Calls γ σ} {call' : Calls γ' σ}

/-- A callable of the host is called in step when the functions it may ask for are. -/
theorem callHost (hcalls : CallsInStep G call call') (callable : Callable σ) (name : String)
    (args : Array Value) :
    InStep G Eq (Eval.callHost call callable name args)
      (Eval.callHost call' callable name args) := by
  intro g g' host hg
  unfold Eval.callHost
  generalize host.call callable name args = answer
  obtain ⟨result, host'⟩ := answer
  cases result with
  | error error => exact .error _ hg
  | ok outcome =>
    cases outcome with
    | immediate value => exact .ok hg rfl
    | invoke function args => exact hcalls function args g g' host' hg

theorem callNative (hcalls : CallsInStep G call call') (name : String) (args : Array Value) :
    InStep G Eq (Eval.callNative call name args) (Eval.callNative call' name args) := by
  intro g g' host hg
  unfold Eval.callNative
  cases host.natives[name]? with
  | none => exact fail _ g g' host hg
  | some callable => exact callHost hcalls callable name args g g' host hg

theorem callMethod (hcalls : CallsInStep G call call') (object : Value) (name : String)
    (args : Array Value) :
    InStep G Eq (Eval.callMethod call object name args)
      (Eval.callMethod call' object name args) := by
  cases object with
  | object id =>
    intro g g' host hg
    unfold Eval.callMethod
    dsimp only
    cases host.method? id name host.state with
    | none => exact fail _ g g' host hg
    | some callable => exact callHost hcalls callable name args g g' host hg
  | _ => exact fail _

end Calls

end InStep

/-- Whether two turns end in the same way, given how their variables are related before the next
turn and after the loop. -/
inductive Turn.Alike (again : ν → ν' → Prop) (after : Signal → ν → ν' → Prop) :
    Turn ν → Turn ν' → Prop where
  | again {vars : ν} {vars' : ν'} (h : again vars vars') :
      Turn.Alike again after (.again vars) (.again vars')
  | finish {signal : Signal} {vars : ν} {vars' : ν'} (h : after signal vars vars') :
      Turn.Alike again after (.finish signal vars) (.finish signal vars')

/-- Turns that end with the same signal of their bodies end in the same way. -/
theorem Signal.turn_alike {again : ν → ν' → Prop} {after : Signal → ν → ν' → Prop} {vars : ν}
    {vars' : ν'} (hagain : again vars vars') (hafter : ∀ signal, after signal vars vars')
    (signal : Signal) : Turn.Alike again after (signal.turn vars) (signal.turn vars') := by
  cases signal with
  | next => exact .again hagain
  | continueLoop => exact .again hagain
  | breakLoop => exact .finish (hafter _)
  | returned value => exact .finish (hafter _)

/-- Loops are in step when their turns are. -/
theorem InStep.loop {turn : Nat → ν → Eval γ σ (Turn ν)} {turn' : Nat → ν' → Eval γ' σ (Turn ν')}
    (inv : Nat → ν → ν' → Prop) (after : Signal → ν → ν' → Prop)
    (hturn : ∀ k vars vars', inv k vars vars' →
      InStep G (Turn.Alike (inv (k + 1)) after) (turn k vars) (turn' k vars'))
    (fuel k : Nat) {vars : ν} {vars' : ν'} (h : inv k vars vars') :
    InStep G (fun r r' => r.1 = r'.1 ∧ after r.1 r.2 r'.2) (Eval.loop turn fuel k vars)
      (Eval.loop turn' fuel k vars') := by
  induction fuel generalizing k vars vars' with
  | zero => exact InStep.throw _
  | succ fuel ih =>
    rw [Eval.loop, Eval.loop]
    refine (hturn k vars vars' h).bind fun result result' halike => ?_
    cases halike with
    | again hagain => exact ih (k + 1) hagain
    | finish hafter => exact InStep.pure ⟨rfl, hafter⟩

end HostScript
