import HostScript.Host.Basic

/-!
# Requests to a host

Natives and globals are registered, and globals are read and written, one request after the other. A
request names one entry of the host: the native and the global of that name. Its answer, what it
makes of the entry and what it makes of the state depend on this entry and on the state alone, and
all other entries stay.
-/

namespace HostScript

variable {σ : Type}

namespace Host

/-- What is asked of a host. -/
inductive Request (σ : Type) where
  | addNative (name : String) (callable : Callable σ)
  | addGlobal (name : String) (global : Global σ)
  | read (name : String)
  | write (name : String) (value : Value)

/-- What a host answers. -/
inductive Answer where
  | done
  | value (value : Value)
  | refused (error : RegistrationError)
  | failed (fault : Fault)

/-- Whether an answer is an error. -/
def Answer.isError : Answer → Bool
  | .done | .value _ => false
  | .refused _ | .failed _ => true

/-- The answer to a request, and the host after it. -/
def serve (host : Host σ) : Request σ → Answer × Host σ
  | .addNative name callable =>
    match host.addNative name callable with
    | .ok host' => (.done, host')
    | .error error => (.refused error, host)
  | .addGlobal name global =>
    match host.addGlobal name global with
    | .ok host' => (.done, host')
    | .error error => (.refused error, host)
  | .read name =>
    match host.read name with
    | (.ok value, host') => (.value value, host')
    | (.error fault, host') => (.failed fault, host')
  | .write name value =>
    match host.write name value with
    | .ok host' => (.done, host')
    | .error fault => (.failed fault, host)

/-- What is registered under one name. -/
structure Entry (σ : Type) where
  native? : Option (Callable σ)
  global? : Option (Global σ)

/-- The entry of a name. -/
def entry (host : Host σ) (name : String) : Entry σ :=
  ⟨host.natives[name]?, host.globals[name]?⟩

/-- The fault of a name without a global: a native is not a value, and any other name is not
known. -/
def Entry.missing (entry : Entry σ) (name : String) : Fault :=
  if entry.native?.isSome then .typeMismatch "value" s!"native function `{name}`"
  else .undefinedSymbol name

namespace Request

/-- The name that a request is about. -/
def name : Request σ → String
  | .addNative name _ | .addGlobal name _ | .read name | .write name _ => name

/-- The answer to a request. -/
def answer (entry : Entry σ) (state : σ) : Request σ → Answer
  | .addNative name _ => if entry.native?.isSome then .refused (.duplicateNative name) else .done
  | .addGlobal name _ => if entry.global?.isSome then .refused (.duplicateGlobal name) else .done
  | .read name =>
    match entry.global? with
    | none => .failed (entry.missing name)
    | some (.plain value) => .value value
    | some (.computed get _) => .value (get state).1
  | .write name _ =>
    match entry.global? with
    | none => .failed (entry.missing name)
    | some (.computed _ none) => .failed (.readOnlyGlobal name)
    | some (.plain _) | some (.computed _ (some _)) => .done

/-- What a request makes of the entry of its name. -/
def advance (entry : Entry σ) : Request σ → Entry σ
  | .addNative _ callable => { entry with native? := some (entry.native?.getD callable) }
  | .addGlobal _ global => { entry with global? := some (entry.global?.getD global) }
  | .read _ => entry
  | .write _ value =>
    match entry.global? with
    | some (.plain _) => { entry with global? := some (.plain value) }
    | none | some (.computed _ _) => entry

/-- What a request makes of the state: a computed global is read or written. -/
def effect (entry : Entry σ) (state : σ) : Request σ → σ
  | .addNative _ _ | .addGlobal _ _ => state
  | .read _ =>
    match entry.global? with
    | some (.computed get _) => (get state).2
    | none | some (.plain _) => state
  | .write _ value =>
    match entry.global? with
    | some (.computed _ (some set)) => set value state
    | none | some (.plain _) | some (.computed _ none) => state

end Request

/-- What a request does, seen through the entries. -/
structure Served (host : Host σ) (request : Request σ) (result : Answer × Host σ) : Prop where
  answer_eq : result.1 = request.answer (host.entry request.name) host.state
  state_eq : result.2.state = request.effect (host.entry request.name) host.state
  entry_self : result.2.entry request.name = request.advance (host.entry request.name)
  entry_other : ∀ name, request.name ≠ name → result.2.entry name = host.entry name
  /-- An error changes nothing at all. -/
  unchanged : result.1.isError = true → result.2 = host

section Serve

variable (host : Host σ) (name : String)

/-- A new native stands in the entry of its name. -/
theorem entry_insert_native (callable : Callable σ) (other : String) :
    ({ host with natives := host.natives.insert name callable } : Host σ).entry other =
      if name = other then ⟨some callable, (host.entry other).global?⟩ else host.entry other := by
  unfold entry
  by_cases h : name = other <;> simp [Std.TreeMap.getElem?_insert, h]

/-- A new global stands in the entry of its name. -/
theorem entry_insert_global (global : Global σ) (other : String) :
    ({ host with globals := host.globals.insert name global } : Host σ).entry other =
      if name = other then ⟨(host.entry other).native?, some global⟩ else host.entry other := by
  unfold entry
  by_cases h : name = other <;> simp [Std.TreeMap.getElem?_insert, h]

/-- The fault of a name without a global is that of its entry. -/
theorem missing_eq : host.missing name = (host.entry name).missing name := by
  rw [missing, Entry.missing, entry, Std.TreeMap.contains_eq_isSome_getElem?]

theorem served_addNative (callable : Callable σ) :
    Served host (.addNative name callable) (host.serve (.addNative name callable)) := by
  rw [serve, addNative, Std.TreeMap.contains_eq_isSome_getElem?]
  cases h : host.natives[name]? with
  | none =>
    refine ⟨?_, rfl, ?_, ?_, nofun⟩
    · simp [Request.answer, Request.name, entry, h]
    · rw [Option.isSome_none, if_neg Bool.false_ne_true, entry_insert_native]
      simp [Request.name, Request.advance, entry, h]
    · intro other hne
      rw [Option.isSome_none, if_neg Bool.false_ne_true, entry_insert_native]
      exact if_neg hne
  | some old =>
    refine ⟨?_, rfl, ?_, fun _ _ => rfl, fun _ => rfl⟩
    · simp [Request.answer, Request.name, entry, h]
    · simp [Request.advance, Request.name, entry, h]

theorem served_addGlobal (global : Global σ) :
    Served host (.addGlobal name global) (host.serve (.addGlobal name global)) := by
  rw [serve, addGlobal, Std.TreeMap.contains_eq_isSome_getElem?]
  cases h : host.globals[name]? with
  | none =>
    refine ⟨?_, rfl, ?_, ?_, nofun⟩
    · simp [Request.answer, Request.name, entry, h]
    · rw [Option.isSome_none, if_neg Bool.false_ne_true, entry_insert_global]
      simp [Request.name, Request.advance, entry, h]
    · intro other hne
      rw [Option.isSome_none, if_neg Bool.false_ne_true, entry_insert_global]
      exact if_neg hne
  | some old =>
    refine ⟨?_, rfl, ?_, fun _ _ => rfl, fun _ => rfl⟩
    · simp [Request.answer, Request.name, entry, h]
    · simp [Request.advance, Request.name, entry, h]

theorem served_read : Served host (.read name) (host.serve (.read name)) := by
  have hglobal : (host.entry name).global? = host.globals[name]? := rfl
  rw [serve, read, global?]
  cases h : host.globals[name]? with
  | none =>
    refine ⟨?_, ?_, rfl, fun _ _ => rfl, fun _ => rfl⟩
    · simp [Request.answer, Request.name, hglobal, h, missing_eq]
    · simp [Request.effect, Request.name, hglobal, h]
  | some global =>
    cases global with
    | plain value =>
      refine ⟨?_, ?_, rfl, fun _ _ => rfl, nofun⟩
      · simp [Request.answer, Request.name, hglobal, h]
      · simp [Request.effect, Request.name, hglobal, h]
    | computed get set =>
      refine ⟨?_, ?_, rfl, fun _ _ => rfl, nofun⟩
      · simp [Request.answer, Request.name, hglobal, h]
      · simp [Request.effect, Request.name, hglobal, h]

theorem served_write (value : Value) :
    Served host (.write name value) (host.serve (.write name value)) := by
  have hglobal : (host.entry name).global? = host.globals[name]? := rfl
  rw [serve, write]
  cases h : host.globals[name]? with
  | none =>
    refine ⟨?_, ?_, ?_, fun _ _ => rfl, fun _ => rfl⟩
    · simp [Request.answer, Request.name, hglobal, h, missing_eq]
    · simp [Request.effect, Request.name, hglobal, h]
    · simp [Request.advance, Request.name, hglobal, h]
  | some global =>
    cases global with
    | plain old =>
      refine ⟨?_, ?_, ?_, ?_, nofun⟩
      · simp [Request.answer, Request.name, hglobal, h]
      · simp [Request.effect, Request.name, hglobal, h]
      · simp [Request.advance, Request.name, hglobal, h, entry_insert_global]
      · intro other hne
        rw [entry_insert_global]
        exact if_neg hne
    | computed get set =>
      cases set with
      | some set =>
        refine ⟨?_, ?_, ?_, fun _ _ => rfl, nofun⟩
        · simp [Request.answer, Request.name, hglobal, h]
        · simp [Request.effect, Request.name, hglobal, h]
        · simp [Request.advance, Request.name, h, entry]
      | none =>
        refine ⟨?_, ?_, ?_, fun _ _ => rfl, fun _ => rfl⟩
        · simp [Request.answer, Request.name, hglobal, h]
        · simp [Request.effect, Request.name, hglobal, h]
        · simp [Request.advance, Request.name, hglobal, h]

/-- Every request is served through the entry of its name. -/
theorem served (request : Request σ) : Served host request (host.serve request) := by
  cases request with
  | addNative name callable => exact served_addNative host name callable
  | addGlobal name global => exact served_addGlobal host name global
  | read name => exact served_read host name
  | write name value => exact served_write host name value

end Serve

end Host

end HostScript
