import HostScript.Proofs.Host.Requests

/-!
# Histories of hosts

What a host holds under a name is determined by what was asked and answered under that name: the
first native, the first global and, if it is a plain one, the value that was written last. Errors
leave no trace. Getters and setters of computed globals run when they are read and written and at no
other time. When they keep to cells of their own, the answers under one name do not depend on what
was asked under others.

Main statement: `registry_lawful`.
-/

namespace HostScript

variable {σ : Type}

/-- A global after a value was written to it, if one was. -/
def Global.written (value? : Option Value) : Global σ → Global σ
  | .plain value => .plain (value?.getD value)
  | .computed get set => .computed get set

@[simp]
theorem Global.written_none (global : Global σ) : global.written none = global := by
  cases global <;> rfl

namespace Host

/-- The native that a request registers. -/
def Request.native? : Request σ → Option (Callable σ)
  | .addNative _ callable => some callable
  | .addGlobal _ _ | .read _ | .write _ _ => none

/-- The global that a request registers. -/
def Request.global? : Request σ → Option (Global σ)
  | .addGlobal _ global => some global
  | .addNative _ _ | .read _ | .write _ _ => none

/-- A request and the answer that it got. -/
structure Exchange (σ : Type) where
  request : Request σ
  answer : Answer

/-- The value of a write that was carried out. -/
def Exchange.written? (exchange : Exchange σ) : Option Value :=
  match exchange.request, exchange.answer with
  | .write _ value, .done => some value
  | _, _ => none

/-- A host with nothing registered. -/
def initial (state : σ) : Host σ := { state }

/-- The host after some requests. -/
def after (host : Host σ) (requests : List (Request σ)) : Host σ :=
  requests.foldl (fun host request => (host.serve request).2) host

/-- What is asked of a host and answered, one after the other. -/
def history (host : Host σ) : List (Request σ) → List (Exchange σ)
  | [] => []
  | request :: requests =>
    ⟨request, (host.serve request).1⟩ :: (host.serve request).2.history requests

/-- The part of a history that is about one name. -/
def about (name : String) (past : List (Exchange σ)) : List (Exchange σ) :=
  past.filter fun exchange => exchange.request.name == name

/-- The value that was written last. -/
def lastWritten? (past : List (Exchange σ)) : Option Value :=
  past.reverse.findSome? Exchange.written?

/-- The first native of a history. -/
def firstNative? (past : List (Exchange σ)) : Option (Callable σ) :=
  past.findSome? fun exchange => exchange.request.native?

/-- The first global of a history. -/
def firstGlobal? (past : List (Exchange σ)) : Option (Global σ) :=
  past.findSome? fun exchange => exchange.request.global?

/-- The entry that a history of one name leads to: what was registered first, with
what was written last. -/
def recorded (past : List (Exchange σ)) : Entry σ where
  native? := firstNative? past
  global? := (firstGlobal? past).map (·.written (lastWritten? past))

section Recorded

variable {past : List (Exchange σ)} {host : Host σ} {request : Request σ} {state : σ}

theorem about_append_self (request : Request σ) (answer : Answer) :
    about request.name (past ++ [⟨request, answer⟩]) =
      about request.name past ++ [⟨request, answer⟩] := by
  simp [about]

theorem about_append_other {name : String} {answer : Answer} (h : request.name ≠ name) :
    about name (past ++ [⟨request, answer⟩]) = about name past := by
  simp [about, h]

theorem lastWritten?_append (exchange : Exchange σ) :
    lastWritten? (past ++ [exchange]) = exchange.written?.or (lastWritten? past) := by
  cases h : exchange.written? <;> simp [lastWritten?, h]

theorem firstNative?_append (exchange : Exchange σ) :
    firstNative? (past ++ [exchange]) = (firstNative? past).or exchange.request.native? := by
  simp [firstNative?, List.findSome?_append]

theorem firstGlobal?_append (exchange : Exchange σ) :
    firstGlobal? (past ++ [exchange]) = (firstGlobal? past).or exchange.request.global? := by
  simp [firstGlobal?, List.findSome?_append]

/-- What a request makes of an entry is what its answer adds to the history. -/
theorem recorded_append_answer (request : Request σ) (state : σ)
    (hwritten : firstGlobal? past = none → lastWritten? past = none) :
    recorded (past ++ [⟨request, request.answer (recorded past) state⟩]) =
      request.advance (recorded past) := by
  rw [recorded, firstNative?_append, firstGlobal?_append, lastWritten?_append]
  cases request with
  | addNative name callable =>
    cases h : firstNative? past <;>
      simp [Request.native?, Request.global?, Request.advance, Exchange.written?, recorded, h]
  | addGlobal name global =>
    cases h : firstGlobal? past with
    | none =>
      simp [Request.native?, Request.global?, Request.advance, Exchange.written?, recorded,
        h, hwritten h]
    | some first =>
      simp [Request.native?, Request.global?, Request.advance, Exchange.written?, recorded, h]
  | read name =>
    simp [Request.native?, Request.global?, Request.advance, Exchange.written?, recorded]
  | write name value =>
    cases h : firstGlobal? past with
    | none => simp [Request.native?, Request.global?, Request.advance, recorded, h]
    | some first =>
      cases first with
      | plain old =>
        simp [Request.native?, Request.global?, Request.advance, Request.answer, Exchange.written?,
          recorded, h, Global.written]
      | computed get set =>
        simp [Request.native?, Request.global?, Request.advance, recorded, h, Global.written]

/-- Without a global no write is carried out. -/
theorem lastWritten?_append_answer (request : Request σ) (state : σ)
    (hwritten : firstGlobal? past = none → lastWritten? past = none)
    (h : firstGlobal? (past ++ [⟨request, request.answer (recorded past) state⟩]) = none) :
    lastWritten? (past ++ [⟨request, request.answer (recorded past) state⟩]) = none := by
  rw [firstGlobal?_append, Option.or_eq_none_iff] at h
  rw [lastWritten?_append, hwritten h.1, Option.or_none]
  cases request <;> simp [Exchange.written?, Request.answer, recorded, h.1]

/-- A history that a host has had. Before a global is registered nothing is written to it. -/
structure Recorded (past : List (Exchange σ)) (host : Host σ) : Prop where
  entry_eq : ∀ name, host.entry name = recorded (about name past)
  written : ∀ name, firstGlobal? (about name past) = none → lastWritten? (about name past) = none

/-- One more request is recorded. -/
theorem Recorded.serve (h : Recorded past host) (request : Request σ) :
    Recorded (past ++ [⟨request, (host.serve request).1⟩]) (host.serve request).2 := by
  have hserved := host.served request
  have hanswer := hserved.answer_eq
  rw [h.entry_eq] at hanswer
  constructor
  · intro name
    by_cases hname : request.name = name
    · subst hname
      rw [hserved.entry_self, h.entry_eq, about_append_self, hanswer,
        recorded_append_answer request host.state (h.written _)]
    · rw [hserved.entry_other name hname, h.entry_eq, about_append_other hname]
  · intro name
    by_cases hname : request.name = name
    · subst hname
      rw [about_append_self, hanswer]
      exact lastWritten?_append_answer request host.state (h.written _)
    · rw [about_append_other hname]
      exact h.written name

/-- All requests are recorded. -/
theorem Recorded.after (h : Recorded past host) (requests : List (Request σ)) :
    Recorded (past ++ host.history requests) (host.after requests) := by
  induction requests generalizing past host with
  | nil =>
    rw [history, List.append_nil]
    exact h
  | cons request requests ih =>
    have hstep := ih (h.serve request)
    rw [List.append_assoc] at hstep
    exact hstep

theorem recorded_initial (state : σ) : Recorded [] (initial state) :=
  ⟨fun _ => rfl, fun _ _ => rfl⟩

end Recorded

/-! ## Runs of getters and setters -/

/-- A getter or a setter that was run. -/
inductive Access where
  | got (name : String)
  | set (name : String) (value : Value)

end Host

/-- A global whose getter and setter note down their runs. -/
def Global.logged (name : String) : Global σ → Global (σ × List Host.Access)
  | .plain value => .plain value
  | .computed get set =>
    .computed (fun state => ((get state.1).1, (get state.1).2, state.2 ++ [.got name]))
      (set.map fun set value state => (set value state.1, state.2 ++ [.set name value]))

/-- A callable that leaves the notes alone. -/
def Callable.logged : Callable σ → Callable (σ × List Host.Access)
  | .native arity body =>
    .native arity fun args state => ((body args state.1).1, (body args state.1).2, state.2)
  | .script handle => .script handle

namespace Host

/-- A request about a host whose globals note down what is run. -/
def Request.logged : Request σ → Request (σ × List Access)
  | .addNative name callable => .addNative name callable.logged
  | .addGlobal name global => .addGlobal name (global.logged name)
  | .read name => .read name
  | .write name value => .write name value

/-- What is run for a request: the getter of a computed global that is read, once, and the setter of
one that is written, once. -/
def Request.accesses (entry : Entry σ) : Request σ → List Access
  | .addNative _ _ | .addGlobal _ _ => []
  | .read name =>
    match entry.global? with
    | some (.computed _ _) => [.got name]
    | none | some (.plain _) => []
  | .write name value =>
    match entry.global? with
    | some (.computed _ (some _)) => [.set name value]
    | none | some (.plain _) | some (.computed _ none) => []

/-- An entry with all that it holds. -/
def Entry.logged (name : String) (entry : Entry σ) : Entry (σ × List Access) :=
  ⟨entry.native?.map Callable.logged, entry.global?.map (Global.logged name)⟩

section Logged

variable {host : Host σ} {logged : Host (σ × List Access)} {request : Request σ} {entry : Entry σ}

@[simp]
theorem Request.name_logged : request.logged.name = request.name := by
  cases request <;> rfl

theorem Request.answer_logged (state : σ × List Access) :
    request.logged.answer (entry.logged request.name) state = request.answer entry state.1 := by
  obtain ⟨native?, global?⟩ := entry
  cases request with
  | addNative name callable => simp [Request.logged, Request.answer, Entry.logged]
  | addGlobal name global => simp [Request.logged, Request.answer, Entry.logged]
  | read name =>
    rcases global? with _ | _ | ⟨get, set⟩ <;>
      simp [Request.logged, Request.answer, Request.name, Entry.logged, Entry.missing,
        Global.logged]
  | write name value =>
    rcases global? with _ | _ | ⟨get, _ | set⟩ <;>
      simp [Request.logged, Request.answer, Request.name, Entry.logged, Entry.missing,
        Global.logged]

theorem Request.effect_logged (state : σ × List Access) :
    request.logged.effect (entry.logged request.name) state =
      (request.effect entry state.1, state.2 ++ request.accesses entry) := by
  obtain ⟨native?, global?⟩ := entry
  cases request with
  | addNative name callable => simp [Request.logged, Request.effect, Request.accesses]
  | addGlobal name global => simp [Request.logged, Request.effect, Request.accesses]
  | read name =>
    rcases global? with _ | _ | ⟨get, set⟩ <;>
      simp [Request.logged, Request.effect, Request.accesses, Request.name, Entry.logged,
        Global.logged]
  | write name value =>
    rcases global? with _ | _ | ⟨get, _ | set⟩ <;>
      simp [Request.logged, Request.effect, Request.accesses, Request.name, Entry.logged,
        Global.logged]

theorem Request.advance_logged :
    request.logged.advance (entry.logged request.name) =
      (request.advance entry).logged request.name := by
  obtain ⟨native?, global?⟩ := entry
  cases request with
  | addNative name callable =>
    cases native? <;> simp [Request.logged, Request.advance, Entry.logged]
  | addGlobal name global =>
    cases global? <;> simp [Request.logged, Request.advance, Request.name, Entry.logged]
  | read name => rfl
  | write name value =>
    rcases global? with _ | _ | ⟨get, set⟩ <;>
      simp [Request.logged, Request.advance, Request.name, Entry.logged, Global.logged]

/-- A host whose globals note down what is run, beside one whose globals do not. -/
structure Logs (logged : Host (σ × List Access)) (host : Host σ) : Prop where
  state_eq : logged.state.1 = host.state
  entry_eq : ∀ name, logged.entry name = (host.entry name).logged name

/-- The notes change no answer, and a request adds what is run for it. -/
theorem Logs.serve (h : Logs logged host) (request : Request σ) :
    (logged.serve request.logged).1 = (host.serve request).1 ∧
      (logged.serve request.logged).2.state =
        ((host.serve request).2.state,
          logged.state.2 ++ request.accesses (host.entry request.name)) ∧
      Logs (logged.serve request.logged).2 (host.serve request).2 := by
  have hserved := host.served request
  have hlogged := logged.served request.logged
  have hentry := h.entry_eq request.name
  have hstate : (logged.serve request.logged).2.state =
      ((host.serve request).2.state,
        logged.state.2 ++ request.accesses (host.entry request.name)) := by
    rw [hlogged.state_eq, Request.name_logged, hentry, Request.effect_logged, h.state_eq,
      hserved.state_eq]
  refine ⟨?_, hstate, ?_, ?_⟩
  · rw [hlogged.answer_eq, Request.name_logged, hentry, Request.answer_logged, h.state_eq,
      hserved.answer_eq]
  · rw [hstate]
  · intro name
    by_cases hname : request.name = name
    · subst hname
      have hself := hlogged.entry_self
      rw [Request.name_logged] at hself
      rw [hself, hentry, Request.advance_logged, hserved.entry_self]
    · have hother := hlogged.entry_other name
      rw [Request.name_logged] at hother
      rw [hother hname, h.entry_eq, hserved.entry_other name hname]

theorem Logs.after (h : Logs logged host) (requests : List (Request σ)) :
    Logs (logged.after (requests.map Request.logged)) (host.after requests) := by
  induction requests generalizing logged host with
  | nil => exact h
  | cons request requests ih => exact ih (h.serve request).2.2

theorem logs_initial (state : σ) : Logs (initial (state, [])) (initial state) :=
  ⟨rfl, fun _ => rfl⟩

/-- Nothing is run for a request that ends in an error. -/
theorem Request.accesses_of_isError {state : σ} (h : (request.answer entry state).isError = true) :
    request.accesses entry = [] := by
  obtain ⟨native?, global?⟩ := entry
  cases request with
  | addNative name callable => rfl
  | addGlobal name global => rfl
  | read name =>
    rcases global? with _ | _ | ⟨get, set⟩ <;>
      simp_all [Request.answer, Request.accesses, Answer.isError]
  | write name value =>
    rcases global? with _ | _ | ⟨get, _ | set⟩ <;>
      simp_all [Request.answer, Request.accesses, Answer.isError]

end Logged

end Host

/-! ## Private cells -/

/-- A function of the state keeps to the cell of a name: its result and what it leaves in the cell
depend on what is in the cell, and it leaves all other cells as they are. -/
structure KeepsToCell {κ : String → Type} (cell : (name : String) → σ → κ name) (name : String)
    {α : Type} (f : σ → α × σ) : Prop where
  own : ∀ s t, cell name s = cell name t → (f s).1 = (f t).1 ∧ cell name (f s).2 = cell name (f t).2
  others : ∀ s other, name ≠ other → cell other (f s).2 = cell other s

/-- A global of a name whose getter and setter keep to the cell of the name. -/
inductive Global.Private {κ : String → Type} (cell : (name : String) → σ → κ name) (name : String) :
    Global σ → Prop
  | plain (value : Value) : Private cell name (.plain value)
  | computed {get : σ → Value × σ} {set : Option (Value → σ → σ)} (hget : KeepsToCell cell name get)
    (hset : ∀ f, set = some f → ∀ value, KeepsToCell cell name fun s => ((), f value s)) :
    Private cell name (.computed get set)

namespace Host

/-- All globals of a host keep to their cells. -/
def Private {κ : String → Type} (cell : (name : String) → σ → κ name) (host : Host σ) : Prop :=
  ∀ name global, (host.entry name).global? = some global → global.Private cell name

section Cells

variable {κ : String → Type} {cell : (name : String) → σ → κ name} {host host' : Host σ}
  {request : Request σ} {entry : Entry σ} {name : String}

/-- A request leaves the cells of all other names. -/
theorem Request.cell_effect_other
    (hprivate : ∀ global, entry.global? = some global → global.Private cell request.name) (s : σ)
    (hname : request.name ≠ name) : cell name (request.effect entry s) = cell name s := by
  cases request with
  | addNative _ callable => rfl
  | addGlobal _ global => rfl
  | read _ =>
    rw [effect]
    split
    next get set hglobal =>
      cases hprivate _ hglobal with
      | computed hget hset => exact hget.others s name hname
    · rfl
    · rfl
  | write _ value =>
    rw [effect]
    split
    next get set hglobal =>
      cases hprivate _ hglobal with
      | computed hget hset => exact (hset set rfl value).others s name hname
    · rfl
    · rfl
    · rfl

/-- The answer to a request depends on what is in the cell of its name. -/
theorem Request.answer_congr
    (hprivate : ∀ global, entry.global? = some global → global.Private cell request.name) {s t : σ}
    (hcell : cell request.name s = cell request.name t) :
    request.answer entry s = request.answer entry t := by
  cases request with
  | addNative _ callable => rfl
  | addGlobal _ global => rfl
  | read _ =>
    rw [answer, answer]
    split
    · rfl
    · rfl
    next get set hglobal =>
      cases hprivate _ hglobal with
      | computed hget hset => rw [(hget.own s t hcell).1]
  | write _ value => rfl

/-- What a request leaves in the cell of its name depends on what is in it. -/
theorem Request.cell_effect_self
    (hprivate : ∀ global, entry.global? = some global → global.Private cell request.name) {s t : σ}
    (hcell : cell request.name s = cell request.name t) :
    cell request.name (request.effect entry s) = cell request.name (request.effect entry t) := by
  cases request with
  | addNative _ callable => exact hcell
  | addGlobal _ global => exact hcell
  | read _ =>
    rw [effect, effect]
    split
    next get set hglobal =>
      cases hprivate _ hglobal with
      | computed hget hset => exact (hget.own s t hcell).2
    · exact hcell
    · exact hcell
  | write _ value =>
    rw [effect, effect]
    split
    next get set hglobal =>
      cases hprivate _ hglobal with
      | computed hget hset => exact ((hset set rfl value).own s t hcell).2
    · exact hcell
    · exact hcell
    · exact hcell

/-- The globals of a host keep to their cells if those that are registered do. -/
theorem Private.serve (h : host.Private cell)
    (hrequest : ∀ name global, request = .addGlobal name global → global.Private cell name) :
    (host.serve request).2.Private cell := by
  have hserved := host.served request
  intro name global hglobal
  by_cases hname : request.name = name
  case neg =>
    rw [hserved.entry_other name hname] at hglobal
    exact h name global hglobal
  subst hname
  rw [hserved.entry_self] at hglobal
  have hold := h request.name
  generalize host.entry request.name = entry at hglobal hold
  cases request with
  | addNative name callable => exact hold global hglobal
  | addGlobal name added =>
    cases hentry : entry.global? with
    | none =>
      simp only [Request.advance, hentry, Option.getD_none, Option.some.injEq] at hglobal
      exact hglobal ▸ hrequest name added rfl
    | some old =>
      simp only [Request.advance, hentry, Option.getD_some] at hglobal
      exact hold global (hentry.trans hglobal)
  | read name => exact hold global hglobal
  | write name value =>
    rw [Request.advance] at hglobal
    split at hglobal
    · obtain rfl := Option.some.inj hglobal
      exact .plain value
    · exact hold global hglobal
    · exact hold global hglobal

/-- What is answered under a name does not depend on what is asked under others. -/
theorem about_history (requests : List (Request σ)) (hprivate : host.Private cell)
    (hrequests : ∀ name global, .addGlobal name global ∈ requests → global.Private cell name)
    (hentry : host'.entry name = host.entry name)
    (hcell : cell name host'.state = cell name host.state) :
    about name (host.history requests) =
      host'.history (requests.filter fun request => request.name == name) := by
  induction requests generalizing host host' with
  | nil => rfl
  | cons request requests ih =>
    have hserved := host.served request
    have hprivate' : (host.serve request).2.Private cell := by
      apply hprivate.serve
      intro name global heq
      exact hrequests name global (heq ▸ List.mem_cons_self)
    have hrequests' : ∀ name global, .addGlobal name global ∈ requests → global.Private cell name :=
      fun name global hmem => hrequests name global (List.mem_cons_of_mem request hmem)
    have howned := hprivate request.name
    by_cases hname : request.name = name
    · -- Both hosts serve the request, from the same entry and the same cell.
      subst hname
      have hserved' := host'.served request
      have hanswer : (host.serve request).1 = (host'.serve request).1 := by
        rw [hserved.answer_eq, hserved'.answer_eq, hentry]
        exact Request.answer_congr howned hcell.symm
      have hentry' : (host'.serve request).2.entry request.name =
          (host.serve request).2.entry request.name := by
        rw [hserved.entry_self, hserved'.entry_self, hentry]
      have hcell' : cell request.name (host'.serve request).2.state =
          cell request.name (host.serve request).2.state := by
        rw [hserved.state_eq, hserved'.state_eq, hentry]
        exact Request.cell_effect_self howned hcell
      have hrest := ih hprivate' hrequests' hentry' hcell'
      simpa [history, about, hanswer] using hrest
    · -- Only one host serves it, and what the other sees stays.
      have hentry' : host'.entry name = (host.serve request).2.entry name := by
        rw [hserved.entry_other name hname, hentry]
      have hcell' : cell name host'.state = cell name (host.serve request).2.state := by
        rw [hserved.state_eq, Request.cell_effect_other howned host.state hname, hcell]
      have hrest := ih hprivate' hrequests' hentry' hcell'
      simpa [history, about, hname] using hrest

theorem private_initial (cell : (name : String) → σ → κ name) (state : σ) :
    (initial state).Private cell :=
  nofun

end Cells

/-- What a host holds and answers after a history: under each name the first native and, apart from
it, the first global. -/
structure Lawful (past : List (Exchange σ)) (host : Host σ) : Prop where
  natives_eq : ∀ name, host.natives[name]? = firstNative? (about name past)
  globals_eq : ∀ name, host.globals[name]? =
    (firstGlobal? (about name past)).map (·.written (lastWritten? (about name past)))
  /-- A plain global has the value that was written last, or else the one that it was registered
  with. -/
  read_plain : ∀ name value, firstGlobal? (about name past) = some (.plain value) →
    host.read name = (.ok ((lastWritten? (about name past)).getD value), host)
  /-- A computed global is computed when it is read. -/
  read_computed : ∀ name get set, firstGlobal? (about name past) = some (.computed get set) →
    host.read name = (.ok (get host.state).1, { host with state := (get host.state).2 })
  read_missing : ∀ name, firstGlobal? (about name past) = none →
    host.read name = (.error ((recorded (about name past)).missing name), host)
  write_missing : ∀ name value, firstGlobal? (about name past) = none →
    host.write name value = .error ((recorded (about name past)).missing name)

/-- A host holds what was recorded. -/
theorem Recorded.lawful {past : List (Exchange σ)} {host : Host σ} (h : Recorded past host) :
    Lawful past host := by
  have hglobals : ∀ name, host.globals[name]? =
      (firstGlobal? (about name past)).map (·.written (lastWritten? (about name past))) :=
    fun name => congrArg Entry.global? (h.entry_eq name)
  refine ⟨fun name => congrArg Entry.native? (h.entry_eq name), hglobals, ?_, ?_, ?_, ?_⟩
  · intro name value hfirst
    simp [Host.read, global?, hglobals, hfirst, Global.written]
  · intro name get set hfirst
    simp [Host.read, global?, hglobals, hfirst, Global.written]
  · intro name hfirst
    simp [Host.read, global?, hglobals, hfirst, missing_eq, h.entry_eq]
  · intro name value hfirst
    simp [Host.write, hglobals, hfirst, missing_eq, h.entry_eq]

/-- After any requests a host holds and answers what its history says. Whatever is asked next is
served through the entry of its name, and an error leaves the host as it is. The getter of a
computed global is run once when it is read, its setter once when it is written, and none for an
error. Under one name the host answers as if nothing had been asked under others. -/
theorem registry_lawful {κ : String → Type} (cell : (name : String) → σ → κ name) (state : σ)
    (requests : List (Request σ)) (request : Request σ)
    (hprivate : ∀ name global, .addGlobal name global ∈ requests → global.Private cell name) :
    Lawful ((initial state).history requests) ((initial state).after requests) ∧
    Served ((initial state).after requests) request
      (((initial state).after requests).serve request) ∧
    (((initial (state, [])).after (requests.map Request.logged)).serve request.logged).1 =
      (((initial state).after requests).serve request).1 ∧
    (((initial (state, [])).after (requests.map Request.logged)).serve request.logged).2.state =
      ((((initial state).after requests).serve request).2.state,
        ((initial (state, [])).after (requests.map Request.logged)).state.2 ++
          request.accesses (((initial state).after requests).entry request.name)) ∧
    ((((initial state).after requests).serve request).1.isError = true →
      request.accesses (((initial state).after requests).entry request.name) = []) ∧
    ∀ name, about name ((initial state).history requests) =
      (initial state).history (requests.filter fun request => request.name == name) := by
  have hrecorded := (recorded_initial state).after requests
  have hserved := ((initial state).after requests).served request
  obtain ⟨hanswer, hlog, -⟩ := ((logs_initial state).after requests).serve request
  refine ⟨hrecorded.lawful, hserved, hanswer, hlog, ?_, ?_⟩
  · intro herror
    rw [hserved.answer_eq] at herror
    exact Request.accesses_of_isError herror
  · intro name
    exact about_history requests (private_initial cell state) hprivate rfl rfl

/-- Requests about a clock that counts its readings, a level, and a native with the
name of the clock. -/
def clockRequests : List (Request (Nat × Nat)) :=
  [.addNative "clock" (.script ⟨0, "tick", 0⟩),
    .write "level" .void,
    .addGlobal "clock"
      (.computed (fun state => (.boolean (state.1 == 0), (state.1 + 1, state.2))) none),
    .addGlobal "level" (.plain .void), .write "clock" .void, .read "clock",
    .write "level" (.boolean true), .addGlobal "level" (.plain (.boolean false))]

/-- The clock has the first cell, and all other names share the second. -/
def clockCell (name : String) (state : Nat × Nat) : Nat :=
  if name = "clock" then state.1 else state.2

/-- The level that was written is read, and the second reading of the clock is the second
run of its getter. -/
theorem clockRequests_lawful :
    (∀ name global, .addGlobal name global ∈ clockRequests → global.Private clockCell name) ∧
    (((initial (0, 0)).after clockRequests).read "level").1 = .ok (.boolean true) ∧
    (((initial (0, 0)).after clockRequests).serve (.read "clock")).1 = .value (.boolean false) ∧
    (((initial ((0, 0), [])).after (clockRequests.map Request.logged)).serve
        (.read "clock")).2.state.2 =
      [.got "clock", .got "clock"] := by
  have hclock : KeepsToCell clockCell "clock"
      fun state => (Value.boolean (state.1 == 0), (state.1 + 1, state.2)) := by
    constructor
    · intro s t hcell
      have hsame : s.1 = t.1 := hcell
      simp [clockCell, hsame]
    · intro s other hne
      simp [clockCell, hne.symm]
  have hprivate :
      ∀ name global, .addGlobal name global ∈ clockRequests → global.Private clockCell name := by
    intro name global hmem
    simp only [clockRequests, List.mem_cons, List.not_mem_nil, reduceCtorEq,
      Request.addGlobal.injEq, or_false, false_or] at hmem
    obtain ⟨rfl, rfl⟩ | ⟨rfl, rfl⟩ | ⟨rfl, rfl⟩ := hmem
    · exact .computed hclock nofun
    · exact .plain _
    · exact .plain _
  obtain ⟨hlawful, hserved, -, hlog, -⟩ :=
    registry_lawful clockCell (0, 0) clockRequests (.read "clock") hprivate
  refine ⟨hprivate, ?_, ?_, ?_⟩
  · rw [hlawful.read_plain "level" .void rfl]
    rfl
  · rw [hserved.answer_eq]
    rfl
  · exact (congrArg Prod.snd hlog).trans rfl

end Host

end HostScript
