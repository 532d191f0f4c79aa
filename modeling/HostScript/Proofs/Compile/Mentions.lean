import HostScript.Proofs.Compile.Pool
import HostScript.Proofs.WellFormed.Compile

/-!
# What the strings of a unit stand for

The text of a program mentions strings in five ways: as a literal, as a variable of the host that is
read or assigned to, as a native function that is called, and as a method that is called. The
instructions of the unit that use a string are these mentions, one by one and in their order, and
the string that the pool has for each is the one in the text.

A variable belongs to the host if no open scope has declared its name and no script global has it; a
called function is native if the program has none of that name.
-/

namespace HostScript

/-- What a part of a program needs a string for. -/
inductive Mention where
  | literal (text : String)
  | load (name : String)
  | store (name : String)
  | native (name : String) (argc : Nat)
  | method (name : String) (argc : Nat)
  deriving DecidableEq, Repr

section Text

/-- Whether a variable belongs to the host, given the names that open scopes have declared. -/
def Program.LeavesToHost (p : Program) (locals : List String) (name : String) : Prop :=
  name ∉ locals ∧ name ∉ p.globalNames

instance (p : Program) (locals : List String) (name : String) :
    Decidable (p.LeavesToHost locals name) :=
  inferInstanceAs (Decidable (_ ∧ _))

/-- The mention in a use of a variable, if it belongs to the host. -/
def Program.hostMentions (p : Program) (locals : List String) (use : String → Mention)
    (name : String) : List Mention :=
  if p.LeavesToHost locals name then [use name] else []

/-- The mention in a call of a function, if it is native. -/
def Program.nativeMentions (p : Program) (function : String) (argc : Nat) : List Mention :=
  if function ∈ p.functions.map (·.name) then [] else [.native function argc]

mutual

/-- The mentions in an expression, in the order of its code: what is called comes
after its arguments. -/
def Expr.mentions (p : Program) (locals : List String) : Expr → List Mention
  | .var name => p.hostMentions locals .load name
  | .number _ => []
  | .string value => [.literal value]
  | .array items => Expr.mentionsOf p locals items
  | .index base position => base.mentions p locals ++ position.mentions p locals
  | .call function args => Expr.mentionsOf p locals args ++ p.nativeMentions function args.length
  | .method object name args =>
    object.mentions p locals ++ Expr.mentionsOf p locals args ++ [.method name args.length]
  | .unary _ operand => operand.mentions p locals
  | .binary _ lhs rhs => lhs.mentions p locals ++ rhs.mentions p locals
termination_by structural expr => expr

/-- The mentions in expressions. -/
def Expr.mentionsOf (p : Program) (locals : List String) : List Expr → List Mention
  | [] => []
  | expr :: rest => expr.mentions p locals ++ Expr.mentionsOf p locals rest
termination_by structural exprs => exprs

end

/-- The mentions in storing into the left side of an assignment: what an element is in is read, and
stored to again after the position. -/
def Expr.storeMentions (p : Program) (locals : List String) : Expr → List Mention
  | .var name => p.hostMentions locals .store name
  | .index base position =>
    base.mentions p locals ++ position.mentions p locals ++ base.storeMentions p locals
  | _ => []

mutual

/-- The mentions in a statement, in the order of its code. -/
def Stmt.mentions (p : Program) (locals : List String) : Stmt → List Mention
  | .assign target value => value.mentions p locals ++ target.storeMentions p locals
  | .returnVoid | .breakLoop | .continueLoop => []
  | .returnValue value | .discard value => value.mentions p locals
  | .whileLoop condition body | .ifThen condition body =>
    condition.mentions p locals ++ body.mentions p locals
  | .forLoop name source body => source.mentions p locals ++ body.mentions p (name :: locals)
  | .ifElse condition body otherwise =>
    condition.mentions p locals ++ body.mentions p locals ++ otherwise.mentions p locals
  | .declare _ initial => initial.toList.flatMap (Expr.mentions p locals)
  | .block statements => Stmt.mentionsOf p locals statements
termination_by structural stmt => stmt

/-- The mentions in the statements of one scope. A name is declared for the statements
after its declaration. -/
def Stmt.mentionsOf (p : Program) (locals : List String) : List Stmt → List Mention
  | [] => []
  | stmt :: rest =>
    stmt.mentions p locals ++ Stmt.mentionsOf p (stmt.declared?.toList ++ locals) rest
termination_by structural statements => statements

end

/-- The mentions in a program: in the top-level code, whose direct declarations are script globals,
and then in the functions. -/
def Program.mentions (p : Program) : List Mention :=
  p.statements.flatMap (Stmt.mentions p []) ++ p.functions.flatMap fun f =>
    f.body.mentions p f.params.reverse

end Text

section Code

/-- Whether an instruction of a unit is a mention, by the string that the pool has for it. -/
inductive CodeUnit.Denotes (u : CodeUnit) : Instruction → Mention → Prop
  | literal {id : Nat} {text : String} (h : u.strings[id]? = some text) :
      Denotes u (.pushString id) (.literal text)
  | load {id : Nat} {name : String} (h : u.strings[id]? = some name) :
      Denotes u (.loadHost id) (.load name)
  | store {id : Nat} {name : String} (h : u.strings[id]? = some name) :
      Denotes u (.storeHost id) (.store name)
  | native {id argc : Nat} {name : String} (h : u.strings[id]? = some name) :
      Denotes u (.callNative id argc) (.native name argc)
  | method {id argc : Nat} {name : String} (h : u.strings[id]? = some name) :
      Denotes u (.callMethod id argc) (.method name argc)

/-- Whether an instruction uses a string. -/
def Instruction.usesString (i : Instruction) : Bool :=
  i.string?.isSome

/-- The mention that an instruction is, if it uses a string. -/
def Instruction.mention? (text : String) : Instruction → Option Mention
  | .pushString _ => some (.literal text)
  | .loadHost _ => some (.load text)
  | .storeHost _ => some (.store text)
  | .callNative _ argc => some (.native text argc)
  | .callMethod _ argc => some (.method text argc)
  | _ => none

/-- The number of its string does not matter for what an instruction is. -/
theorem Instruction.mention?_shape (text : String) (i : Instruction) :
    i.shape.mention? text = i.mention? text := by
  cases i <;> rfl

/-- An instruction that uses a string of the pool is the mention of that string. -/
theorem CodeUnit.exists_denotes {u : CodeUnit} {i : Instruction} {id : Nat} {text : String}
    (hstring : i.string? = some id) (hid : u.strings[id]? = some text) :
    ∃ m, i.mention? text = some m ∧ u.Denotes i m := by
  cases i with
  | pushString k => cases hstring; exact ⟨_, rfl, .literal hid⟩
  | loadHost k => cases hstring; exact ⟨_, rfl, .load hid⟩
  | storeHost k => cases hstring; exact ⟨_, rfl, .store hid⟩
  | callNative k argc => cases hstring; exact ⟨_, rfl, .native hid⟩
  | callMethod k argc => cases hstring; exact ⟨_, rfl, .method hid⟩
  | _ => cases hstring

namespace Op

/-- The mention that an operation is, if it has a string. -/
def mention? : Op → Option Mention
  | .plain _ _ => none
  | .named _ name instruction => (instruction 0).mention? name

/-- The mentions in code. -/
def mentions (ops : List Op) : List Mention :=
  ops.filterMap mention?

variable {ops more : List Op} {n : Nat} {i : Instruction} {name : String}
  {instruction : Nat → Instruction}

@[simp] theorem mentions_nil : mentions [] = [] := rfl

@[simp] theorem mentions_append : mentions (ops ++ more) = mentions ops ++ mentions more :=
  List.filterMap_append

@[simp] theorem mentions_plain : mentions (.plain n i :: ops) = mentions ops := rfl

theorem mentions_named {m : Mention} (h : (instruction 0).mention? name = some m) :
    mentions [.named n name instruction] = [m] :=
  List.filterMap_cons_some h

end Op

/-- The instruction that a regular operation has become uses a string exactly if the operation is a
mention, and is then that mention. -/
theorem CodeUnit.Has.denotes {u : CodeUnit} {pc : Nat} {op : Op} {i : Instruction} (h : u.Has pc op)
    (hop : op.Regular) (hcode : u.code[pc]? = some i) :
    i.usesString = false ∧ op.mention? = none ∨
      ∃ m, i.usesString ∧ op.mention? = some m ∧ u.Denotes i m := by
  cases op with
  | plain n j =>
    obtain rfl : j = i := Option.some.inj (Eq.trans (Eq.symm h) hcode)
    have hnone : j.string? = none := hop
    exact .inl ⟨by rw [Instruction.usesString, hnone]; rfl, rfl⟩
  | named n name j =>
    obtain ⟨id, hid, hat⟩ := h
    obtain rfl : j id = i := Option.some.inj (hat.symm.trans hcode)
    obtain ⟨hstring, -, hshape⟩ := hop id
    obtain ⟨m, hm, hdenotes⟩ := u.exists_denotes hstring hid
    refine .inr ⟨m, by rw [Instruction.usesString, hstring]; rfl, ?_, hdenotes⟩
    rw [Op.mention?, ← Instruction.mention?_shape, ← hshape, Instruction.mention?_shape, hm]

/-- The instructions that use strings in code that is in step with operations are the
mentions in these. -/
theorem CodeUnit.denotes_mentions {u : CodeUnit} {code : List Instruction} {ops : List Op}
    (h : List.Forall₂ (fun i op => ∃ pc : Nat, u.code[pc]? = some i ∧ u.Has pc op) code ops)
    (hops : ∀ op ∈ ops, op.Regular) :
    List.Forall₂ u.Denotes (code.filter Instruction.usesString) (Op.mentions ops) := by
  induction h with
  | nil => exact .nil
  | @cons i op code ops hhead _ ih =>
    obtain ⟨hop, hrest⟩ := List.forall_mem_cons.mp hops
    obtain ⟨pc, hcode, hhas⟩ := hhead
    obtain ⟨hnone, hplain⟩ | ⟨m, hsome, hm, hdenotes⟩ := hhas.denotes hop hcode
    · rw [List.filter_cons_of_neg (Bool.not_eq_true _ ▸ hnone), Op.mentions,
        List.filterMap_cons_none hplain]
      exact ih hrest
    · rw [List.filter_cons_of_pos hsome, Op.mentions, List.filterMap_cons_some hm]
      exact .cons hdenotes (ih hrest)

/-- The instructions of the unit of a bound program that use strings are the mentions in its
code. -/
theorem Bound.Program.denotes_toUnit (program : Bound.Program) :
    List.Forall₂ program.toUnit.Denotes (program.toUnit.code.toList.filter Instruction.usesString)
      (Op.mentions program.code) := by
  refine CodeUnit.denotes_mentions ?_ program.code_regular
  rw [List.forall₂_iff_get]
  refine ⟨program.size_code_toUnit, fun pc hcode hop => ⟨pc, ?_, ?_⟩⟩
  · rw [← Array.getElem?_toList, List.get_eq_getElem, List.getElem?_eq_getElem hcode]
  · have hhas := program.each_has_toUnit pc _ (List.getElem?_eq_getElem hop)
    rwa [Nat.zero_add] at hhas

end Code

section Exprs

variable {p : Program} {s : Signatures} {v : Visible} {c : Context}

/-- The names that open scopes have declared, the latest first. -/
def Context.locals (c : Context) : List String :=
  c.inner ++ c.outer

/-- A variable is bound to a place of the host exactly if it belongs to the host, and then to
that of its own name. -/
theorem Visible.Shows.place_host (h : v.Shows s c) (hglobals : s.HasGlobals p.globalNames)
    {name : String} {place : Place} (hplace : v.place s name = .ok place) :
    p.LeavesToHost c.locals name ∧ place = .host name ∨
      ¬p.LeavesToHost c.locals name ∧ ∀ other, place ≠ .host other := by
  have hlocal : (v.scopes.find? name).isSome ↔ name ∈ c.locals := by
    rw [Scopes.isSome_find?, h.inner, h.outer, Context.locals, List.mem_append]
  have hglobal : (∃ id, s.globals[name]? = some id) ↔ name ∈ p.globalNames := by
    rw [List.mem_iff_getElem?]
    exact exists_congr fun id => hglobals.id_iff name id
  unfold Visible.place at hplace
  split at hplace
  next slot hslot =>
    obtain rfl := Except.ok.inj hplace
    exact .inr ⟨fun hleft => hleft.1 (hlocal.mp (by rw [hslot]; rfl)),
      fun other hother => by cases hother⟩
  next hnone =>
    split at hplace
    next id hid =>
      refine .inr ⟨fun hleft => hleft.2 (hglobal.mp ⟨id, hid⟩), ?_⟩
      split at hplace
      · obtain rfl := Except.ok.inj hplace
        exact fun other hother => by cases hother
      · cases hplace
    next hother =>
      split at hplace
      · cases hplace
      · obtain rfl := Except.ok.inj hplace
        refine .inl ⟨⟨fun hmem => ?_, fun hmem => ?_⟩, rfl⟩
        · have hsome := hlocal.mpr hmem
          rw [hnone] at hsome
          cases hsome
        · obtain ⟨id, hid⟩ := hglobal.mpr hmem
          rw [hother] at hid
          cases hid

/-- The mention in a use of a place, if it is one of the host. -/
def Place.mentions (use : String → Mention) : Place → List Mention
  | .host name => [use name]
  | .slot _ | .script _ => []

theorem Place.mentions_loadOp (n : Nat) (place : Place) :
    Op.mentions [place.loadOp n] = place.mentions .load := by
  cases place <;> rfl

theorem Place.mentions_storeOp (n : Nat) (place : Place) :
    Op.mentions [place.storeOp n] = place.mentions .store := by
  cases place <;> rfl

theorem Place.mentions_eq_nil {place : Place} (h : ∀ name, place ≠ .host name)
    (use : String → Mention) : place.mentions use = [] := by
  cases place with
  | slot k => rfl
  | script id => rfl
  | host name => exact absurd rfl (h name)

/-- A use of the place of a variable mentions the variable if it belongs to the host. -/
theorem Visible.Shows.mentions_place (h : v.Shows s c) (hglobals : s.HasGlobals p.globalNames)
    {name : String} {place : Place} (hplace : v.place s name = .ok place) (use : String → Mention) :
    place.mentions use = p.hostMentions c.locals use name := by
  obtain ⟨hhost, rfl⟩ | ⟨hown, hne⟩ := h.place_host hglobals hplace
  · rw [Program.hostMentions, if_pos hhost, Place.mentions]
  · rw [Program.hostMentions, if_neg hown, Place.mentions_eq_nil hne]

/-- The table has the names of the functions of the program. -/
theorem Signatures.HasFunctions.mem_names_iff (h : s.HasFunctions p.functions) (name : String) :
    name ∈ p.functions.map (·.name) ↔ ∃ signature, s.functions[name]? = some signature := by
  constructor
  · intro hname
    obtain ⟨f, hf, rfl⟩ := List.mem_map.mp hname
    obtain ⟨id, hid⟩ := List.mem_iff_getElem?.mp hf
    exact ⟨⟨id, f.params.length⟩, (h f.name ⟨id, f.params.length⟩).mpr ⟨f, hid, rfl, rfl⟩⟩
  · rintro ⟨signature, hsignature⟩
    obtain ⟨f, hf, rfl, -⟩ := (h name signature).mp hsignature
    exact List.mem_map.mpr ⟨f, List.mem_of_getElem? hf, rfl⟩

mutual

/-- The code of an expression has the mentions of its text. -/
theorem bindExpr_mentions (hfunctions : s.HasFunctions p.functions)
    (hglobals : s.HasGlobals p.globalNames) (h : v.Shows s c) :
    (x : Expr) → (b : Bound.Expr) → bindExpr s v x = .ok b →
      ∀ start n, Op.mentions (b.code start n) = x.mentions p c.locals
  | .var name, _, hbind => by
    obtain ⟨place, hplace, rfl⟩ := bindExpr_var.mp hbind
    intro start n
    rw [Bound.Expr.code, Place.mentions_loadOp, h.mentions_place hglobals hplace, Expr.mentions]
  | .number value, _, hbind => by
    obtain rfl := bindExpr_number.mp hbind
    intro start n
    rfl
  | .string value, _, hbind => by
    obtain rfl := bindExpr_string.mp hbind
    intro start n
    rfl
  | .array items, _, hbind => by
    obtain ⟨-, bs, hitems, rfl⟩ := bindExpr_array.mp hbind
    intro start n
    rw [Bound.Expr.code, Op.mentions_append,
      bindExprs_mentions hfunctions hglobals h items bs hitems,
      Op.mentions_plain, Op.mentions_nil, List.append_nil, Expr.mentions]
  | .index base position, _, hbind => by
    obtain ⟨b₁, b₂, hbase, hposition, rfl⟩ := bindExpr_index.mp hbind
    intro start n
    rw [Bound.Expr.code, Op.mentions_append, Op.mentions_append,
      bindExpr_mentions hfunctions hglobals h base b₁ hbase,
      bindExpr_mentions hfunctions hglobals h position b₂ hposition, Op.mentions_plain,
      Op.mentions_nil, List.append_nil, Expr.mentions]
  | .call function args, _, hbind => by
    cases hfunction : s.functions[function]? with
    | some signature =>
      obtain ⟨-, -, bs, hargs, rfl⟩ := (bindExpr_call_script hfunction).mp hbind
      have hname := (hfunctions.mem_names_iff function).mpr ⟨signature, hfunction⟩
      intro start n
      rw [Bound.Expr.code, Op.mentions_append,
        bindExprs_mentions hfunctions hglobals h args bs hargs,
        Op.mentions_plain, Op.mentions_nil, Expr.mentions, Program.nativeMentions, if_pos hname]
    | none =>
      obtain ⟨-, bs, hargs, rfl⟩ := (bindExpr_call_native hfunction).mp hbind
      have hlength := length_bindExprs hargs
      have hname : function ∉ p.functions.map (·.name) := by
        rw [hfunctions.mem_names_iff, hfunction]
        rintro ⟨signature, hsignature⟩
        cases hsignature
      intro start n
      rw [Bound.Expr.code, Op.mentions_append,
        bindExprs_mentions hfunctions hglobals h args bs hargs,
        Op.mentions_named rfl, Expr.mentions, Program.nativeMentions, if_neg hname, hlength]
  | .method object name args, _, hbind => by
    obtain ⟨b₁, hobject, -, bs, hargs, rfl⟩ := bindExpr_method.mp hbind
    have hlength := length_bindExprs hargs
    intro start n
    rw [Bound.Expr.code, Op.mentions_append, Op.mentions_append,
      bindExpr_mentions hfunctions hglobals h object b₁ hobject,
      bindExprs_mentions hfunctions hglobals h args bs hargs, Op.mentions_named rfl,
      Expr.mentions, hlength]
  | .unary op operand, _, hbind => by
    obtain ⟨b₁, hoperand, rfl⟩ := bindExpr_unary.mp hbind
    intro start n
    rw [Bound.Expr.code, Op.mentions_append,
      bindExpr_mentions hfunctions hglobals h operand b₁ hoperand,
      Op.mentions_plain, Op.mentions_nil, List.append_nil, Expr.mentions]
  | .binary op lhs rhs, _, hbind => by
    obtain ⟨b₁, b₂, hlhs, hrhs, rfl⟩ := bindExpr_binary.mp hbind
    have hleft := bindExpr_mentions hfunctions hglobals h lhs b₁ hlhs
    have hright := bindExpr_mentions hfunctions hglobals h rhs b₂ hrhs
    intro start n
    rw [Expr.mentions]
    split <;> simp only [Bound.Expr.code, Op.mentions_append, Op.mentions_plain, Op.mentions_nil,
      List.append_nil, hleft, hright]
termination_by structural x => x

/-- The code of expressions has the mentions of their text. -/
theorem bindExprs_mentions (hfunctions : s.HasFunctions p.functions)
    (hglobals : s.HasGlobals p.globalNames) (h : v.Shows s c) :
    (xs : List Expr) → (bs : List Bound.Expr) → bindExprs s v [] xs = .ok bs →
      ∀ start n, Op.mentions (Bound.Expr.codes start n bs) = Expr.mentionsOf p c.locals xs
  | [], _, hbind => by
    obtain rfl := bindExprs_nil.mp hbind
    intro start n
    rfl
  | x :: xs, _, hbind => by
    obtain ⟨b, bs, hx, hxs, rfl⟩ := bindExprs_cons.mp hbind
    intro start n
    rw [Bound.Expr.codes, Op.mentions_append, bindExpr_mentions hfunctions hglobals h x b hx,
      bindExprs_mentions hfunctions hglobals h xs bs hxs, Expr.mentionsOf]
termination_by structural xs => xs

end

/-- The code that stores into the left side of an assignment has the mentions of its text. -/
theorem bindTarget_mentions (hfunctions : s.HasFunctions p.functions)
    (hglobals : s.HasGlobals p.globalNames) (h : v.Shows s c) :
    (x : Expr) → (t : Bound.Target) → bindTarget s v x = .ok t →
      ∀ start n, Op.mentions (t.code start n) = x.storeMentions p c.locals
  | .var name, _, hbind => by
    obtain ⟨place, hplace, rfl⟩ := bindTarget_var.mp hbind
    intro start n
    rw [Bound.Target.code, Place.mentions_storeOp, h.mentions_place hglobals hplace,
      Expr.storeMentions]
  | .index base position, _, hbind => by
    obtain ⟨t, b, hbase, hposition, rfl⟩ := bindTarget_index.mp hbind
    intro start n
    simp only [Bound.Target.code, Expr.storeMentions,
      Op.mentions_append, Op.mentions_plain, Op.mentions_nil,
      List.append_nil, bindExpr_mentions hfunctions hglobals h base t.read (bindTarget_read hbase),
      bindExpr_mentions hfunctions hglobals h position b hposition,
      bindTarget_mentions hfunctions hglobals h base t hbase]

theorem bindInitial_mentions (hfunctions : s.HasFunctions p.functions)
    (hglobals : s.HasGlobals p.globalNames) (h : v.Shows s c) {initial : Option Expr}
    {b : Bound.Expr} (hbind : bindInitial s v initial = .ok b) (start n : Nat) :
    Op.mentions (b.code start n) = initial.toList.flatMap (Expr.mentions p c.locals) := by
  cases initial with
  | none =>
    obtain rfl := Except.ok.inj hbind
    rfl
  | some value =>
    rw [Option.toList_some, List.flatMap_singleton]
    exact bindExpr_mentions hfunctions hglobals h value b hbind start n

end Exprs

section Stmts

variable {p : Program} {around : Surroundings}

theorem Context.locals_enter (c : Context) : c.enter.locals = c.locals := rfl

theorem Context.locals_forHeader (c : Context) (name : String) :
    (c.forHeader name).locals = name :: c.locals := rfl

theorem Context.locals_announce (c : Context) (names : List String) :
    (c.announce names).locals = c.locals := rfl

theorem Context.locals_after (c : Context) (stmt : Stmt) :
    (c.after stmt).locals = stmt.declared?.toList ++ c.locals := by
  unfold Context.after
  cases stmt.declared? <;> rfl

theorem Context.locals_declareAll (c : Context) (names : List String) :
    (c.declareAll names).locals = names.reverse ++ c.locals := by
  induction names generalizing c with
  | nil => rfl
  | cons name rest ih =>
    rw [List.reverse_cons, List.append_assoc]
    exact ih (c.declare name)

/-- Script globals are no locals. -/
theorem Context.locals_afterTop (c : Context) (stmt : Stmt) :
    (c.afterTop stmt).locals = c.locals := by
  unfold Context.afterTop
  cases stmt.declared? <;> rfl

mutual

/-- The code of a statement has the mentions of its text. -/
theorem bindStmt_mentions (hfunctions : around.signatures.HasFunctions p.functions)
    (hglobals : around.signatures.HasGlobals p.globalNames) (inLoop : Bool) (v v' : Visible)
    (c : Context) (h : v.Shows around.signatures c) : (stmt : Stmt) → (b : Bound.Stmt) →
      bindStmt around inLoop v stmt = .ok (b, v') →
      (∀ name ∈ stmt.declared?, around.global? v name = none) →
      ∀ exits start, Op.mentions (b.code exits start) = stmt.mentions p c.locals
  | .assign target value, _, hbind, _ => by
    obtain ⟨-, b, t, hvalue, htarget, hr⟩ := bindStmt_assign.mp hbind
    obtain ⟨rfl, -⟩ := Prod.mk.inj hr
    intro exits start
    rw [Bound.Stmt.code, Op.mentions_append, bindExpr_mentions hfunctions hglobals h value b hvalue,
      bindTarget_mentions hfunctions hglobals h target t htarget, Stmt.mentions]
  | .returnVoid, _, hbind, _ => by
    obtain ⟨rfl, -⟩ := Prod.mk.inj (bindStmt_returnVoid.mp hbind)
    intro exits start
    rfl
  | .returnValue value, _, hbind, _ => by
    obtain ⟨b, hvalue, hr⟩ := bindStmt_returnValue.mp hbind
    obtain ⟨rfl, -⟩ := Prod.mk.inj hr
    intro exits start
    rw [Bound.Stmt.code, Op.mentions_append, bindExpr_mentions hfunctions hglobals h value b hvalue,
      Op.mentions_plain, Op.mentions_nil, List.append_nil, Stmt.mentions]
  | .discard value, _, hbind, _ => by
    obtain ⟨b, hvalue, hr⟩ := bindStmt_discard.mp hbind
    obtain ⟨rfl, -⟩ := Prod.mk.inj hr
    intro exits start
    rw [Bound.Stmt.code, Op.mentions_append, bindExpr_mentions hfunctions hglobals h value b hvalue,
      Op.mentions_plain, Op.mentions_nil, List.append_nil, Stmt.mentions]
  | .whileLoop condition body, _, hbind, _ => by
    obtain ⟨b₁, b₂, v₂, hcondition, hbody, hr⟩ := bindStmt_whileLoop.mp hbind
    obtain ⟨rfl, -⟩ := Prod.mk.inj hr
    have hfirst := bindExpr_mentions hfunctions hglobals h condition b₁ hcondition
    have hinner := bindStmt_mentions hfunctions hglobals true v.enter v₂ c.enter h.enter body b₂
      hbody (fun name _ => global?_enter around v name)
    intro exits start
    simp only [Bound.Stmt.code, Stmt.mentions, Op.mentions_append, Op.mentions_plain,
      Op.mentions_nil, List.append_nil, hfirst, hinner, Context.locals_enter]
  | .forLoop name source body, _, hbind, _ => by
    obtain ⟨b₁, b₂, v₂, hsource, -, hbody, hr⟩ := bindStmt_forLoop.mp hbind
    obtain ⟨rfl, -⟩ := Prod.mk.inj hr
    have hfirst := bindExpr_mentions hfunctions hglobals h source b₁ hsource
    have hinner := bindStmt_mentions hfunctions hglobals true (v.forHeader name).enter v₂ _
      (h.forHeader name).enter body b₂ hbody (fun other _ => global?_enter around _ other)
    intro exits start
    simp only [Bound.Stmt.code, Stmt.mentions, Op.mentions_append, Op.mentions_plain,
      Op.mentions_nil, List.append_nil, hfirst, hinner, Context.locals_enter,
      Context.locals_forHeader]
  | .ifThen condition body, _, hbind, _ => by
    obtain ⟨b₁, b₂, v₂, hcondition, hbody, hr⟩ := bindStmt_ifThen.mp hbind
    obtain ⟨rfl, -⟩ := Prod.mk.inj hr
    have hfirst := bindExpr_mentions hfunctions hglobals h condition b₁ hcondition
    have hinner := bindStmt_mentions hfunctions hglobals inLoop v.enter v₂ c.enter h.enter body b₂
      hbody (fun name _ => global?_enter around v name)
    intro exits start
    simp only [Bound.Stmt.code, Stmt.mentions, Op.mentions_append, Op.mentions_plain,
      Op.mentions_nil, List.append_nil, hfirst, hinner, Context.locals_enter]
  | .ifElse condition body otherwise, _, hbind, _ => by
    obtain ⟨b₁, b₂, v₂, b₃, v₃, hcondition, hbody, hotherwise, hr⟩ := bindStmt_ifElse.mp hbind
    obtain ⟨rfl, -⟩ := Prod.mk.inj hr
    have hfirst := bindExpr_mentions hfunctions hglobals h condition b₁ hcondition
    have hleft := h.rises (bindStmt_proceeds around inLoop v.enter v₂ body b₂ hbody).rises_leave
    have hthen := bindStmt_mentions hfunctions hglobals inLoop v.enter v₂ c.enter h.enter body b₂
      hbody (fun name _ => global?_enter around v name)
    have helse := bindStmt_mentions hfunctions hglobals inLoop v₂.leave.enter v₃ c.enter hleft.enter
      otherwise b₃ hotherwise (fun name _ => global?_enter around v₂.leave name)
    intro exits start
    simp only [Bound.Stmt.code, Stmt.mentions, Op.mentions_append, Op.mentions_plain,
      Op.mentions_nil, List.append_nil, hfirst, hthen, helse, Context.locals_enter]
  | .declare name initial, _, hbind, hlocal => by
    rw [bindStmt_declare] at hbind
    obtain ⟨b, hinitial, -, -, hr⟩ := (bindDeclaration_local (hlocal name rfl)).mp hbind
    obtain ⟨rfl, -⟩ := Prod.mk.inj hr
    intro exits start
    rw [Bound.Stmt.code, Op.mentions_append,
      bindInitial_mentions hfunctions hglobals (h.announce name) hinitial,
      Context.locals_announce, Stmt.mentions]
    exact List.append_nil _
  | .block statements, _, hbind, _ => by
    obtain ⟨bs, v₂, hbody, hr⟩ := bindStmt_block.mp hbind
    obtain ⟨rfl, -⟩ := Prod.mk.inj hr
    intro exits start
    rw [Bound.Stmt.code, Stmt.mentions]
    exact bindStmts_mentions hfunctions hglobals inLoop _ v₂ _ (h.enter.announceAll statements)
      statements bs hbody (global?_block around v statements) exits start
  | .breakLoop, _, hbind, _ => by
    obtain ⟨-, hr⟩ := bindStmt_breakLoop.mp hbind
    obtain ⟨rfl, -⟩ := Prod.mk.inj hr
    intro exits start
    rfl
  | .continueLoop, _, hbind, _ => by
    obtain ⟨-, hr⟩ := bindStmt_continueLoop.mp hbind
    obtain ⟨rfl, -⟩ := Prod.mk.inj hr
    intro exits start
    rfl
termination_by structural stmt => stmt

/-- The code of the statements of one scope has the mentions of their text. -/
theorem bindStmts_mentions (hfunctions : around.signatures.HasFunctions p.functions)
    (hglobals : around.signatures.HasGlobals p.globalNames) (inLoop : Bool) (v v' : Visible)
    (c : Context) (h : v.Shows around.signatures c) :
    (statements : List Stmt) → (bs : List Bound.Stmt) →
      bindStmts around inLoop [] v statements = .ok (bs, v') →
      (∀ name, around.global? v name = none) →
      ∀ exits start, Op.mentions (Bound.Stmt.codes exits start bs) =
        Stmt.mentionsOf p c.locals statements
  | [], _, hbind, _ => by
    obtain ⟨rfl, -⟩ := Prod.mk.inj (bindStmts_nil.mp hbind)
    intro exits start
    rfl
  | stmt :: rest, _, hbind, hlocal => by
    obtain ⟨b, v₁, bs, v₂, hstmt, hrest, hr⟩ := bindStmts_cons.mp hbind
    obtain ⟨rfl, -⟩ := Prod.mk.inj hr
    have hproceeds := bindStmt_proceeds around inLoop v v₁ stmt b hstmt
    have hfirst := bindStmt_mentions hfunctions hglobals inLoop v v₁ c h stmt b hstmt
      (fun name _ => hlocal name)
    have hothers := bindStmts_mentions hfunctions hglobals inLoop v₁ v₂ (c.after stmt)
      (h.after (fun name _ => hlocal name) hstmt) rest bs hrest
      (fun name => (global?_proceeds hproceeds name).trans (hlocal name))
    intro exits start
    rw [Bound.Stmt.codes, Op.mentions_append, hfirst, hothers, Context.locals_after,
      Stmt.mentionsOf]
termination_by structural statements => statements

end

end Stmts

section Programs

variable {p : Program} {s : Signatures}

/-- The code of a top-level statement has the mentions of its text, also if it
declares a script global. -/
theorem bindStmt_topMentions (hfunctions : s.HasFunctions p.functions)
    (hglobals : s.HasGlobals p.globalNames) {v v' : Visible} {c : Context} {done rest : List String}
    {stmt : Stmt} {b : Bound.Stmt} (h : v.Shows s c)
    (hdone : p.globalNames = done ++ (stmt.declared?.toList ++ rest)) (houter : v.scopes.outer = [])
    (hbind : bindStmt { signatures := s, topLevel := true } false v stmt = .ok (b, v'))
    (exits : Exits) (start : Nat) :
    Op.mentions (b.code exits start) = stmt.mentions p c.locals := by
  cases hdeclared : stmt.declared? with
  | none =>
    exact bindStmt_mentions hfunctions hglobals false v v' c h stmt b
      hbind (by simp [hdeclared]) exits start
  | some name =>
    obtain ⟨initial, rfl⟩ := Stmt.eq_declare hdeclared
    rw [hdeclared, Option.toList_some, List.singleton_append] at hdone
    rw [bindStmt_declare] at hbind
    obtain ⟨value, hvalue, hr⟩ :=
      (bindDeclaration_global (global?_top (hdone ▸ hglobals) houter)).mp hbind
    obtain ⟨rfl, -⟩ := Prod.mk.inj hr
    rw [Bound.Stmt.code, Op.mentions_append, bindInitial_mentions hfunctions hglobals h hvalue,
      Stmt.mentions]
    exact List.append_nil _

/-- The code of top-level statements has the mentions of their text. No local is
declared between them. -/
theorem bindStmts_topMentions (hfunctions : s.HasFunctions p.functions)
    (hglobals : s.HasGlobals p.globalNames) {v v' : Visible} {c : Context} (done : List String)
    {statements : List Stmt} {bs : List Bound.Stmt}
    (h : v.Shows s c) (hdone : p.globalNames = done ++ declaredNames statements)
    (hreached : v.reached = done.length) (houter : v.scopes.outer = [])
    (hbind : bindStmts { signatures := s, topLevel := true } false [] v statements = .ok (bs, v'))
    (exits : Exits) (start : Nat) :
    Op.mentions (Bound.Stmt.codes exits start bs) =
      statements.flatMap (Stmt.mentions p c.locals) := by
  induction statements generalizing v c done bs start with
  | nil =>
    obtain ⟨rfl, -⟩ := Prod.mk.inj (bindStmts_nil.mp hbind)
    rfl
  | cons stmt rest ih =>
    obtain ⟨b, v₁, bs, v₂, hstmt, hrest, hr⟩ := bindStmts_cons.mp hbind
    obtain ⟨rfl, rfl⟩ := Prod.mk.inj hr
    obtain ⟨hshows, hreached', houter'⟩ := h.afterTop (hdone ▸ hglobals) hreached houter hstmt
    rw [declaredNames_cons] at hdone
    have hfirst := bindStmt_topMentions hfunctions hglobals h hdone houter hstmt exits start
    rw [← List.append_assoc] at hdone
    have hothers := ih _ hshows hdone hreached' houter' hrest (start + b.size)
    rw [Bound.Stmt.codes, Op.mentions_append, hfirst, hothers, Context.locals_afterTop,
      List.flatMap_cons]

/-- The return that ends a body mentions nothing. -/
theorem Bound.Body.mentions_code {start : Nat} {b : Bound.Body} {mentions : List Mention}
    (h : ∀ exits, Op.mentions (Bound.Stmt.codes exits start b.statements) = mentions) :
    Op.mentions (b.code start) = mentions := by
  rw [Bound.Body.code, Op.mentions_append, h]
  exact List.append_nil _

/-- The code of a function has the mentions of its text. -/
theorem bindFunction_mentions (hfunctions : s.HasFunctions p.functions)
    (hglobals : s.HasGlobals p.globalNames)
    {f : FunctionDecl} {b : Bound.Body} (hbind : bindFunction s f = .ok b) (start : Nat) :
    Op.mentions (b.code start) = f.body.mentions p f.params.reverse := by
  obtain ⟨v₁, bs, v₂, hparams, hbody, rfl⟩ :=
    bindBody_eq_ok_iff.mp (bindFunction_eq_ok_iff.mp hbind)
  have hstart := (shows_function hglobals).params hparams
  have hlocals : (p.functionContext.declareAll f.params).locals = f.params.reverse := by
    rw [Context.locals_declareAll]
    exact List.append_nil _
  refine Bound.Body.mentions_code fun exits => ?_
  rw [bindStmts_mentions hfunctions hglobals false v₁ v₂ _ hstart [f.body] bs hbody (fun _ => rfl),
    hlocals, Stmt.mentionsOf, Stmt.mentionsOf, List.append_nil]

/-- The code of functions has the mentions of their text. -/
theorem bindFunctions_mentions (hfunctions : s.HasFunctions p.functions)
    (hglobals : s.HasGlobals p.globalNames) {fs : List FunctionDecl} {bs : List Bound.Body}
    (hbind : List.Forall₂ (fun f b => bindFunction s f = .ok b) fs bs) (start : Nat) :
    Op.mentions (Bound.Body.codes start bs) =
      fs.flatMap fun f => f.body.mentions p f.params.reverse := by
  induction hbind generalizing start with
  | nil => rfl
  | @cons f b fs bs hf _ ih =>
    rw [Bound.Body.codes, Op.mentions_append, bindFunction_mentions hfunctions hglobals hf, ih,
      List.flatMap_cons]

/-- The code of a program has the mentions of its text. -/
theorem bind_mentions {program : Bound.Program} (hbind : p.bind = .ok program) :
    Op.mentions program.code = p.mentions := by
  obtain ⟨s, top, functions, hs, htop, hbodies, rfl⟩ := bind_program_eq_ok_iff.mp hbind
  obtain ⟨hfunctions, hglobals⟩ := Signatures.ofProgram_table hs
  obtain ⟨v₁, bs, v₂, hparams, hbody, rfl⟩ := bindBody_eq_ok_iff.mp (bindTopLevel_eq_ok_iff.mp htop)
  obtain rfl := bindParams_nil.mp hparams
  have hstart : Visible.Shows s {} {} := shows_start (by simp)
  rw [Bound.Program.code, Op.mentions_append, Program.mentions,
    bindFunctions_mentions hfunctions hglobals (bindFunctions_eq_ok_iff.mp hbodies)]
  congr 1
  exact Bound.Body.mentions_code fun exits =>
    bindStmts_topMentions hfunctions hglobals [] hstart rfl rfl rfl hbody exits 0

/-- The pool of a compiled unit holds each string once and none without a use, and numbers them in
the order of their first use. Its instructions that use strings are the mentions of the program, one
by one, each with the string that is in the text. -/
theorem compile_pool_canonical {u : CodeUnit} (h : compile p = .ok u) :
    u.CanonicalPool ∧ List.Forall₂ u.Denotes (u.code.toList.filter Instruction.usesString)
      p.mentions := by
  obtain ⟨program, hbind, rfl⟩ := compile_eq_ok_iff.mp h
  refine ⟨program.canonicalPool_toUnit, ?_⟩
  rw [← bind_mentions hbind]
  exact program.denotes_toUnit

/-- A program in which `total` is a literal and a script global, `board` a literal, a variable of
the host and a parameter, and `count` a literal and a method. -/
def boardProgram : Program where
  functions :=
    [{ name := "show"
       params := ["board"]
       body := .discard (.call "print" [.var "board", .string "board"]) }]
  statements :=
    [.declare "total" (some (.string "total")),
     .assign (.index (.var "board") (.string "total"))
       (.method (.var "board") "count" [.string "count"]),
     .discard (.call "print" [.var "total", .call "show" [.var "board"]])]

/-- Its unit has four strings for eleven mentions. -/
theorem boardProgram_pool_canonical :
    ∃ u, compile boardProgram = .ok u ∧ u.strings.toList = ["total", "board", "count", "print"] ∧
      u.code.toList.filterMap Instruction.string? = [0, 1, 2, 2, 1, 0, 1, 1, 3, 1, 3] ∧
      boardProgram.mentions =
        [.literal "total", .load "board", .literal "count", .method "count" 1, .load "board",
          .literal "total", .store "board", .load "board", .native "print" 2, .literal "board",
          .native "print" 2] ∧
      u.CanonicalPool ∧
      List.Forall₂ u.Denotes (u.code.toList.filter Instruction.usesString)
        boardProgram.mentions := by
  have hparts : ((compile boardProgram).toOption.map fun u =>
      (u.strings.toList, u.code.toList.filterMap Instruction.string?)) =
        some (["total", "board", "count", "print"], [0, 1, 2, 2, 1, 0, 1, 1, 3, 1, 3]) := by
    decide +kernel
  obtain ⟨u, hu, hparts⟩ := exists_compile_eq_ok hparts
  obtain ⟨hstrings, hnumbers⟩ := Prod.mk.inj hparts
  obtain ⟨hcanonical, hdenotes⟩ := compile_pool_canonical hu
  exact ⟨u, hu, hstrings, hnumbers, by decide +kernel, hcanonical, hdenotes⟩

end Programs

end HostScript
