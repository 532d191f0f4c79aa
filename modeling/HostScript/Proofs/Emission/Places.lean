import HostScript.Proofs.Emission.Each

/-!
# Places in code

The places in a bound tree, in the order in which they were bound. The code of the tree loads or
stores each of them.
-/

namespace HostScript

namespace Bound

mutual

/-- The places in an expression, in the order in which they are read. -/
def Expr.places : Expr → List Place
  | .void | .number _ | .string _ => []
  | .load place => [place]
  | .index base position => base.places ++ position.places
  | .array items | .callScript _ items | .callNative _ items => Expr.placesOf items
  | .callMethod object _ args => object.places ++ Expr.placesOf args
  | .unary _ operand => operand.places
  | .strict _ lhs rhs | .connect _ lhs rhs => lhs.places ++ rhs.places
termination_by structural expr => expr

/-- The places in some expressions. -/
def Expr.placesOf : List Expr → List Place
  | [] => []
  | expr :: rest => expr.places ++ Expr.placesOf rest
termination_by structural exprs => exprs

end

/-- The places in a target, the one that is stored to first. -/
def Target.places : Target → List Place
  | .place p => [p]
  | .element base position => base.places ++ position.places

mutual

/-- The places in a statement, in the order in which they were bound. -/
def Stmt.places : Stmt → List Place
  | .store target value => value.places ++ target.places
  | .returnVoid | .breakLoop | .continueLoop => []
  | .returnValue value | .discard value => value.places
  | .whileLoop condition body | .ifThen condition body => condition.places ++ body.places
  | .forLoop _ _ item source body => source.places ++ .slot item :: body.places
  | .ifElse condition body otherwise => condition.places ++ body.places ++ otherwise.places
  | .block statements => Stmt.placesOf statements
termination_by structural stmt => stmt

/-- The places in some statements. -/
def Stmt.placesOf : List Stmt → List Place
  | [] => []
  | stmt :: rest => stmt.places ++ Stmt.placesOf rest
termination_by structural statements => statements

end

/-- The places in a program: in the top-level code, then in the functions. -/
def Program.places (program : Program) : List Place :=
  Stmt.placesOf program.top.statements ++ program.functions.flatMap fun body =>
    Stmt.placesOf body.statements

end Bound

/-- Whether code of which a property holds loads or stores a place. -/
def Place.UsedBy (P : Nat → Op → Prop) (p : Place) : Prop :=
  ∃ pc n, P pc (p.loadOp n) ∨ P pc (p.storeOp n)

namespace Bound

variable {P : Nat → Op → Prop}

mutual

/-- The code of an expression loads every place in it. -/
theorem Expr.usedBy_of_mem_places :
    (x : Expr) → (start n : Nat) → Op.Each P start (x.code start n) →
    ∀ p ∈ x.places, p.UsedBy P
  | .void, _, _, _ => nofun
  | .number _, _, _, _ => nofun
  | .string _, _, _, _ => nofun
  | .load p, start, n, h => List.forall_mem_singleton.mpr ⟨start, n, .inl (Expr.each_load.mp h)⟩
  | .index base position, start, n, h => by
    obtain ⟨hbase, hposition, -⟩ := Expr.each_index.mp h
    exact List.forall_mem_append.mpr
      ⟨Expr.usedBy_of_mem_places base _ _ hbase, Expr.usedBy_of_mem_places position _ _ hposition⟩
  | .array items, start, n, h => Expr.usedBy_of_mem_placesOf items start n (Expr.each_array.mp h).1
  | .callScript _ args, start, n, h =>
    Expr.usedBy_of_mem_placesOf args start n (Expr.each_callScript.mp h).1
  | .callNative _ args, start, n, h =>
    Expr.usedBy_of_mem_placesOf args start n (Expr.each_callNative.mp h).1
  | .callMethod object _ args, start, n, h => by
    obtain ⟨hobject, hargs, -⟩ := Expr.each_callMethod.mp h
    exact List.forall_mem_append.mpr
      ⟨Expr.usedBy_of_mem_places object _ _ hobject, Expr.usedBy_of_mem_placesOf args _ _ hargs⟩
  | .unary _ operand, start, n, h =>
    Expr.usedBy_of_mem_places operand start n (Expr.each_unary.mp h).1
  | .strict _ lhs rhs, start, n, h => by
    obtain ⟨hlhs, hrhs, -⟩ := Expr.each_strict.mp h
    exact List.forall_mem_append.mpr
      ⟨Expr.usedBy_of_mem_places lhs _ _ hlhs, Expr.usedBy_of_mem_places rhs _ _ hrhs⟩
  | .connect _ lhs rhs, start, n, h => by
    obtain ⟨hlhs, -, hrhs, -⟩ := Expr.each_connect.mp h
    exact List.forall_mem_append.mpr
      ⟨Expr.usedBy_of_mem_places lhs _ _ hlhs, Expr.usedBy_of_mem_places rhs _ _ hrhs⟩
termination_by structural x => x

/-- The code of expressions loads every place in them. -/
theorem Expr.usedBy_of_mem_placesOf :
    (xs : List Expr) → (start n : Nat) → Op.Each P start (Expr.codes start n xs) →
    ∀ p ∈ Expr.placesOf xs, p.UsedBy P
  | [], _, _, _ => nofun
  | x :: xs, start, n, h => by
    obtain ⟨hx, hxs⟩ := Expr.each_codes_cons.mp h
    exact List.forall_mem_append.mpr
      ⟨Expr.usedBy_of_mem_places x _ _ hx, Expr.usedBy_of_mem_placesOf xs _ _ hxs⟩
termination_by structural xs => xs

end

/-- The code of a target loads or stores every place in it. -/
theorem Target.usedBy_of_mem_places :
    (t : Target) → (start n : Nat) → Op.Each P start (t.code start n) →
    ∀ p ∈ t.places, p.UsedBy P
  | .place p, start, n, h =>
    List.forall_mem_singleton.mpr ⟨start, n + 1, .inr (Target.each_place.mp h)⟩
  | .element base position, start, n, h => by
    obtain ⟨-, hposition, -, hbase⟩ := Target.each_element.mp h
    exact List.forall_mem_append.mpr
      ⟨Target.usedBy_of_mem_places base _ _ hbase, Expr.usedBy_of_mem_places position _ _ hposition⟩

mutual

/-- The code of a statement loads or stores every place in it. -/
theorem Stmt.usedBy_of_mem_places : (stmt : Stmt) → (exits : Exits) → (start : Nat) →
    Op.Each P start (stmt.code exits start) → ∀ p ∈ stmt.places, p.UsedBy P
  | .store target value, exits, start, h => by
    obtain ⟨hvalue, htarget⟩ := Stmt.each_store.mp h
    exact List.forall_mem_append.mpr
      ⟨value.usedBy_of_mem_places _ _ hvalue, target.usedBy_of_mem_places _ _ htarget⟩
  | .returnVoid, _, _, _ => nofun
  | .breakLoop, _, _, _ => nofun
  | .continueLoop, _, _, _ => nofun
  | .returnValue value, exits, start, h =>
    value.usedBy_of_mem_places _ _ (Stmt.each_returnValue.mp h).1
  | .discard value, exits, start, h => value.usedBy_of_mem_places _ _ (Stmt.each_discard.mp h).1
  | .whileLoop condition body, exits, start, h => by
    obtain ⟨hcondition, -, hbody, -⟩ := Stmt.each_whileLoop.mp h
    exact List.forall_mem_append.mpr
      ⟨condition.usedBy_of_mem_places _ _ hcondition, Stmt.usedBy_of_mem_places body _ _ hbody⟩
  | .forLoop array cursor item source body, exits, start, h => by
    obtain ⟨hsource, -, -, -, -, hitem, hbody, -⟩ := Stmt.each_forLoop.mp h
    exact List.forall_mem_append.mpr ⟨source.usedBy_of_mem_places _ _ hsource,
      List.forall_mem_cons.mpr ⟨⟨_, 1, .inr hitem⟩, Stmt.usedBy_of_mem_places body _ _ hbody⟩⟩
  | .ifThen condition body, exits, start, h => by
    obtain ⟨hcondition, -, hbody⟩ := Stmt.each_ifThen.mp h
    exact List.forall_mem_append.mpr
      ⟨condition.usedBy_of_mem_places _ _ hcondition, Stmt.usedBy_of_mem_places body _ _ hbody⟩
  | .ifElse condition body otherwise, exits, start, h => by
    obtain ⟨hcondition, -, hbody, -, hotherwise⟩ := Stmt.each_ifElse.mp h
    exact List.forall_mem_append.mpr ⟨List.forall_mem_append.mpr
      ⟨condition.usedBy_of_mem_places _ _ hcondition, Stmt.usedBy_of_mem_places body _ _ hbody⟩,
      Stmt.usedBy_of_mem_places otherwise _ _ hotherwise⟩
  | .block statements, exits, start, h =>
    Stmt.usedBy_of_mem_placesOf statements _ _ (Stmt.each_block.mp h)
termination_by structural stmt => stmt

/-- The code of statements loads or stores every place in them. -/
theorem Stmt.usedBy_of_mem_placesOf : (statements : List Stmt) → (exits : Exits) → (start : Nat) →
    Op.Each P start (Stmt.codes exits start statements) → ∀ p ∈ Stmt.placesOf statements, p.UsedBy P
  | [], _, _, _ => nofun
  | stmt :: rest, exits, start, h => by
    obtain ⟨hstmt, hrest⟩ := Stmt.each_codes_cons.mp h
    exact List.forall_mem_append.mpr
      ⟨Stmt.usedBy_of_mem_places stmt _ _ hstmt, Stmt.usedBy_of_mem_placesOf rest _ _ hrest⟩
termination_by structural statements => statements

end

end Bound

end HostScript
