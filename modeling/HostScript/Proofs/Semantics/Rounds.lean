import Mathlib.Data.List.Induction
import HostScript.Proofs.Binding.Inversion
import HostScript.Proofs.Semantics.Bound

/-!
# Assignments to elements

An element is stored by storing the changed array that it lies in, which may be an element itself.
So an assignment to an element under a path of indices takes one round for each index, the last
index first: the round reads the variable again and evaluates all indices up to this one, from the
first on. A round changes the array that these lead to, and hands it to the next round. If the
rounds see the same array and the same path, then together they replace the element at that path.
-/

namespace HostScript

variable {σ : Type}

/-- The prefixes of a list that are not empty, the longest one first. -/
def prefixesDown {α : Type} (xs : List α) : List (List α) :=
  (List.range xs.length).reverse.map fun j => xs.take (j + 1)

theorem prefixesDown_concat {α : Type} (xs : List α) (x : α) :
    prefixesDown (xs ++ [x]) = (xs ++ [x]) :: prefixesDown xs := by
  have hshorter :
      ∀ j ∈ (List.range xs.length).reverse, (xs ++ [x]).take (j + 1) = xs.take (j + 1) := by
    intro j hj
    have hlt : j < xs.length := List.mem_range.mp (List.mem_reverse.mp hj)
    exact List.take_append_of_le_length hlt
  unfold prefixesDown
  rw [List.length_append, List.length_singleton, List.range_succ, List.reverse_concat,
    List.map_cons, List.map_congr_left hshorter, List.take_of_length_le (by simp)]

namespace Value

/-- The element at a path of indices. -/
def elementAt (array : Value) : List Value → Except Fault Value
  | [] => .ok array
  | index :: path => do
    let inner ← array.element index
    inner.elementAt path

/-- The array with the element at a path of indices replaced. -/
def replaceAt (array : Value) (path : List Value) (value : Value) : Except Fault Value :=
  match path with
  | [] => .ok value
  | index :: path => do
    let inner ← array.element index
    let changed ← inner.replaceAt path value
    array.withElement index changed

/-- The innermost of the arrays on a path of indices, with its element replaced. -/
def innermostWith (array : Value) (path : List Value) (value : Value) : Except Fault Value :=
  match path with
  | [] => .ok value
  | [index] => array.withElement index value
  | index :: next :: path => do
    let inner ← array.element index
    inner.innermostWith (next :: path) value

theorem elementAt_concat (array : Value) (path : List Value) (index : Value) :
    array.elementAt (path ++ [index]) = array.elementAt path >>= fun inner =>
      inner.element index := by
  induction path generalizing array with
  | nil =>
    change (array.element index >>= fun inner => Except.ok inner) = array.element index
    cases array.element index <;> rfl
  | cons first path ih =>
    simp only [List.cons_append, elementAt, ih]
    cases array.element first <;> rfl

theorem innermostWith_concat (array : Value) (path : List Value) (index value : Value) :
    array.innermostWith (path ++ [index]) value =
      array.elementAt path >>= fun inner => inner.withElement index value := by
  induction path generalizing array with
  | nil => rfl
  | cons first path ih =>
    have hcons : array.innermostWith (first :: (path ++ [index])) value =
        array.element first >>= fun inner => inner.innermostWith (path ++ [index]) value := by
      cases path <;> rfl
    rw [List.cons_append, hcons, elementAt]
    cases array.element first with
    | error fault => rfl
    | ok inner => exact ih inner

/-- An element can be replaced where there is one, and fails to be for the same reason. -/
theorem element_bind_withElement (array index value : Value) :
    (array.element index >>= fun _ => array.withElement index value) =
      array.withElement index value := by
  unfold element withElement
  cases array with
  | array items =>
    dsimp only
    cases index.position items.size <;> rfl
  | _ => rfl

/-- An element is replaced by replacing the array that it lies in. -/
theorem replaceAt_concat (array : Value) (path : List Value) (index value : Value) :
    array.replaceAt (path ++ [index]) value =
      array.innermostWith (path ++ [index]) value >>= fun changed =>
        array.replaceAt path changed := by
  rw [innermostWith_concat]
  induction path generalizing array with
  | nil =>
    have hlast := element_bind_withElement array index value
    simp only [List.nil_append, replaceAt, elementAt]
    change (array.element index >>= fun _ => array.withElement index value) =
      array.withElement index value >>= Except.ok
    rw [hlast]
    cases array.withElement index value <;> rfl
  | cons first path ih =>
    rw [List.cons_append, replaceAt, elementAt]
    cases hfirst : array.element first with
    | error fault => rfl
    | ok inner =>
      change (inner.replaceAt (path ++ [index]) value >>= fun changed =>
          array.withElement first changed) =
        (inner.elementAt path >>= fun held => held.withElement index value) >>= fun changed =>
          array.replaceAt (first :: path) changed
      rw [ih, bind_assoc]
      congr 1
      funext changed
      rw [replaceAt, hfirst]
      rfl

/-- Rounds over one array, each with one index of a path less, replace the element at the path. -/
theorem foldlM_innermostWith (array : Value) (path : List Value) (value : Value) :
    ((prefixesDown path).map fun indices => (array, indices)).foldlM
      (fun value round => round.1.innermostWith round.2 value) value =
        array.replaceAt path value := by
  induction path using List.reverseRecOn generalizing value with
  | nil => rfl
  | append_singleton path index ih =>
    rw [prefixesDown_concat, List.map_cons, List.foldlM_cons, replaceAt_concat]
    congr 1
    funext changed
    exact ih changed

end Value

namespace Eval

variable {γ α β : Type}

theorem bind_of_eq_ok {x : Eval γ σ α} {a : α} {w w₁ : World γ σ} (hx : x w = .ok a w₁)
    (f : α → Eval γ σ β) : (x >>= f) w = f a w₁ := by
  change EStateM.bind x f w = _
  rw [EStateM.bind, hx]

theorem bind_eq_ok_iff {x : Eval γ σ α} {f : α → Eval γ σ β} {b : β} {w w' : World γ σ} :
    (x >>= f) w = .ok b w' ↔ ∃ a w₁, x w = .ok a w₁ ∧ f a w₁ = .ok b w' := by
  constructor
  · exact bind_eq_ok
  · rintro ⟨a, w₁, hx, hf⟩
    rw [bind_of_eq_ok hx]
    exact hf

theorem pure_eq_ok_iff {a b : α} {w w' : World γ σ} :
    (pure a : Eval γ σ α) w = .ok b w' ↔ a = b ∧ w = w' := by
  change EStateM.Result.ok a w = .ok b w' ↔ _
  simp

theorem lift_eq_ok_iff {x : Except Fault α} {a : α} {w w' : World γ σ} :
    (lift x : Eval γ σ α) w = .ok a w' ↔ x = .ok a ∧ w = w' := by
  cases x with
  | ok b => rw [lift, pure_eq_ok_iff, Except.ok.injEq]
  | error fault =>
    change EStateM.Result.error _ w = .ok a w' ↔ _
    simp

end Eval

namespace Bound

/-- The place that holds a target. -/
def Target.root : Target → Place
  | .place p => p
  | .element base _ => base.root

/-- The indices of a target, the first one first. -/
def Target.indices : Target → List Expr
  | .place _ => []
  | .element base position => base.indices ++ [position]

variable (call : Calls (Array Value) σ) (slots : Slots)

/-- One round of an assignment: reads the place and evaluates indices. -/
def evalRound (root : Place) (indices : List Expr) : Eval (Array Value) σ (Value × List Value) := do
  let array ← root.read slots
  let path ← Expr.evalAll call slots indices
  return (array, path)

variable {call slots}

theorem Expr.evalAll_concat (xs : List Expr) (x : Expr) :
    Expr.evalAll call slots (xs ++ [x]) = (do
      let path ← Expr.evalAll call slots xs
      let index ← x.eval call slots
      return path ++ [index]) := by
  induction xs with
  | nil => simp [Expr.evalAll]
  | cons first xs ih => simp [Expr.evalAll, ih]

theorem Expr.evalAll_of_quiet {xs : List Expr} {values : List Value} {w : World (Array Value) σ}
    (h : List.Forall₂ (fun x value => x.eval call slots w = .ok value w) xs values) :
    Expr.evalAll call slots xs w = .ok values w := by
  induction h with
  | nil => rfl
  | cons hfirst _ ih =>
    exact Eval.bind_eq_ok_iff.mpr ⟨_, w, hfirst, Eval.bind_eq_ok_iff.mpr ⟨_, w, ih, rfl⟩⟩

/-- A round with one more index goes on from the round without it. -/
theorem evalRound_concat_eq_ok_iff {root : Place} {xs : List Expr} {x : Expr}
    {r : Value × List Value} {w w' : World (Array Value) σ} :
    evalRound call slots root (xs ++ [x]) w = .ok r w' ↔
      ∃ round index w₁, evalRound call slots root xs w = .ok round w₁ ∧
        x.eval call slots w₁ = .ok index w' ∧
        (round.1, round.2 ++ [index]) = r := by
  have hconcat : evalRound call slots root (xs ++ [x]) = (do
      let round ← evalRound call slots root xs
      let index ← x.eval call slots
      return (round.1, round.2 ++ [index])) := by
    simp [evalRound, Expr.evalAll_concat]
  rw [hconcat, Eval.bind_eq_ok_iff]
  constructor
  · rintro ⟨round, w₁, hround, h⟩
    obtain ⟨index, w₂, hindex, h⟩ := Eval.bind_eq_ok_iff.mp h
    obtain ⟨hr, rfl⟩ := Eval.pure_eq_ok_iff.mp h
    exact ⟨round, index, w₁, hround, hindex, hr⟩
  · rintro ⟨round, index, w₁, hround, hindex, hr⟩
    exact ⟨round, w₁, hround,
      Eval.bind_eq_ok_iff.mpr ⟨index, w', hindex, Eval.pure_eq_ok_iff.mpr ⟨hr, rfl⟩⟩⟩

/-- If neither the place nor the indices change the world, then all rounds see one
array and one path. -/
theorem mapM_evalRound_of_quiet {root : Place} {indices : List Expr} {array : Value}
    {path : List Value} {w : World (Array Value) σ} (hread : root.read slots w = .ok array w)
    (hindices : List.Forall₂ (fun x index => x.eval call slots w = .ok index w) indices path) :
    (prefixesDown indices).mapM (evalRound call slots root) w =
      .ok ((prefixesDown path).map fun indices => (array, indices)) w := by
  have hround : ∀ n, evalRound call slots root (indices.take n) w = .ok (array, path.take n) w := by
    intro n
    exact Eval.bind_eq_ok_iff.mpr ⟨array, w, hread, Eval.bind_eq_ok_iff.mpr
      ⟨_, w, Expr.evalAll_of_quiet (List.forall₂_take n hindices), rfl⟩⟩
  unfold prefixesDown
  rw [hindices.length_eq]
  induction (List.range path.length).reverse with
  | nil => rfl
  | cons j js ih =>
    simp only [List.map_cons, List.mapM_cons]
    exact Eval.bind_eq_ok_iff.mpr ⟨_, w, hround (j + 1), Eval.bind_eq_ok_iff.mpr ⟨_, w, ih, rfl⟩⟩

/-- A target is read by a round of all its indices, which lead to an element. -/
theorem Target.eval_read_eq_ok_iff {t : Target} {value : Value} {w w' : World (Array Value) σ} :
    t.read.eval call slots w = .ok value w' ↔
      ∃ round, evalRound call slots t.root t.indices w = .ok round w' ∧
        round.1.elementAt round.2 = .ok value := by
  induction t generalizing value w' with
  | place p =>
    constructor
    · intro h
      exact ⟨(value, []), Eval.bind_eq_ok_iff.mpr ⟨value, w', h, rfl⟩, rfl⟩
    · rintro ⟨round, hround, hvalue⟩
      obtain ⟨array, w₁, hread, hrest⟩ := Eval.bind_eq_ok_iff.mp hround
      cases hrest
      cases hvalue
      exact hread
  | element base position ih =>
    simp only [Target.read, Expr.eval, Target.root, Target.indices]
    constructor
    · intro h
      obtain ⟨holder, w₁, hbase, h⟩ := Eval.bind_eq_ok_iff.mp h
      obtain ⟨index, w₂, hindex, h⟩ := Eval.bind_eq_ok_iff.mp h
      obtain ⟨helement, rfl⟩ := Eval.lift_eq_ok_iff.mp h
      obtain ⟨round, hround, hholder⟩ := ih.mp hbase
      refine ⟨_, evalRound_concat_eq_ok_iff.mpr ⟨round, index, w₁, hround, hindex, rfl⟩, ?_⟩
      rw [Value.elementAt_concat, hholder]
      exact helement
    · rintro ⟨r, hr, hvalue⟩
      obtain ⟨round, index, w₁, hround, hindex, rfl⟩ := evalRound_concat_eq_ok_iff.mp hr
      rw [Value.elementAt_concat] at hvalue
      obtain ⟨holder, hholder, helement⟩ := bind_eq_ok_iff.mp hvalue
      have hbase := ih.mpr ⟨round, hround, hholder⟩
      exact Eval.bind_eq_ok_iff.mpr ⟨holder, w₁, hbase, Eval.bind_eq_ok_iff.mpr ⟨index, w', hindex,
        Eval.lift_eq_ok_iff.mpr ⟨helement, rfl⟩⟩⟩

/-- One round of an assignment goes through all indices and changes the array that the
last one belongs to. -/
theorem Target.eval_withElement_eq_ok_iff {base : Target} {position : Expr} {value changed : Value}
    {w w' : World (Array Value) σ} :
    (∃ holder index w₁, base.read.eval call slots w = .ok holder w₁ ∧
        position.eval call slots w₁ = .ok index w' ∧ holder.withElement index value = .ok changed) ↔
      ∃ round, evalRound call slots base.root (base.indices ++ [position]) w = .ok round w' ∧
        round.1.innermostWith round.2 value = .ok changed := by
  constructor
  · rintro ⟨holder, index, w₁, hbase, hindex, hchanged⟩
    obtain ⟨round, hround, hholder⟩ := eval_read_eq_ok_iff.mp hbase
    refine ⟨_, evalRound_concat_eq_ok_iff.mpr ⟨round, index, w₁, hround, hindex, rfl⟩, ?_⟩
    rw [Value.innermostWith_concat, hholder]
    exact hchanged
  · rintro ⟨r, hr, hchanged⟩
    obtain ⟨round, index, w₁, hround, hindex, rfl⟩ := evalRound_concat_eq_ok_iff.mp hr
    rw [Value.innermostWith_concat] at hchanged
    obtain ⟨holder, hholder, hchanged⟩ := bind_eq_ok_iff.mp hchanged
    exact ⟨holder, index, w₁, eval_read_eq_ok_iff.mpr ⟨round, hround, hholder⟩, hindex, hchanged⟩

/-- A value is stored into a target by rounds, from all indices to the first, and by writing what
the last of them has changed into the place that holds the target. -/
theorem Target.store_eq_ok_iff {t : Target} {value : Value} {slots' : Slots}
    {w w' : World (Array Value) σ} :
    t.store call slots value w = .ok slots' w' ↔
      ∃ rounds w₁ changed,
        (prefixesDown t.indices).mapM (evalRound call slots t.root) w = .ok rounds w₁ ∧
        rounds.foldlM (fun value round => round.1.innermostWith round.2 value) value = .ok changed ∧
        t.root.write slots changed w₁ = .ok slots' w' := by
  induction t generalizing value w with
  | place p =>
    constructor
    · intro h
      exact ⟨[], w, value, rfl, rfl, h⟩
    · rintro ⟨rounds, w₁, changed, hrounds, hchanged, hwrite⟩
      cases hrounds
      cases hchanged
      exact hwrite
  | element base position ih =>
    simp only [Target.store, Target.root, Target.indices, prefixesDown_concat, List.mapM_cons]
    constructor
    · intro h
      obtain ⟨holder, w₁, hbase, h⟩ := Eval.bind_eq_ok_iff.mp h
      obtain ⟨index, w₂, hindex, h⟩ := Eval.bind_eq_ok_iff.mp h
      obtain ⟨inner, w₃, hlift, hstore⟩ := Eval.bind_eq_ok_iff.mp h
      obtain ⟨hinner, rfl⟩ := Eval.lift_eq_ok_iff.mp hlift
      obtain ⟨round, hround, hfirst⟩ :=
        eval_withElement_eq_ok_iff.mp ⟨holder, index, w₁, hbase, hindex, hinner⟩
      obtain ⟨rounds, w₄, changed, hrounds, hchanged, hwrite⟩ := ih.mp hstore
      refine ⟨round :: rounds, w₄, changed, ?_, ?_, hwrite⟩
      · exact Eval.bind_eq_ok_iff.mpr
          ⟨round, w₂, hround, Eval.bind_eq_ok_iff.mpr ⟨rounds, w₄, hrounds, rfl⟩⟩
      · rw [List.foldlM_cons, hfirst]
        exact hchanged
    · rintro ⟨all, w₄, changed, hall, hchanged, hwrite⟩
      obtain ⟨round, w₂, hround, hall⟩ := Eval.bind_eq_ok_iff.mp hall
      obtain ⟨rounds, w₃, hrounds, hall⟩ := Eval.bind_eq_ok_iff.mp hall
      obtain ⟨rfl, rfl⟩ := Eval.pure_eq_ok_iff.mp hall
      rw [List.foldlM_cons] at hchanged
      obtain ⟨inner, hfirst, hchanged⟩ := bind_eq_ok_iff.mp hchanged
      obtain ⟨holder, index, w₁, hbase, hindex, hinner⟩ :=
        eval_withElement_eq_ok_iff.mpr ⟨round, hround, hfirst⟩
      have hstore := ih.mpr ⟨rounds, w₃, changed, hrounds, hchanged, hwrite⟩
      exact Eval.bind_eq_ok_iff.mpr ⟨holder, w₁, hbase, Eval.bind_eq_ok_iff.mpr ⟨index, w₂, hindex,
        Eval.bind_eq_ok_iff.mpr ⟨inner, w₂, Eval.lift_eq_ok_iff.mpr ⟨hinner, rfl⟩, hstore⟩⟩⟩

/-- If neither the place nor the indices change the world, then the element at the path of the
indices is replaced. -/
theorem Target.store_eq_ok_iff_of_quiet {t : Target} {value array : Value} {path : List Value}
    {slots' : Slots} {w w' : World (Array Value) σ} (hread : t.root.read slots w = .ok array w)
    (hindices : List.Forall₂ (fun x index => x.eval call slots w = .ok index w) t.indices path) :
    t.store call slots value w = .ok slots' w' ↔
      ∃ changed, array.replaceAt path value = .ok changed ∧
        t.root.write slots changed w = .ok slots' w' := by
  have hquiet := mapM_evalRound_of_quiet hread hindices
  rw [store_eq_ok_iff]
  constructor
  · rintro ⟨rounds, w₁, changed, hrounds, hchanged, hwrite⟩
    obtain ⟨rfl, rfl⟩ := EStateM.Result.ok.inj (hquiet.symm.trans hrounds)
    rw [Value.foldlM_innermostWith] at hchanged
    exact ⟨changed, hchanged, hwrite⟩
  · rintro ⟨changed, hchanged, hwrite⟩
    refine ⟨_, w, changed, hquiet, ?_, hwrite⟩
    rw [Value.foldlM_innermostWith]
    exact hchanged

end Bound

end HostScript
