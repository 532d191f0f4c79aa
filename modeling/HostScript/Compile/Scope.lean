import Std.Data.TreeMap
import Std.Data.TreeSet
import HostScript.Compile.Error

/-!
# Lexical scopes and local slots

While a body is bound, its open scopes say which slot each visible local lives in. Slots are handed
out in increasing order and a scope gives its slots back when it is left, so that sibling scopes
share them. A declaration in an inner scope always takes a fresh slot.

A scope also remembers the names that it declares further on. Such a name is pending until its
declaration is complete.
-/

namespace HostScript

/-- One lexical scope. -/
structure Scope where
  /-- The slots of the names declared so far. -/
  names : Std.TreeMap String Nat := {}
  /-- The names whose declaration is still to come. -/
  pending : Std.TreeSet String := {}
  /-- The first slot that the scope may hand out. -/
  base : Nat := 0

/-- The open scopes of a body, with the next free slot and the largest number of
slots used at once. -/
structure Scopes where
  inner : Scope := {}
  outer : List Scope := []
  next : Nat := 0
  peak : Nat := 0

namespace Scopes

/-- Opens a scope. -/
def enter (s : Scopes) : Scopes :=
  { s with inner := { base := s.next }, outer := s.inner :: s.outer }

/-- Closes the innermost scope and frees its slots. The scope of the body itself stays open. -/
def leave (s : Scopes) : Scopes :=
  match s.outer with
  | [] => s
  | scope :: rest => { s with inner := scope, outer := rest, next := s.inner.base }

/-- Whether only the scope of the body itself is open. -/
def isOutermost (s : Scopes) : Bool :=
  s.outer.isEmpty

/-- A fresh slot in the innermost scope. -/
def allocate (s : Scopes) : Except CompileFault (Nat × Scopes) :=
  if s.next < countLimit then
    .ok (s.next, { s with next := s.next + 1, peak := max s.peak (s.next + 1) })
  else
    .error (.tooMany "local slots")

/-- Gives a name a fresh slot in the innermost scope, where it may not have one yet. -/
def declare (s : Scopes) (name : String) (duplicate : CompileFault) :
    Except CompileFault (Nat × Scopes) :=
  if s.inner.names.contains name then
    .error duplicate
  else
    match s.allocate with
    | .error fault => .error fault
    | .ok (slot, s) =>
      let inner :=
        { s.inner with
          names := s.inner.names.insert name slot
          pending := s.inner.pending.erase name }
      .ok (slot, { s with inner })

/-- Notes that the innermost scope declares a name further on. -/
def announce (s : Scopes) (name : String) : Scopes :=
  if s.inner.names.contains name then s
  else { s with inner := { s.inner with pending := s.inner.pending.insert name } }

/-- Whether some open scope is still to declare a name. -/
def isPending (s : Scopes) (name : String) : Bool :=
  s.inner.pending.contains name || s.outer.any fun scope => scope.pending.contains name

/-- The slot of a name in the innermost scope that has declared it. -/
def find? (s : Scopes) (name : String) : Option Nat :=
  s.inner.names[name]? <|> s.outer.findSome? fun scope => scope.names[name]?

end Scopes

end HostScript
