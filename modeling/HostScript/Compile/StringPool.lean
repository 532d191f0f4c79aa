import Std.Data.TreeMap

/-!
# String pools

The strings of a unit, each stored once and numbered in the order of their first use.

The numbers have no limit. The error for a string whose number would be `2 ^ 32` or more is
left out.
-/

namespace HostScript

/-- Distinct strings with their numbers. -/
structure StringPool where
  ids : Std.TreeMap String Nat := {}
  strings : Array String := #[]

/-- The number of a string, which is added if it is new. -/
def StringPool.intern (pool : StringPool) (s : String) : Nat × StringPool :=
  match pool.ids[s]? with
  | some id => (id, pool)
  | none =>
    let id := pool.strings.size
    (id, { ids := pool.ids.insert s id, strings := pool.strings.push s })

end HostScript
