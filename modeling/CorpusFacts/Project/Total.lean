/-!
# Totals

The sum of a count over the members of a list, such as the lines of all sources of a module.
-/

namespace CorpusFacts

/-- The counts of all members of a list together. -/
def totalOf {α : Type} (count : α → Nat) : List α → Nat
  | [] => 0
  | member :: rest => count member + totalOf count rest

end CorpusFacts
