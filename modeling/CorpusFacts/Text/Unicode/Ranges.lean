/-!
# Sets of code points as ranges

A Unicode property is a finite set of code points. It is written down as ascending, disjoint ranges
with both ends included, and membership is one pass that stops at the first range beyond the point.
-/

namespace CorpusFacts.Text.Unicode

/-- Ascending, disjoint ranges of code points, both ends included. -/
abbrev Ranges := List (Nat × Nat)

/-- Whether a code point lies in one of the ranges. -/
def Ranges.contains : Ranges → Nat → Bool
  | [], _ => false
  | (first, last) :: rest, point =>
    if point < first then false
    else if point ≤ last then true
    else Ranges.contains rest point

end CorpusFacts.Text.Unicode
