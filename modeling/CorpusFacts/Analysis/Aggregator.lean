import CorpusFacts.Analysis.Finding

/-!
# Aggregators

An aggregator folds the findings of all files into one result. It says whether the result depends
on the order of the findings.
-/

namespace CorpusFacts

/-- Whether a result depends on the order of the findings. -/
inductive ResultOrder where
  /-- The result keeps the order of the findings. -/
  | source
  /-- The result is sorted and without duplicates, whatever the order of the findings. -/
  | unordered
  deriving DecidableEq, Repr

namespace ResultOrder

/-- The name of an order. -/
def name : ResultOrder → String
  | source => "source_order"
  | unordered => "unordered"

end ResultOrder

/-- Folds findings into one result. -/
structure Aggregator (α β : Type) where
  /-- Whether the order of the findings matters. -/
  order : ResultOrder
  /-- The result of some findings; no findings have a result too. -/
  aggregate : List (Finding α) → β

/-- A value put into an ascending list, unless it is there already. -/
def insertDistinct (compare : α → α → Ordering) (value : α) : List α → List α
  | [] => [value]
  | other :: rest =>
    match compare value other with
    | .lt => value :: other :: rest
    | .eq => other :: rest
    | .gt => other :: insertDistinct compare value rest

/-- The values of a list in ascending order, each once. -/
def sortDistinct (compare : α → α → Ordering) (values : List α) : List α :=
  values.foldl (fun sorted value => insertDistinct compare value sorted) []

/-- The values of a list, each where it occurs first. -/
def firstOccurrences [DecidableEq α] : List α → List α
  | [] => []
  | value :: rest => value :: (firstOccurrences rest).filter (· ≠ value)

namespace Aggregator

/-- Every value, in order. -/
def list : Aggregator α (List α) where
  order := .source
  aggregate findings := findings.map (·.value)

/-- Every value once, in ascending order. -/
def set (compare : α → α → Ordering) : Aggregator α (List α) where
  order := .unordered
  aggregate findings := sortDistinct compare (findings.map (·.value))

/-- The values of all lists, in order. -/
def flatten : Aggregator (List α) (List α) where
  order := .source
  aggregate findings := findings.flatMap (·.value)

end Aggregator

end CorpusFacts
