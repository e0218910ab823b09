import CorpusFacts.Syntax.SourceUnit

/-!
# Findings

What an analysis learns from parsed files: values, each with the place it was found at, and
problems, where a node should have been understood and was not. Both keep the order in which the
nodes were visited.
-/

namespace CorpusFacts

/-- A value found at a node. -/
structure Finding (α : Type) where
  /-- The analyzer that found it. -/
  analyzer : String
  /-- The path of the file in its project. -/
  path : String
  /-- The module of the file. -/
  module : String
  /-- The line of the node. -/
  line : Nat
  /-- What was found. -/
  value : α
  deriving DecidableEq, Repr

namespace Finding

/-- Another value found at the same place. -/
def map (f : α → β) (finding : Finding α) : Finding β :=
  ⟨finding.analyzer, finding.path, finding.module, finding.line, f finding.value⟩

end Finding

/-- A node that an analyzer is meant to understand and does not. -/
structure Problem where
  /-- The analyzer that gave up. -/
  analyzer : String
  /-- The path of the file in its project. -/
  path : String
  /-- The line of the node. -/
  line : Nat
  /-- What is wrong with the node. -/
  message : String
  deriving DecidableEq, Repr

namespace Problem

/-- The problem as one line. -/
def text (problem : Problem) : String :=
  problem.analyzer ++ " at " ++ problem.path ++ ":" ++ toString problem.line ++ ": "
    ++ problem.message

end Problem

/-- Everything learned from some files. -/
@[ext]
structure Findings (α : Type) where
  /-- The values found. -/
  values : List (Finding α)
  /-- The problems met. -/
  problems : List Problem
  deriving DecidableEq, Repr

namespace Findings

/-- Nothing learned. -/
def empty : Findings α := ⟨[], []⟩

/-- What was learned first, then what was learned next. -/
def append (first next : Findings α) : Findings α :=
  ⟨first.values ++ next.values, first.problems ++ next.problems⟩

instance : Append (Findings α) := ⟨append⟩

@[simp] theorem values_append (first next : Findings α) :
    (first ++ next).values = first.values ++ next.values := rfl

@[simp] theorem problems_append (first next : Findings α) :
    (first ++ next).problems = first.problems ++ next.problems := rfl

@[simp] theorem append_empty (findings : Findings α) : findings ++ empty = findings := by
  ext1 <;> exact List.append_nil _

@[simp] theorem empty_append (findings : Findings α) : empty ++ findings = findings := rfl

theorem append_assoc (first next last : Findings α) :
    first ++ next ++ last = first ++ (next ++ last) := by
  ext1 <;> exact List.append_assoc ..

/-- The findings of several files, in order. -/
def join (parts : List (Findings α)) : Findings α :=
  parts.foldr append empty

/-- Items that make nothing may be left out. -/
theorem join_filter {items : List ι} {p : ι → Bool} {found : ι → Findings α}
    (h : ∀ item ∈ items, p item = false → found item = empty) :
    join ((items.filter p).map found) = join (items.map found) := by
  induction items with
  | nil => rfl
  | cons item items ih =>
    obtain ⟨hitem, hitems⟩ := List.forall_mem_cons.mp h
    cases hp : p item with
    | true =>
      rw [List.filter_cons_of_pos hp]
      exact congrArg (found item ++ ·) (ih hitems)
    | false =>
      rw [List.filter_cons_of_neg (by simp [hp]), ih hitems]
      exact congrArg (· ++ join (items.map found)) (hitem hp).symm

/-- Other values in place of the ones found. -/
def map (f : α → β) (findings : Findings α) : Findings β :=
  ⟨findings.values.map (·.map f), findings.problems⟩

/-- Any number of values in place of each one found, all at its place. -/
def flatMap (f : α → List β) (findings : Findings α) : Findings β :=
  ⟨findings.values.flatMap fun finding => (f finding.value).map fun value =>
    finding.map fun _ => value, findings.problems⟩

end Findings

end CorpusFacts
