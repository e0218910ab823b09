import CorpusFacts.Analysis.Aggregator
import Mathlib.Data.List.Sort

/-!
# Lists without duplicates

Values are freed of duplicates in two ways. Where they are sorted, what remains stands for the set
of the values and depends neither on their order nor on how often each of them occurs. Where each is
kept at its first place, the order of these places remains too.
-/

namespace CorpusFacts

/-! ## Sorted sets

Values that are sorted and freed of duplicates stand for the set of these values: the list they are
brought into has the same members, is strictly ascending, and is the only such list.
-/

section SortedSets

variable {α : Type} {compare : α → α → Ordering}

/-- A list is ascending where each value comes before all that follow it. -/
def Ascending (compare : α → α → Ordering) (values : List α) : Prop :=
  values.Pairwise (compare · · = .lt)

variable [Std.LawfulEqCmp compare]

theorem mem_insertDistinct {value other : α} {sorted : List α} :
    other ∈ insertDistinct compare value sorted ↔ other = value ∨ other ∈ sorted := by
  fun_induction insertDistinct compare value sorted with
  | case1 => simp
  | case2 next rest before => simp
  | case3 next rest same =>
    have hsame : value = next := Std.LawfulEqCmp.eq_of_compare same
    simp [hsame]
  | case4 next rest behind ih =>
    simp only [List.mem_cons, ih]
    exact or_left_comm

/-- Values that are put into a list one after the other are added to its members. -/
theorem mem_foldl_insertDistinct {values sorted : List α} {value : α} :
    value ∈ values.foldl (fun sorted value => insertDistinct compare value sorted) sorted ↔
      value ∈ sorted ∨ value ∈ values := by
  induction values generalizing sorted with
  | nil => simp
  | cons next rest ih =>
    rw [List.foldl_cons, ih, mem_insertDistinct, List.mem_cons, or_assoc, or_left_comm]

@[simp] theorem mem_sortDistinct {values : List α} {value : α} :
    value ∈ sortDistinct compare values ↔ value ∈ values := by
  rw [sortDistinct, mem_foldl_insertDistinct]
  simp

variable [Std.TransCmp compare]

/-- A value that is put into an ascending list leaves it ascending. -/
theorem Ascending.insertDistinct {value : α} {sorted : List α}
    (h : Ascending compare sorted) : Ascending compare (insertDistinct compare value sorted) := by
  unfold Ascending at h ⊢
  fun_induction CorpusFacts.insertDistinct compare value sorted with
  | case1 => exact List.pairwise_singleton _ _
  | case2 next rest before =>
    have hnext := (List.pairwise_cons.1 h).1
    refine List.pairwise_cons.2 ⟨fun other hother => ?_, h⟩
    obtain rfl | hother := List.mem_cons.1 hother
    · exact before
    · exact Std.TransCmp.lt_trans before (hnext other hother)
  | case3 => exact h
  | case4 next rest behind ih =>
    obtain ⟨hnext, hrest⟩ := List.pairwise_cons.1 h
    refine List.pairwise_cons.2 ⟨fun other hother => ?_, ih hrest⟩
    obtain rfl | hother := mem_insertDistinct.1 hother
    · exact Std.OrientedCmp.lt_of_gt behind
    · exact hnext other hother

theorem Ascending.foldl_insertDistinct {values sorted : List α}
    (h : Ascending compare sorted) :
    Ascending compare
      (values.foldl (fun sorted value => CorpusFacts.insertDistinct compare value sorted)
        sorted) := by
  induction values generalizing sorted with
  | nil => exact h
  | cons next rest ih => exact ih h.insertDistinct

theorem ascending_sortDistinct (values : List α) :
    Ascending compare (sortDistinct compare values) :=
  Ascending.foldl_insertDistinct List.Pairwise.nil

/-- Ascending lists with the same members are the same list. -/
theorem Ascending.eq_of_mem_iff {first second : List α}
    (hfirst : Ascending compare first) (hsecond : Ascending compare second)
    (h : ∀ value, value ∈ first ↔ value ∈ second) : first = second := by
  have hirrefl : ∀ {value other : α}, compare value other = .lt → value ≠ other := by
    rintro value _ hlt rfl
    exact nomatch hlt.symm.trans Std.ReflCmp.compare_self
  have hperm : first.Perm second :=
    (List.perm_ext_iff_of_nodup (hfirst.imp hirrefl) (hsecond.imp hirrefl)).2 h
  refine hperm.eq_of_pairwise (fun value other _ _ hlt hgt => ?_) hfirst hsecond
  exact nomatch hlt.symm.trans (Std.OrientedCmp.gt_of_lt hgt)

/-- Sorting forgets the order of the values and how often they occur. -/
theorem sortDistinct_eq_iff {first second : List α} :
    sortDistinct compare first = sortDistinct compare second ↔
      ∀ value, value ∈ first ↔ value ∈ second := by
  constructor
  · intro h value
    calc value ∈ first ↔ value ∈ sortDistinct compare first := mem_sortDistinct.symm
      _ ↔ value ∈ sortDistinct compare second := by rw [h]
      _ ↔ value ∈ second := mem_sortDistinct
  · intro h
    exact (ascending_sortDistinct first).eq_of_mem_iff (ascending_sortDistinct second)
      (by simpa using h)

end SortedSets

/-! ## First occurrences -/

section FirstOccurrences

variable {α β : Type} [DecidableEq α] [DecidableEq β] {values others : List α} {value : α}

@[simp] theorem mem_firstOccurrences : value ∈ firstOccurrences values ↔ value ∈ values := by
  induction values with
  | nil => rfl
  | cons first rest ih =>
    rw [firstOccurrences, List.mem_cons, List.mem_cons, List.mem_filter, ih]
    by_cases h : value = first <;> simp [h]

theorem nodup_firstOccurrences (values : List α) : (firstOccurrences values).Nodup := by
  induction values with
  | nil => exact List.nodup_nil
  | cons first rest ih =>
    exact List.nodup_cons.mpr ⟨by simp, ih.filter _⟩

/-- First occurrences come in the order of their places. -/
theorem pairwise_firstOccurrences (values : List α) :
    (firstOccurrences values).Pairwise fun value next =>
      values.idxOf value < values.idxOf next := by
  induction values with
  | nil => exact List.Pairwise.nil
  | cons first rest ih =>
    -- Behind the first value all places have moved by one.
    have hmoved : ∀ {value : α}, value ≠ first →
        (first :: rest).idxOf value = rest.idxOf value + 1 :=
      fun hne => List.idxOf_cons_ne rest hne.symm
    have hne : ∀ {value : α}, value ∈ (firstOccurrences rest).filter (· ≠ first) → value ≠ first :=
      fun h => by simpa using (List.mem_filter.mp h).2
    refine List.pairwise_cons.mpr ⟨fun next hnext => ?_, ?_⟩
    · rw [List.idxOf_cons_self, hmoved (hne hnext)]
      exact Nat.succ_pos _
    · refine (ih.filter _).imp_of_mem fun hvalue hnext hlt => ?_
      rw [hmoved (hne hvalue), hmoved (hne hnext)]
      exact Nat.succ_lt_succ hlt

/-- The first occurrences are the only list of each value once, in the order of their places. -/
theorem eq_firstOccurrences (hnodup : others.Nodup)
    (hmem : ∀ value, value ∈ others ↔ value ∈ values)
    (horder : others.Pairwise fun value next => values.idxOf value < values.idxOf next) :
    others = firstOccurrences values := by
  have hperm : others.Perm (firstOccurrences values) :=
    (List.perm_ext_iff_of_nodup hnodup (nodup_firstOccurrences values)).mpr fun value => by
      rw [hmem, mem_firstOccurrences]
  exact hperm.eq_of_pairwise (fun _ _ _ _ hlt hgt => absurd hlt hgt.asymm) horder
    (pairwise_firstOccurrences values)

/-- Values in another order have the same first occurrences in another order. -/
theorem firstOccurrences_perm (h : values.Perm others) :
    (firstOccurrences values).Perm (firstOccurrences others) := by
  refine (List.perm_ext_iff_of_nodup (nodup_firstOccurrences _) (nodup_firstOccurrences _)).mpr ?_
  intro value
  rw [mem_firstOccurrences, mem_firstOccurrences, h.mem_iff]

/-- Where values are changed one to one, their first occurrences are. -/
theorem firstOccurrences_map {change : α → β} (hchange : Function.Injective change)
    (values : List α) :
    firstOccurrences (values.map change) = (firstOccurrences values).map change := by
  induction values with
  | nil => rfl
  | cons value values ih =>
    rw [List.map_cons, firstOccurrences, firstOccurrences, ih, List.map_cons, List.filter_map]
    simp only [Function.comp_def, ne_eq, hchange.eq_iff]

end FirstOccurrences

end CorpusFacts
