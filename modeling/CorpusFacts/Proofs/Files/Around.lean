import CorpusFacts.Proofs.Files.Ways

/-!
# The paths around a path

The directories around a path have the paths of its first steps, each spelled without idle steps at
its end. They start where the path starts, and their ways are parts of its way.
-/

namespace CorpusFacts

namespace Path

variable {first step : List Char} {front steps : List (List Char)}

/-- The prefixes of a longer list are those of the list and the longer list itself. -/
theorem prefixes_concat {α : Type} (list : List α) (a : α) :
    prefixes (list ++ [a]) = prefixes list ++ [list ++ [a]] := by
  induction list with
  | nil => rfl
  | cons b list ih => simp [prefixes, ih]

/-- An idle step at the end is dropped, and any other one is kept with all steps before it. -/
theorem dropIdleEnd_concat (first : List Char) (front : List (List Char)) (step : List Char) :
    dropIdleEnd (first :: (front ++ [step])) =
      if isIdle step then dropIdleEnd (first :: front) else first :: (front ++ [step]) := by
  rw [dropIdleEnd, dropIdleEnd, List.reverse_concat, List.dropWhile_cons]
  split
  · rfl
  · rw [List.reverse_cons, List.reverse_reverse]

/-- Dropping idle steps at the end leaves a start of the steps, and it is all that is dropped. -/
theorem exists_dropIdleEnd (first : List Char) (front : List (List Char)) :
    ∃ rest idle, dropIdleEnd (first :: front) = first :: rest ∧ front = rest ++ idle ∧
      (∀ step ∈ idle, isIdle step = true) ∧
      ∀ step ∈ rest.getLast?, isIdle step = false := by
  induction front using List.reverseRecOn with
  | nil => exact ⟨[], [], rfl, rfl, by simp, by simp⟩
  | append_singleton front step ih =>
    rw [dropIdleEnd_concat]
    split
    · rename_i hidle
      obtain ⟨rest, idle, hdrop, hfront, hall, hlast⟩ := ih
      refine ⟨rest, idle ++ [step], hdrop, by rw [hfront, List.append_assoc], ?_, hlast⟩
      intro other hother
      rcases List.mem_append.mp hother with hother | hother
      · exact hall other hother
      · rwa [List.mem_singleton.mp hother]
    · rename_i hidle
      exact ⟨front ++ [step], [], rfl, by simp, by simp, by simpa using hidle⟩

/-- The paths that some steps and their first ones spell, innermost first, each without idle steps
at its end. -/
def around (first : List Char) (front : List (List Char)) : List Path :=
  (((prefixes (first :: front)).filter fun steps => dropIdleEnd steps == steps).map
    ofSegments).reverse

/-- The first step spells one path. -/
theorem around_nil (first : List Char) : around first [] = [ofSegments [first]] := by
  simp [around, prefixes, dropIdleEnd]

/-- One more step spells one more path, unless it is idle. -/
theorem around_concat (first : List Char) (front : List (List Char)) (step : List Char) :
    around first (front ++ [step]) =
      if isIdle step then around first front
      else ofSegments (first :: (front ++ [step])) :: around first front := by
  have hkept : (dropIdleEnd (first :: (front ++ [step])) == first :: (front ++ [step])) =
      !isIdle step := by
    obtain ⟨rest, idle, hrest, hfront, _⟩ := exists_dropIdleEnd first front
    rw [dropIdleEnd_concat]
    cases isIdle step with
    | true =>
      rw [if_pos rfl, hrest, hfront]
      simp
    | false => simp
  rw [around, ← List.cons_append, prefixes_concat, List.filter_append, List.filter_singleton,
    List.cons_append, hkept, around]
  cases isIdle step with
  | true => simp
  | false => simp

/-- Steps between slashes are the segments of the path they spell, unless it is the root. -/
theorem segments_ofSegments (hne : steps ≠ []) (hroot : steps ≠ [[]])
    (hruns : ∀ step ∈ steps, '/' ∉ step) : (ofSegments steps).segments = steps := by
  rw [ofSegments, segments]
  · rw [String.toList_ofList]
    exact Text.split_intercalate hne hruns
  · exact hroot

/-- Idle steps at the end of a spelled path are dropped from its segments. -/
theorem dropIdleEnd_segments_ofSegments (hruns : ∀ step ∈ first :: front, '/' ∉ step) :
    dropIdleEnd (ofSegments (dropIdleEnd (first :: front))).segments =
      dropIdleEnd (first :: front) := by
  obtain ⟨rest, idle, hdrop, rfl, _, hlast⟩ := exists_dropIdleEnd first front
  rw [hdrop]
  by_cases hroot : first :: rest = [[]]
  · rw [hroot]
    decide
  · rw [segments_ofSegments (by simp) hroot fun step hstep => hruns step ?_]
    · induction rest using List.reverseRecOn with
      | nil => rfl
      | append_singleton rest step _ =>
        rw [dropIdleEnd_concat, if_neg]
        simpa using hlast
    · rw [← List.cons_append]
      exact List.mem_append_left _ hstep

/-- The directories around a spelled path have the paths that its steps and their first ones
spell. -/
theorem ancestors_ofSegments (hruns : ∀ step ∈ first :: front, '/' ∉ step) :
    (ofSegments (dropIdleEnd (first :: front))).ancestors = around first front := by
  have hsame := dropIdleEnd_segments_ofSegments hruns
  rw [ancestors, hsame]
  clear hsame hruns
  induction front using List.reverseRecOn with
  | nil => simp [around, prefixes, dropIdleEnd]
  | append_singleton front step ih =>
    rw [dropIdleEnd_concat, around_concat]
    split
    · exact ih
    · rw [← List.cons_append, prefixes_concat, List.dropLast_concat, around]

/-- The text of a spelled path: the root where the only step is empty, and otherwise the steps with
slashes between them. -/
theorem toList_ofSegments (first : List Char) (front : List (List Char)) :
    (ofSegments (first :: front)).text.toList =
      if first = [] ∧ front = [] then ['/'] else ['/'].intercalate (first :: front) := by
  by_cases hroot : first :: front = [[]]
  · obtain ⟨rfl, rfl⟩ := List.cons.inj hroot
    decide
  · rw [ofSegments, String.toList_ofList, if_neg]
    · simpa using hroot
    · exact hroot

/-- A spelled path has a text. -/
theorem ofSegments_ne_empty (first : List Char) (front : List (List Char)) :
    (ofSegments (first :: front)).text ≠ "" := by
  rw [Ne, ← String.toList_eq_nil_iff, toList_ofSegments]
  split
  · simp
  · rename_i hroot
    cases front with
    | nil => simpa using hroot
    | cons next front => simp [List.intercalate_cons_cons]

/-- A spelled path is absolute if its first step is empty. -/
theorem isAbsolute_ofSegments (hruns : ∀ step ∈ first :: front, '/' ∉ step) :
    (ofSegments (first :: front)).isAbsolute = true ↔ first = [] := by
  rw [isAbsolute, toList_ofSegments, beq_iff_eq]
  split
  · rename_i hroot
    exact iff_of_true rfl hroot.1
  · rename_i hroot
    cases first with
    | nil =>
      cases front with
      | nil => exact absurd ⟨rfl, rfl⟩ hroot
      | cons next front => simp [List.intercalate_cons_cons]
    | cons c first =>
      have hslash : c ≠ '/' := by
        rintro rfl
        exact hruns _ (List.mem_cons_self ..) (List.mem_cons_self ..)
      cases front with
      | nil => simpa using hslash
      | cons next front => simpa [List.intercalate_cons_cons] using hslash

end Path

namespace FileTree

variable {tree : FileTree} {first : List Char} {front : List (List Char)} {spot : List String}

/-- Where steps start that spell a path. -/
def startAt (tree : FileTree) (first : List Char) : List String :=
  if first = [] then [] else tree.working

/-- A spelled path starts where its first step tells. -/
theorem startOf_ofSegments (tree : FileTree) (hruns : ∀ step ∈ first :: front, '/' ∉ step) :
    tree.startOf (Path.ofSegments (first :: front)) = tree.startAt first := by
  have habsolute := Path.isAbsolute_ofSegments hruns
  rw [startOf, startAt]
  by_cases hfirst : first = []
  · rw [if_pos (habsolute.mpr hfirst), if_pos hfirst]
  · rw [if_neg (mt habsolute.mp hfirst), if_neg hfirst]

/-- A spelled path leads where its steps lead, through the same locations. -/
theorem spotsOf_ofSegments (tree : FileTree) (hruns : ∀ step ∈ first :: front, '/' ∉ step) :
    tree.placeOf (Path.ofSegments (first :: front)) =
        placeFrom (tree.startAt first) (first :: front) ∧
      ∀ spot, spot ∈ tree.spotsOf (Path.ofSegments (first :: front)) ↔
        spot ∈ spotsFrom (tree.startAt first) (first :: front) := by
  have hstart := startOf_ofSegments tree hruns
  by_cases hroot : first :: front = [[]]
  · obtain ⟨rfl, rfl⟩ := List.cons.inj hroot
    rw [placeOf, hstart]
    refine ⟨rfl, fun spot => ?_⟩
    rw [spotsOf, hstart]
    simp [startAt, spotsFrom, Path.ofSegments, Path.segments, Text.split, Text.splitWhere, stepFrom,
      Path.isIdle]
  · have hsegments := Path.segments_ofSegments (by simp) hroot hruns
    rw [placeOf, hstart, hsegments]
    refine ⟨rfl, fun spot => ?_⟩
    rw [spotsOf, hstart, hsegments]

/-- The paths around a spelled path start where it starts and lead through locations on its way. -/
theorem spotsOf_around (tree : FileTree) (hruns : ∀ step ∈ first :: front, '/' ∉ step) :
    ∀ path ∈ Path.around first front, ∀ spot ∈ tree.spotsOf path,
      spot ∈ spotsFrom (tree.startAt first) (first :: front) := by
  induction front using List.reverseRecOn with
  | nil =>
    intro path hpath spot hspot
    rw [Path.around_nil, List.mem_singleton] at hpath
    rw [hpath] at hspot
    exact ((spotsOf_ofSegments tree hruns).2 spot).mp hspot
  | append_singleton front step ih =>
    intro path hpath spot hspot
    have hfront : ∀ other ∈ first :: front, '/' ∉ other := fun other hother =>
      hruns other (by rw [← List.cons_append]; exact List.mem_append_left _ hother)
    have hinner : path ∈ Path.around first front →
        spot ∈ spotsFrom (tree.startAt first) (first :: (front ++ [step])) := by
      intro hmem
      rw [← List.cons_append, mem_spotsFrom_append]
      exact Or.inl (ih hfront path hmem spot hspot)
    rw [Path.around_concat] at hpath
    split at hpath
    · exact hinner hpath
    · rcases List.mem_cons.mp hpath with rfl | hpath
      · exact ((spotsOf_ofSegments tree hruns).2 spot).mp hspot
      · exact hinner hpath

end FileTree

end CorpusFacts
