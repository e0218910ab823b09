import CorpusFacts.Proofs.Files.Joining
import CorpusFacts.Proofs.Files.Soundness
import Mathlib.Data.List.Infix

/-!
# Plain names

A plain name is one step of a path that names something in a directory. A path that is joined to
another one adds its steps to it, and every step that is a plain name adds a name.
-/

namespace CorpusFacts

/-- A step of a path that names nothing in its directory: nothing at all, a dot, or two dots. -/
def IsDots (step : List Char) : Prop :=
  step = [] ∨ step = ['.'] ∨ step = ['.', '.']

/-- Whether a step names nothing is decided by a look at it. -/
instance (step : List Char) : Decidable (IsDots step) :=
  inferInstanceAs (Decidable (_ ∨ _ ∨ _))

/-- What occurs in a step that names nothing is such a step too. -/
theorem IsDots.of_infix {step part : List Char} (h : IsDots step) (hpart : part <:+: step) :
    IsDots part := by
  have hstep : step.length ≤ 2 ∧ ∀ c ∈ step, c = '.' := by
    rcases h with rfl | rfl | rfl <;> simp
  have hlength : part.length ≤ 2 := hpart.length_le.trans hstep.1
  have hdots : ∀ c ∈ part, c = '.' := fun c hc => hstep.2 c (hpart.subset hc)
  match part, hlength, hdots with
  | [], _, _ => exact Or.inl rfl
  | [c], _, hdots => exact Or.inr (Or.inl (by simp_all))
  | [c, d], _, hdots => exact Or.inr (Or.inr (by simp_all))

/-- The name of something in a directory: one step of a path, and neither one nor two dots. -/
structure IsPlainName (name : String) : Prop where
  /-- It is one step. -/
  noSlash : '/' ∉ name.toList
  /-- It is not empty, not a dot, and not two dots. -/
  notDots : ¬ IsDots name.toList

/-- Whether a name is plain is decided by its characters. -/
instance (name : String) : Decidable (IsPlainName name) :=
  decidable_of_iff ('/' ∉ name.toList ∧ ¬ IsDots name.toList)
    ⟨fun ⟨hslash, hdots⟩ => ⟨hslash, hdots⟩, fun h => ⟨h.noSlash, h.notDots⟩⟩

/-- The name of an entry is plain. -/
theorem IsEntryName.isPlainName {name : String} (h : IsEntryName name) : IsPlainName name where
  noSlash := h.noSlash
  notDots := by
    have hidle := h.notIdle
    rintro (heq | heq | heq)
    · simp [heq, Path.isIdle] at hidle
    · simp [heq, Path.isIdle] at hidle
    · exact h.notParent heq

/-- A plain name is not empty. -/
theorem IsPlainName.nonempty {name : String} (h : IsPlainName name) : name.toList ≠ [] :=
  fun heq => h.notDots (Or.inl heq)

/-- A plain name is a relative text between slashes. -/
theorem IsPlainName.isInner {name : String} (h : IsPlainName name) : Path.IsInner name where
  nonempty := h.nonempty
  head hhead := h.noSlash (List.mem_of_mem_head? hhead)
  last hlast := h.noSlash (List.mem_of_mem_getLast? hlast)

namespace Path

variable {base : Path} {inner name : String} {step : List Char}

/-- A step stands for nothing if it is idle, for the directory around if it is two dots, and for a
name otherwise. -/
theorem innerComponent_eq (step : List Char) :
    innerComponent step =
      if isIdle step then none else if step = ['.', '.'] then some .parent
      else some (.name step) := by
  simp [innerComponent]

/-- A step that is no dots is a name. -/
theorem innerComponent_of_not_dots (h : ¬ IsDots step) :
    innerComponent step = some (.name step) := by
  obtain ⟨hempty, hdot, hdots⟩ : step ≠ [] ∧ step ≠ ['.'] ∧ step ≠ ['.', '.'] := by
    simpa [IsDots, not_or] using h
  simp [innerComponent, isIdle, hempty, hdot, hdots]

/-- A step at the start of a path that is no dots is a name. -/
theorem firstComponent_of_not_dots (h : ¬ IsDots step) (more : Bool) :
    firstComponent step more = some (.name step) := by
  obtain ⟨hempty, hdot, _⟩ : step ≠ [] ∧ step ≠ ['.'] ∧ step ≠ ['.', '.'] := by
    simpa [IsDots, not_or] using h
  rw [firstComponent, if_neg (by simpa using hempty), if_neg (by simpa using hdot),
    innerComponent_of_not_dots h]

/-- Only two dots stand for the directory around. -/
theorem innerComponent_eq_parent_iff : innerComponent step = some .parent ↔ step = ['.', '.'] := by
  rw [innerComponent_eq]
  split
  · rename_i hidle
    refine iff_of_false (by simp) ?_
    rintro rfl
    exact absurd hidle (by decide)
  · split <;> simp_all

/-- A path leads to a directory around in one of its steps if and only if one of them is two
dots. -/
theorem parent_mem_components_iff (path : Path) :
    Component.parent ∈ path.components ↔ ['.', '.'] ∈ path.segments := by
  obtain ⟨first, rest, hsegments⟩ := List.exists_cons_of_ne_nil
    (Text.splitWhere_ne_nil (· == '/') path.text.toList)
  have hsegments : path.segments = first :: rest := hsegments
  have hfirst : Component.parent ∈ (firstComponent first (!rest.isEmpty)).toList ↔
      first = ['.', '.'] := by
    rw [← innerComponent_eq_parent_iff, Option.mem_toList, firstComponent]
    split
    · rename_i hempty
      have hempty : first = [] := by simpa using hempty
      subst hempty
      split <;> simp [innerComponent, isIdle]
    · split
      · rename_i hdot
        have hdot : first = ['.'] := by simpa using hdot
        subst hdot
        simp [innerComponent, isIdle]
      · rfl
  rw [components, hsegments, componentsOf, List.mem_append, hfirst, List.mem_filterMap]
  simp only [innerComponent_eq_parent_iff, exists_eq_right, List.mem_cons]
  rw [eq_comm]

/-- Only a step that is no dots stands for a name, which is the step itself. -/
theorem innerComponent_eq_name_iff {text : List Char} :
    innerComponent step = some (.name text) ↔ step = text ∧ ¬ IsDots text := by
  constructor
  · intro h
    by_cases hdots : IsDots step
    · rcases hdots with rfl | rfl | rfl <;> cases h
    · rw [innerComponent_of_not_dots hdots] at h
      cases h
      exact ⟨rfl, hdots⟩
  · rintro ⟨rfl, hdots⟩
    exact innerComponent_of_not_dots hdots

/-- The name at the end of a path is plain. -/
theorem isPlainName_of_fileName? {path : Path} {text : List Char}
    (h : path.fileName? = some text) : IsPlainName (String.ofList text) := by
  have hmem : Component.name text ∈ path.components := by
    rw [fileName?] at h
    split at h
    · rename_i name hlast
      cases h
      exact List.mem_of_getLast? hlast
    · cases h
  -- the name is a step of the path, at its start or further on
  have hstep : ∃ step ∈ path.segments, innerComponent step = some (.name text) := by
    rw [components] at hmem
    cases hsegments : path.segments with
    | nil => simp [hsegments, componentsOf] at hmem
    | cons first rest =>
      rw [hsegments, componentsOf, List.mem_append, Option.mem_toList, List.mem_filterMap] at hmem
      rcases hmem with hfirst | ⟨step, hstep, hname⟩
      · refine ⟨first, List.mem_cons_self .., ?_⟩
        rw [firstComponent] at hfirst
        split at hfirst
        · split at hfirst <;> cases hfirst
        · split at hfirst
          · cases hfirst
          · exact hfirst
      · exact ⟨step, List.mem_cons_of_mem _ hstep, hname⟩
  obtain ⟨step, hstep, hname⟩ := hstep
  obtain ⟨rfl, hdots⟩ := innerComponent_eq_name_iff.mp hname
  exact {
    noSlash := fun hslash => by
      rw [String.toList_ofList] at hslash
      have hplain := Text.not_separator_of_mem_splitWhere hstep '/' hslash
      simp at hplain
    notDots := by rwa [String.toList_ofList] }

/-- A text starts with a slash if and only if its first step is empty and not its only one. -/
theorem head?_eq_slash_iff {text : List Char} :
    text.head? = some '/' ↔ ∃ rest, rest ≠ [] ∧ Text.split '/' text = [] :: rest := by
  cases text with
  | nil => simp [Text.split, Text.splitWhere]
  | cons c text =>
    rw [Text.split, Text.splitWhere]
    by_cases hc : c = '/'
    · subst hc
      simp [Text.splitWhere_ne_nil]
    · rw [if_neg (by simpa using hc)]
      obtain ⟨piece, pieces, hpieces⟩ := List.exists_cons_of_ne_nil
        (Text.splitWhere_ne_nil (· == '/') text)
      rw [hpieces]
      simp [hc]

/-- The components of some steps behind others: a dot at their start does not count. -/
theorem componentsOf_append {steps : List (List Char)} (hsteps : steps ≠ [])
    (inner : List (List Char)) :
    componentsOf (steps ++ inner) =
      (firstComponent (steps.head hsteps) (!(steps.tail ++ inner).isEmpty)).toList ++
        steps.tail.filterMap innerComponent ++ inner.filterMap innerComponent := by
  obtain ⟨first, rest, rfl⟩ := List.exists_cons_of_ne_nil hsteps
  rw [List.cons_append, componentsOf, List.filterMap_append, List.append_assoc]
  rfl

/-- What is joined to a path that is not empty adds its components to it, except that a dot at its
start does not count. -/
theorem exists_components_join (hbase : base.text ≠ "") :
    ∃ front, ∀ inner : String, inner.toList.head? ≠ some '/' →
      (base.join inner).components =
        front ++ (⟨inner⟩ : Path).segments.filterMap innerComponent := by
  obtain ⟨steps, _, hsteps, hjoin⟩ := exists_segments_join hbase
  refine ⟨(firstComponent (steps.head hsteps) true).toList ++
    steps.tail.filterMap innerComponent, fun inner hinner => ?_⟩
  have hmore : (!(steps.tail ++ (⟨inner⟩ : Path).segments).isEmpty) = true := by
    simp [segments, Text.split, Text.splitWhere_ne_nil]
  rw [components, hjoin inner hinner, componentsOf_append hsteps, hmore]

/-- A path to which a plain name is joined ends in the name. -/
theorem fileName?_join (base : Path) (hname : IsPlainName name) :
    (base.join name).fileName? = some name.toList := by
  by_cases hbase : base.text = ""
  · rw [join_of_empty hbase, fileName?, components, segments_of_noSlash hname.noSlash, componentsOf,
      firstComponent_of_not_dots hname.notDots]
    rfl
  · obtain ⟨front, hjoin⟩ := exists_components_join hbase
    rw [fileName?, hjoin name (head?_ne_slash hname.noSlash), segments_of_noSlash hname.noSlash,
      List.filterMap_cons_some (innerComponent_of_not_dots hname.notDots), List.filterMap_nil,
      List.getLast?_concat]

/-- A path to which plain names are joined ends in the last of them. -/
theorem fileName?_joins (base : Path) {names : List String}
    (hnames : ∀ name ∈ names, IsPlainName name) (hlast : names.getLast? = some name) :
    (base.joins names).fileName? = some name.toList := by
  obtain ⟨front, rfl⟩ := List.getLast?_eq_some_iff.mp hlast
  rw [joins, List.foldl_append]
  exact fileName?_join _ (hnames name (by simp))

/-- The extension of a path is that of the name it ends in. -/
theorem extension?_congr {path other : Path} (h : path.fileName? = other.fileName?) :
    path.extension? = other.extension? := by
  rw [extension?, extension?, h]

end Path

end CorpusFacts
