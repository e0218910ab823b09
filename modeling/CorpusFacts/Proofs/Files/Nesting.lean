import CorpusFacts.Proofs.Files.Around
import CorpusFacts.Proofs.Files.Likeness

/-!
# Making nested directories

A way is open where each location on it is one of a directory or has nothing. Making the directories
of an open way, and of those around it, always ends alike, whichever of them are there before:
unless a name is too long, all of them are there in the end.
-/

namespace CorpusFacts.FileTree

variable {tree later : FileTree} {followLast asDirectory : Bool} {location directory : List String}
  {step first : List Char} {steps front : List (List Char)} {path : Path} {name : String}
  {follow : List String → List (List Char) → Except FileFailure Place}

/-- There is nothing but directories on a way. -/
def IsOpen (tree : FileTree) (location : List String) (steps : List (List Char)) : Prop :=
  ∀ spot ∈ spotsFrom location steps, tree.isDirectoryAt spot = true ∨ tree.kindAt spot = none

/-- All steps are short enough. -/
def AreShort (steps : List (List Char)) : Prop :=
  ∀ step ∈ steps, Text.byteLength step ≤ maxNameBytes

/-- How the steps of an open way are resolved. -/
inductive OpenEnd (tree : FileTree) (location : List String) (steps : List (List Char)) :
    Except FileFailure Place → Prop
  /-- Every directory is there. -/
  | there (hway : ∀ spot ∈ spotsFrom location steps, tree.isDirectoryAt spot = true)
      (hshort : AreShort steps) :
      OpenEnd tree location steps (.ok (.existing (placeFrom location steps)))
  /-- Only the last directory is not there. -/
  | absent {directory : List String} {name : String} {asDirectory : Bool}
      (hplace : directory ++ [name] = placeFrom location steps)
      (hdirectory : tree.isDirectoryAt directory = true)
      (hnone : tree.root.at? (directory ++ [name]) = none)
      (hway : ∀ spot ∈ spotsFrom location steps,
        tree.isDirectoryAt spot = true ∨ spot = placeFrom location steps)
      (hshort : AreShort steps) :
      OpenEnd tree location steps (.ok (.absent directory name asDirectory))
  /-- A name is too long. -/
  | long (hlong : ¬ AreShort steps) : OpenEnd tree location steps (.error .nameTooLong)
  /-- A directory that is not the last one is not there. -/
  | missing {spot : List String} (hspot : spot ∈ spotsFrom location steps.dropLast)
      (hnone : tree.kindAt spot = none) : OpenEnd tree location steps (.error .notFound)

/-- Steps that are not taken lead through one location. -/
theorem mem_spotsFrom_of_empty {spot : List String} (h : steps.all (·.isEmpty) = true)
    (hspot : spot ∈ spotsFrom location steps) : spot = location := by
  induction steps with
  | nil => exact List.mem_singleton.mp hspot
  | cons step steps ih =>
    obtain ⟨hstep, hsteps⟩ := Bool.and_eq_true_iff.mp h
    obtain rfl : step = [] := by simpa using hstep
    rcases List.mem_cons.mp hspot with rfl | hspot
    · rfl
    · exact ih hsteps hspot

/-- Empty steps are short. -/
theorem areShort_of_empty (h : steps.all (·.isEmpty) = true) : AreShort steps := by
  intro step hstep
  obtain rfl : step = [] := by simpa using List.all_eq_true.mp h step hstep
  decide

/-- Steps are resolved as those behind a step from one directory to another. -/
theorem OpenEnd.cons {result : Except FileFailure Place}
    (h : OpenEnd tree (stepFrom location step) steps result)
    (hstart : tree.isDirectoryAt location = true)
    (hnext : tree.isDirectoryAt (stepFrom location step) = true)
    (hstep : Text.byteLength step ≤ maxNameBytes) :
    OpenEnd tree location (step :: steps) result := by
  cases h with
  | there hway hshort =>
    exact .there (List.forall_mem_cons.mpr ⟨hstart, hway⟩)
      (List.forall_mem_cons.mpr ⟨hstep, hshort⟩)
  | absent hplace hdirectory hnone hway hshort =>
    exact .absent hplace hdirectory hnone (List.forall_mem_cons.mpr ⟨Or.inl hstart, hway⟩)
      (List.forall_mem_cons.mpr ⟨hstep, hshort⟩)
  | long hlong => exact .long fun hshort => hlong (List.forall_mem_cons.mp hshort).2
  | missing hspot hnone =>
    refine .missing ?_ hnone
    cases steps with
    | nil =>
      rw [List.mem_singleton.mp hspot] at hnone
      exact absurd (at?_eq_none_iff_kindAt.mpr hnone) (at?_ne_none_of_isDirectoryAt hnext)
    | cons next steps => exact List.mem_cons_of_mem _ hspot

/-- The steps of an open way without links are resolved in one of four ways. -/
theorem resolveSteps_openEnd (followLast : Bool)
    (follow : List String → List (List Char) → Except FileFailure Place)
    (hplain : ∀ location, tree.kindAt location ≠ some .link)
    (hstart : tree.isDirectoryAt location = true) (hopen : tree.IsOpen location steps) :
    OpenEnd tree location steps (tree.resolveSteps followLast follow location steps) := by
  induction steps generalizing location with
  | nil =>
    rw [resolveSteps]
    exact .there (by simpa [spotsFrom] using hstart) (by simp [AreShort])
  | cons step steps ih =>
    obtain ⟨_, hrest⟩ := List.forall_mem_cons.mp hopen
    rw [resolveSteps_cons (hplain _), if_neg (by simp [hstart])]
    split
    · rename_i hlong
      refine .long fun hshort => ?_
      have := hshort step (List.mem_cons_self ..)
      omega
    rename_i hlong
    have hstep : Text.byteLength step ≤ maxNameBytes := by omega
    split
    · rename_i hnone
      split
      · rename_i hslashes
        have hplace : placeFrom location (step :: steps) = stepFrom location step :=
          placeFrom_of_empty hslashes
        have hname := stepFrom_of_absent hstart hnone
        refine .absent (by rw [hplace, hname]) hstart (by rwa [← hname]) (fun spot hspot => ?_)
          (List.forall_mem_cons.mpr ⟨hstep, areShort_of_empty hslashes⟩)
        rcases List.mem_cons.mp hspot with rfl | hspot
        · exact Or.inl hstart
        · rw [hplace]
          exact Or.inr (mem_spotsFrom_of_empty hslashes hspot)
      · rename_i hmore
        have hne : steps ≠ [] := by
          rintro rfl
          exact hmore rfl
        have hmissing : tree.kindAt (stepFrom location step) = none :=
          at?_eq_none_iff_kindAt.mp hnone
        refine .missing ?_ hmissing
        rw [List.dropLast_cons_of_ne_nil hne]
        exact List.mem_cons_of_mem _ (mem_spotsFrom_start _ _)
    · rename_i hsome
      have hnext : tree.isDirectoryAt (stepFrom location step) = true := by
        refine (hrest _ (mem_spotsFrom_start _ _)).resolve_right fun hnone => hsome ?_
        exact at?_eq_none_iff_kindAt.mpr hnone
      exact (ih hnext hrest).cons hstart hnext hstep

/-- Steps between directories can be taken if they are short. -/
theorem isPassable_of_directories
    (hway : ∀ spot ∈ spotsFrom location steps, tree.isDirectoryAt spot = true)
    (hshort : AreShort steps) : tree.IsPassable location steps := by
  induction steps generalizing location with
  | nil => trivial
  | cons step steps ih =>
    obtain ⟨hhere, hrest⟩ := List.forall_mem_cons.mp hway
    obtain ⟨hstep, hsteps⟩ := List.forall_mem_cons.mp hshort
    exact ⟨hhere, hstep, ih hrest hsteps⟩

/-- Steps that can be taken are short. -/
theorem areShort_of_isPassable (h : tree.IsPassable location steps) : AreShort steps := by
  induction steps generalizing location with
  | nil => simp [AreShort]
  | cons step steps ih =>
    obtain ⟨_, hstep, hrest⟩ := h
    exact List.forall_mem_cons.mpr ⟨hstep, ih hrest⟩

/-- How the directory of a path with an open way is made. -/
inductive MakeEnd (tree : FileTree) (path : Path) : Except FileFailure FileTree → Prop
  /-- The last directory on the way is made. -/
  | made {later : FileTree} (hgrows : tree.GrowsTo later (· = tree.placeOf path) fun _ => False)
      (hway : ∀ spot ∈ tree.spotsOf path, later.isDirectoryAt spot = true)
      (hshort : AreShort path.segments) : MakeEnd tree path (.ok later)
  /-- Every directory is there. -/
  | there (hdirectory : tree.isDirectory path = true)
      (hway : ∀ spot ∈ tree.spotsOf path, tree.isDirectoryAt spot = true)
      (hshort : AreShort path.segments) : MakeEnd tree path (.error .alreadyExists)
  /-- A name is too long. -/
  | long (hlong : ¬ AreShort path.segments) (hnone : tree.isDirectory path = false) :
      MakeEnd tree path (.error .nameTooLong)
  /-- A directory that is not the last one is not there. -/
  | missing {spot : List String}
      (hspot : spot ∈ spotsFrom (tree.startOf path) path.segments.dropLast)
      (hnone : tree.kindAt spot = none) : MakeEnd tree path (.error .notFound)

/-- The directory of a path with an open way is made in one of four ways. -/
theorem makeDirectory_end (hplain : ∀ location, tree.kindAt location ≠ some .link)
    (hresolvable : IsResolvable path) (hstart : tree.isDirectoryAt (tree.startOf path) = true)
    (hopen : tree.IsOpen (tree.startOf path) path.segments) :
    MakeEnd tree path (tree.makeDirectory path) := by
  obtain ⟨follow, hfollow⟩ := exists_resolveSteps tree false hresolvable
  have hends := resolveSteps_openEnd false follow hplain hstart hopen
  rw [← hfollow] at hends
  rw [makeDirectory]
  generalize tree.resolve path false = result at hends
  cases hends with
  | there hway hshort =>
    refine .there ?_ hway hshort
    have hpassable : tree.IsPassable (tree.startOf path) path.segments :=
      isPassable_of_directories hway hshort
    have havoids : tree.AvoidsLinks path := fun spot _ => hplain spot
    exact havoids.isDirectory_iff.mpr ⟨hresolvable, hpassable, hway _ (placeFrom_mem_spotsFrom _ _)⟩
  | @absent directory name _ hplace hdirectory hnone hway hshort =>
    have hgrows := growsTo_put_directory hdirectory hnone
    have hat := isDirectoryAt_put hdirectory name
    rw [hplace] at hgrows hat
    refine .made hgrows (fun spot hspot => ?_) hshort
    rcases hway spot hspot with hspot | rfl
    · exact hgrows.isDirectoryAt hspot
    · exact hat
  | long hlong =>
    refine .long hlong ?_
    by_contra hdirectory
    have havoids : tree.AvoidsLinks path := fun spot _ => hplain spot
    obtain ⟨_, hpassable, _⟩ := havoids.isDirectory_iff.mp (by simpa using hdirectory)
    exact hlong (areShort_of_isPassable hpassable)
  | missing hspot hnone => exact .missing hspot hnone

/-- Steps start where they started. -/
theorem GrowsTo.startAt {made written : List String → Prop} (h : tree.GrowsTo later made written)
    (first : List Char) : later.startAt first = tree.startAt first := by
  rw [FileTree.startAt, FileTree.startAt, h.working]

/-- A way stays open when directories are made. -/
theorem GrowsTo.isOpen {made : List String → Prop}
    (h : tree.GrowsTo later made fun _ => False) (hopen : tree.IsOpen location steps) :
    later.IsOpen location steps := by
  intro spot hspot
  rcases h.faces spot with hsame | ⟨_, _, hnew⟩ | ⟨hwritten, _⟩
  · refine (hopen spot hspot).imp (fun hdirectory => h.isDirectoryAt hdirectory) fun hnone => ?_
    rwa [kindAt, hsame]
  · exact Or.inl (isDirectoryAt_iff_faceAt.mpr hnew)
  · exact hwritten.elim

/-- A spelled path is short if its steps are. -/
theorem areShort_ofSegments (hruns : ∀ step ∈ first :: front, '/' ∉ step) :
    AreShort (Path.ofSegments (first :: front)).segments ↔ AreShort (first :: front) := by
  by_cases hroot : first :: front = [[]]
  · obtain ⟨rfl, rfl⟩ := List.cons.inj hroot
    exact iff_of_true (areShort_of_empty (by decide)) (areShort_of_empty (by decide))
  · rw [Path.segments_ofSegments (by simp) hroot hruns]

/-- A spelled path without NUL characters can be resolved. -/
theorem isResolvable_ofSegments (hnoNul : ∀ step ∈ first :: front, '\x00' ∉ step) :
    IsResolvable (Path.ofSegments (first :: front)) where
  nonempty := Path.ofSegments_ne_empty first front
  noNul := by
    rw [Path.toList_ofSegments]
    split
    · decide
    · intro hnul
      rcases Text.of_mem_intercalate hnul with heq | ⟨step, hstep, hmem⟩
      · exact absurd heq (by decide)
      · exact hnoNul step hstep hmem

/-- The directory of a spelled path with an open way is made in one of four ways. -/
theorem makeDirectory_ofSegments (hplain : ∀ location, tree.kindAt location ≠ some .link)
    (hruns : Path.AreRuns (first :: front))
    (hstart : tree.isDirectoryAt (tree.startAt first) = true)
    (hopen : tree.IsOpen (tree.startAt first) (first :: front)) :
    MakeEnd tree (Path.ofSegments (first :: front))
      (tree.makeDirectory (Path.ofSegments (first :: front))) := by
  have hslashes : ∀ step ∈ first :: front, '/' ∉ step := fun step hstep => (hruns step hstep).1
  refine makeDirectory_end hplain (isResolvable_ofSegments fun step hstep => (hruns step hstep).2)
    ?_ fun spot hspot => ?_
  · rwa [startOf_ofSegments tree hslashes]
  · exact hopen spot (((spotsOf_ofSegments tree hslashes).2 spot).mp hspot)

/-- An idle step at the end leads through no other location. -/
theorem mem_spotsFrom_concat_idle {spot : List String} (hidle : Path.isIdle step = true) :
    spot ∈ spotsFrom location (steps ++ [step]) ↔ spot ∈ spotsFrom location steps := by
  rw [mem_spotsFrom_append, spotsFrom, spotsFrom, stepFrom_of_isIdle hidle]
  simp only [List.mem_cons, List.not_mem_nil, or_false, or_self]
  refine or_iff_left_of_imp ?_
  rintro rfl
  exact placeFrom_mem_spotsFrom _ _

/-- What making the directories of some steps comes to: unless a name is too long, all are there in
the end. -/
structure Makes (result : FileTree × Except FileFailure Unit) (location : List String)
    (steps : List (List Char)) : Prop where
  /-- If all names are short, all directories are there. -/
  short : AreShort steps → result.2 = .ok () ∧
    ∀ spot ∈ spotsFrom location steps, result.1.isDirectoryAt spot = true
  /-- A name that is too long is what fails. -/
  long : ¬ AreShort steps → result.2 = .error .nameTooLong

/-- Making a directory goes on with those around it only if one of them is not there. -/
theorem makeNested_cons (tree : FileTree) (path : Path) (outer : List Path) :
    (tree.makeDirectory path ≠ .error .notFound →
      tree.makeNested (path :: outer) = tree.makeNested [path]) ∧
    (tree.makeDirectory path = .error .notFound →
      (∀ failure, (tree.makeNested outer).2 = .error failure →
        tree.makeNested (path :: outer) = tree.makeNested outer) ∧
      ((tree.makeNested outer).2 = .ok () →
        tree.makeNested (path :: outer) = (tree.makeNested outer).1.makeNested [path])) := by
  rw [makeNested, makeNested]
  cases hmade : tree.makeDirectory path with
  | ok made => exact ⟨fun _ => rfl, fun h => by cases h⟩
  | error failure =>
    cases failure with
    | notFound =>
      refine ⟨fun h => absurd rfl h, fun _ => ?_⟩
      obtain ⟨later, result⟩ := tree.makeNested outer
      cases result with
      | error failure => exact ⟨fun _ _ => rfl, fun h => by cases h⟩
      | ok =>
        refine ⟨fun _ h => (by cases h), fun _ => ?_⟩
        simp only [makeNested]
        cases later.makeDirectory path with
        | ok made => rfl
        | error failure => cases failure <;> rfl
    | _ => exact ⟨fun _ => rfl, fun h => by cases h⟩

/-- Making the last directory of an open way if all before it are there, or else without a failure
that one is not found. -/
theorem makes_single (hplain : ∀ location, tree.kindAt location ≠ some .link)
    (hruns : Path.AreRuns (first :: front))
    (hstart : tree.isDirectoryAt (tree.startAt first) = true)
    (hopen : tree.IsOpen (tree.startAt first) (first :: front))
    (hfound : tree.makeDirectory (Path.ofSegments (first :: front)) ≠ .error .notFound) :
    Makes (tree.makeNested [Path.ofSegments (first :: front)]) (tree.startAt first)
      (first :: front) := by
  have hslashes : ∀ step ∈ first :: front, '/' ∉ step := fun step hstep => (hruns step hstep).1
  have hspots := (spotsOf_ofSegments tree hslashes).2
  have hshortIff := areShort_ofSegments hslashes
  have hend := makeDirectory_ofSegments hplain hruns hstart hopen
  rw [makeNested]
  generalize tree.makeDirectory (Path.ofSegments (first :: front)) = result at hend hfound ⊢
  cases hend with
  | made hgrows hway hshort =>
    exact ⟨fun _ => ⟨rfl, fun spot hspot => hway spot ((hspots spot).mpr hspot)⟩,
      fun hlong => absurd (hshortIff.mp hshort) hlong⟩
  | there hdirectory hway hshort =>
    refine ⟨fun _ => ⟨by simp [hdirectory], fun spot hspot => ?_⟩,
      fun hlong => absurd (hshortIff.mp hshort) hlong⟩
    exact hway spot ((hspots spot).mpr hspot)
  | long hlong hnone =>
    exact ⟨fun hshort => absurd (hshortIff.mpr hshort) hlong, fun _ => by simp [hnone]⟩
  | missing => exact absurd rfl hfound

/-- Where all directories before the last one of a way are there, none is not found. -/
theorem makeDirectory_ne_notFound (hplain : ∀ location, tree.kindAt location ≠ some .link)
    (hruns : Path.AreRuns (first :: front))
    (hstart : tree.isDirectoryAt (tree.startAt first) = true)
    (hopen : tree.IsOpen (tree.startAt first) (first :: front))
    (hway : ∀ spot ∈ spotsFrom (tree.startAt first) (first :: front).dropLast,
      tree.isDirectoryAt spot = true) :
    tree.makeDirectory (Path.ofSegments (first :: front)) ≠ .error .notFound := by
  have hslashes : ∀ step ∈ first :: front, '/' ∉ step := fun step hstep => (hruns step hstep).1
  have hend := makeDirectory_ofSegments hplain hruns hstart hopen
  intro hmissing
  rw [hmissing] at hend
  cases hend with
  | @missing spot hspot hnone =>
    rw [startOf_ofSegments tree hslashes] at hspot
    refine absurd (at?_eq_none_iff_kindAt.mpr hnone) (at?_ne_none_of_isDirectoryAt ?_)
    by_cases hroot : first :: front = [[]]
    · obtain ⟨rfl, rfl⟩ := List.cons.inj hroot
      obtain rfl := mem_spotsFrom_of_empty (by decide) hspot
      exact hstart
    · rw [Path.segments_ofSegments (by simp) hroot hslashes] at hspot
      exact hway spot hspot

/-- An idle step at the end makes no difference to what making directories comes to. -/
theorem Makes.concat_idle {result : FileTree × Except FileFailure Unit}
    (h : Makes result location steps) (hidle : Path.isIdle step = true)
    (hstep : Text.byteLength step ≤ maxNameBytes) :
    Makes result location (steps ++ [step]) := by
  have hshortIff : AreShort (steps ++ [step]) ↔ AreShort steps := by
    rw [AreShort, List.forall_mem_append]
    exact and_iff_left (by simpa using hstep)
  constructor
  · intro hshort
    obtain ⟨hok, hway⟩ := h.short (hshortIff.mp hshort)
    exact ⟨hok, fun spot hspot => hway spot ((mem_spotsFrom_concat_idle hidle).mp hspot)⟩
  · exact fun hlong => h.long fun hshort => hlong (hshortIff.mpr hshort)

/-- Where the directories before the last one of an open way were made, the last one is made. -/
theorem makes_last (hgrows : tree.GrowsTo later (fun _ => True) fun _ => False)
    (hplain : ∀ location, tree.kindAt location ≠ some .link)
    (hruns : Path.AreRuns (first :: front))
    (hstart : tree.isDirectoryAt (tree.startAt first) = true)
    (hopen : tree.IsOpen (tree.startAt first) (first :: front))
    (hway : ∀ spot ∈ spotsFrom (tree.startAt first) (first :: front).dropLast,
      later.isDirectoryAt spot = true) :
    Makes (later.makeNested [Path.ofSegments (first :: front)]) (tree.startAt first)
      (first :: front) := by
  have hlaterPlain : ∀ location, later.kindAt location ≠ some .link :=
    fun location => hgrows.kindAt_ne_link (hplain location)
  have hlaterStart := hgrows.isDirectoryAt hstart
  have hlaterOpen := hgrows.isOpen hopen
  rw [← hgrows.startAt first] at hlaterStart hlaterOpen hway ⊢
  exact makes_single hlaterPlain hruns hlaterStart hlaterOpen
    (makeDirectory_ne_notFound hlaterPlain hruns hlaterStart hlaterOpen hway)

/-- Making the directories that the steps of an open way spell: unless a name is too long, all are
there in the end. -/
theorem makeNested_open (hplain : ∀ location, tree.kindAt location ≠ some .link)
    (hruns : Path.AreRuns (first :: front))
    (hstart : tree.isDirectoryAt (tree.startAt first) = true)
    (hopen : tree.IsOpen (tree.startAt first) (first :: front)) :
    Makes (tree.makeNested (Path.around first front)) (tree.startAt first) (first :: front) := by
  induction front using List.reverseRecOn with
  | nil =>
    rw [Path.around_nil]
    refine makes_single hplain hruns hstart hopen (makeDirectory_ne_notFound hplain hruns hstart
      hopen fun spot hspot => ?_)
    rw [List.mem_singleton.mp hspot]
    exact hstart
  | append_singleton front step ih =>
    rw [← List.cons_append] at hruns hopen
    have houter : Makes (tree.makeNested (Path.around first front)) (tree.startAt first)
        (first :: front) := by
      refine ih (fun other hother => hruns other (List.mem_append_left _ hother))
        fun spot hspot => hopen spot ?_
      rw [mem_spotsFrom_append]
      exact Or.inl hspot
    rw [Path.around_concat, ← List.cons_append]
    by_cases hidle : Path.isIdle step = true
    · rw [if_pos hidle]
      exact houter.concat_idle hidle (isDirectoryAt_stepFrom hstart (Or.inl hidle)).2
    rw [if_neg hidle]
    obtain ⟨hfound, hmissing⟩ := makeNested_cons tree
      (Path.ofSegments (first :: front ++ [step])) (Path.around first front)
    by_cases hnone : tree.makeDirectory (Path.ofSegments (first :: front ++ [step])) =
        .error .notFound
    · obtain ⟨hfails, hgoes⟩ := hmissing hnone
      by_cases hshort : AreShort (first :: front)
      · -- the directories around are there then, so that the last one can be made
        obtain ⟨hok, hway⟩ := houter.short hshort
        rw [hgoes hok]
        refine makes_last (growsTo_makeNested fun _ _ _ _ _ _ _ _ => trivial) hplain hruns hstart
          hopen fun spot (hspot : spot ∈ spotsFrom _ (first :: front ++ [step]).dropLast) => ?_
        rw [List.dropLast_concat] at hspot
        exact hway spot hspot
      · refine ⟨fun hall => absurd (fun other hother => ?_) hshort,
          fun _ => by rw [hfails _ (houter.long hshort), houter.long hshort]⟩
        exact hall other (List.mem_append_left _ hother)
    · rw [hfound hnone]
      exact makes_single hplain hruns hstart hopen hnone

end CorpusFacts.FileTree
