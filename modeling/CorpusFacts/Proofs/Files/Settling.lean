import CorpusFacts.Proofs.Files.Nesting

/-!
# What paths come to for good

Where no links are, a path that leads to something, or cannot be followed for another reason than
that nothing is there, comes to the same in every tree that the tree grows into. Making nested
directories settles the innermost path in this way, whether it succeeds or fails. So making them
again changes nothing, and it ends as before but for one case: what was in the way of a directory
around may now be in the way of the innermost one.
-/

namespace CorpusFacts.FileTree

variable {tree later : FileTree} {made written : List String → Prop} {followLast : Bool}
  {location place : List String} {first step : List Char} {steps more front idle : List (List Char)}
  {path : Path} {outer : List Path} {failure : FileFailure}
  {follow other : List String → List (List Char) → Except FileFailure Place}

/-- A tree has no links, and its working directory is there. -/
structure IsLinkless (tree : FileTree) : Prop where
  /-- There are no links. -/
  plain : ∀ location, tree.kindAt location ≠ some .link
  /-- The working directory is a directory. -/
  working : tree.isDirectoryAt tree.working = true

namespace IsLinkless

/-- No path meets a link. -/
theorem avoidsLinks (h : tree.IsLinkless) (path : Path) : tree.AvoidsLinks path :=
  fun spot _ => h.plain spot

/-- A tree without links grows into one without links. -/
theorem of_growsInKind (h : tree.IsLinkless) (hgrows : tree.GrowsInKind later made written) :
    later.IsLinkless where
  plain location := hgrows.kindAt_ne_link (h.plain location)
  working := by
    rw [hgrows.working]
    exact hgrows.isDirectoryAt h.working

/-- Steps start at a directory. -/
theorem isDirectoryAt_startAt (h : tree.IsLinkless) (first : List Char) :
    tree.isDirectoryAt (tree.startAt first) = true := by
  rw [startAt]
  split
  · exact isDirectoryAt_nil h.working
  · exact h.working

/-- Following a link at the end or not makes no difference. -/
theorem resolve_eq (h : tree.IsLinkless) (path : Path) :
    tree.resolve path false = tree.resolve path true := by
  obtain ⟨follow, hfollow⟩ := exists_follow tree false maxLinks
  obtain ⟨other, hother⟩ := exists_follow tree true maxLinks
  rw [resolve, resolve, hfollow, hother, resolveSteps_congr fun spot _ => ⟨rfl, h.plain spot⟩]

end IsLinkless

/-- Following steps has come to something that stays: they lead to something, or they fail for
another reason than that nothing is there. -/
def IsSettled : Except FileFailure Place → Prop
  | .ok (.existing _) => True
  | .ok (.absent ..) => False
  | .error failure => failure ≠ .notFound

/-- A path is settled unless it is not found. -/
theorem isSettled_resolve_iff :
    IsSettled (tree.resolve path true) ↔ tree.canonical path ≠ .error .notFound := by
  rw [canonical]
  cases tree.resolve path true with
  | error failure => simp [IsSettled]
  | ok found => cases found <;> simp [IsSettled]

namespace GrowsInKind

/-- Settled steps come to the same in a tree that has grown. -/
theorem resolveSteps_eq (h : tree.GrowsInKind later made written)
    (hplain : ∀ location, tree.kindAt location ≠ some .link)
    (hstart : tree.kindAt location ≠ none)
    (hsettled : IsSettled (tree.resolveSteps followLast follow location steps)) :
    later.resolveSteps followLast other location steps =
      tree.resolveSteps followLast follow location steps := by
  induction steps generalizing location with
  | nil => rw [resolveSteps, resolveSteps]
  | cons step steps ih =>
    have hdirectory : later.isDirectoryAt location = tree.isDirectoryAt location := by
      rw [Bool.eq_iff_iff, isDirectoryAt_iff_kindAt, isDirectoryAt_iff_kindAt, h.kindAt_eq hstart]
    rw [resolveSteps_cons (hplain _)] at hsettled ⊢
    rw [resolveSteps_cons (h.kindAt_ne_link (hplain _)), hdirectory]
    by_cases hhere : tree.isDirectoryAt location = false
    · rw [if_pos hhere, if_pos hhere]
    rw [if_neg hhere] at hsettled ⊢
    rw [if_neg hhere]
    by_cases hlong : maxNameBytes < Text.byteLength step
    · rw [if_pos hlong, if_pos hlong]
    rw [if_neg hlong] at hsettled ⊢
    rw [if_neg hlong]
    by_cases hnone : tree.root.at? (stepFrom location step) = none
    · rw [if_pos hnone] at hsettled
      split at hsettled
      · exact hsettled.elim
      · exact absurd rfl hsettled
    · rw [if_neg hnone] at hsettled ⊢
      have hnext : tree.kindAt (stepFrom location step) ≠ none :=
        mt at?_eq_none_iff_kindAt.mpr hnone
      rw [if_neg (mt at?_eq_none_iff_kindAt.mp (by rwa [h.kindAt_eq hnext])), ih hnext hsettled]

/-- A settled path comes to the same in a tree that has grown. -/
theorem resolve_eq (h : tree.GrowsInKind later made written) (hlinkless : tree.IsLinkless)
    (hsettled : tree.canonical path ≠ .error .notFound) (followLast : Bool) :
    later.resolve path followLast = tree.resolve path followLast := by
  have hfollowing : later.resolve path true = tree.resolve path true := by
    rw [← isSettled_resolve_iff] at hsettled
    by_cases hresolvable : IsResolvable path
    · obtain ⟨follow, hfollow⟩ := exists_resolveSteps tree true hresolvable
      obtain ⟨other, hother⟩ := exists_resolveSteps later true hresolvable
      have hstart := isDirectoryAt_startOf hlinkless.working path
      rw [isDirectoryAt_iff_kindAt] at hstart
      rw [hfollow] at hsettled ⊢
      rw [hother, h.startOf, h.resolveSteps_eq hlinkless.plain (by simp [hstart]) hsettled]
    · -- such a path fails before any step is taken
      rw [resolve, resolve]
      split
      · rfl
      · rename_i hnul
        split
        · rfl
        · rename_i hempty
          exact absurd ⟨by simpa using hempty, by simpa using hnul⟩ hresolvable
  cases followLast with
  | true => exact hfollowing
  | false =>
    rw [hlinkless.resolve_eq, (hlinkless.of_growsInKind h).resolve_eq, hfollowing]

/-- A settled path stands for the same location in a tree that has grown, if for any. -/
theorem canonical_eq (h : tree.GrowsInKind later made written) (hlinkless : tree.IsLinkless)
    (hsettled : tree.canonical path ≠ .error .notFound) :
    later.canonical path = tree.canonical path := by
  rw [canonical, canonical, h.resolve_eq hlinkless hsettled]

/-- A settled path leads to a directory as before. -/
theorem isDirectory_eq (h : tree.GrowsInKind later made written) (hlinkless : tree.IsLinkless)
    (hsettled : tree.canonical path ≠ .error .notFound) :
    later.isDirectory path = tree.isDirectory path := by
  rw [isDirectory, entry?, h.canonical_eq hlinkless hsettled, isDirectory, entry?]
  cases hcanonical : tree.canonical path with
  | error failure => rfl
  | ok location =>
    obtain ⟨entry, hentry, _⟩ := exists_plain_of_canonical hcanonical
    have hsome : tree.kindAt location ≠ none := by
      rw [Ne, ← at?_eq_none_iff_kindAt, hentry]
      simp
    change later.isDirectoryAt location = tree.isDirectoryAt location
    rw [Bool.eq_iff_iff, isDirectoryAt_iff_kindAt, isDirectoryAt_iff_kindAt, h.kindAt_eq hsome]

end GrowsInKind

/-- More steps go on from where the first ones lead. -/
theorem resolveSteps_append_of_existing (hplain : ∀ location, tree.kindAt location ≠ some .link)
    (h : tree.resolveSteps followLast follow location steps = .ok (.existing place)) :
    tree.resolveSteps followLast other location (steps ++ more) =
      tree.resolveSteps followLast other place more := by
  induction steps generalizing location with
  | nil =>
    rw [resolveSteps] at h
    cases h
    rfl
  | cons step steps ih =>
    obtain ⟨hdirectory, hshort, hsome, hlater⟩ := resolveSteps_cons_existing (hplain _) h
    rw [List.cons_append, resolveSteps_cons (hplain _), if_neg (by simp [hdirectory]),
      if_neg (Nat.not_lt.mpr hshort), if_neg hsome, ih hlater]

/-- Steps that fail do so whatever follows them. -/
theorem resolveSteps_append_of_error (hplain : ∀ location, tree.kindAt location ≠ some .link)
    (h : tree.resolveSteps followLast follow location steps = .error failure) :
    tree.resolveSteps followLast other location (steps ++ more) = .error failure := by
  induction steps generalizing location with
  | nil =>
    rw [resolveSteps] at h
    cases h
  | cons step steps ih =>
    rw [resolveSteps_cons (hplain _)] at h
    rw [List.cons_append, resolveSteps_cons (hplain _)]
    split at h
    · rename_i hhere
      rw [if_pos hhere, h]
    rename_i hhere
    rw [if_neg hhere]
    split at h
    · rename_i hlong
      rw [if_pos hlong, h]
    rename_i hshort
    rw [if_neg hshort]
    split at h
    · rename_i hnone
      rw [if_pos hnone]
      split at h
      · cases h
      · rename_i hmore
        have hall : ¬ ((steps ++ more).all fun step => step.isEmpty) = true := by
          rw [List.all_append, Bool.and_eq_true]
          exact fun hempty => hmore hempty.1
        rw [if_neg hall, h]
    · rename_i hsome
      rw [if_neg hsome, ih h]

/-- Idle steps in a directory lead nowhere else. -/
theorem resolveSteps_append_idle (hplain : ∀ location, tree.kindAt location ≠ some .link)
    (hdirectory : tree.isDirectoryAt location = true)
    (hidle : ∀ step ∈ idle, Path.isIdle step = true) :
    tree.resolveSteps followLast follow location (idle ++ more) =
      tree.resolveSteps followLast follow location more := by
  induction idle with
  | nil => rfl
  | cons step idle ih =>
    obtain ⟨hstep, hrest⟩ := List.forall_mem_cons.mp hidle
    have hshort := (isDirectoryAt_stepFrom hdirectory (Or.inl hstep)).2
    rw [List.cons_append, resolveSteps_cons (hplain _), stepFrom_of_isIdle hstep,
      if_neg (by simp [hdirectory]), if_neg (Nat.not_lt.mpr hshort),
      if_neg (at?_ne_none_of_isDirectoryAt hdirectory), ih hrest]

/-- One step from a directory leads to something or to where something can be made, unless it is too
long. -/
theorem resolveSteps_singleton_ne_notFound
    (hplain : ∀ location, tree.kindAt location ≠ some .link)
    (hdirectory : tree.isDirectoryAt location = true) (step : List Char) :
    tree.resolveSteps followLast follow location [step] ≠ .error .notFound := by
  rw [resolveSteps_cons (hplain _), if_neg (by simp [hdirectory])]
  split
  · simp
  · split
    · simp
    · rw [resolveSteps]
      simp

/-- A spelled path without NUL characters is resolved as the steps that spell it. -/
theorem IsLinkless.resolve_ofSegments (h : tree.IsLinkless) (hruns : Path.AreRuns (first :: front))
    (followLast : Bool) (follow : List String → List (List Char) → Except FileFailure Place) :
    tree.resolve (Path.ofSegments (first :: front)) followLast =
      tree.resolveSteps followLast follow (tree.startAt first) (first :: front) := by
  have hslashes : ∀ step ∈ first :: front, '/' ∉ step := fun step hstep => (hruns step hstep).1
  obtain ⟨other, hother⟩ := exists_resolveSteps tree followLast
    (isResolvable_ofSegments fun step hstep => (hruns step hstep).2)
  have hcongr : ∀ steps, tree.resolveSteps followLast other (tree.startAt first) steps =
      tree.resolveSteps followLast follow (tree.startAt first) steps := fun steps =>
    resolveSteps_congr fun spot _ => ⟨rfl, h.plain spot⟩
  rw [hother, startOf_ofSegments tree hslashes, hcongr]
  by_cases hroot : first :: front = [[]]
  · obtain ⟨rfl, rfl⟩ := List.cons.inj hroot
    have hidle : ∀ step ∈ [([] : List Char)], Path.isIdle step = true := by decide
    have hsegments : (Path.ofSegments [[]]).segments = [[]] ++ [[]] := by decide
    rw [hsegments, resolveSteps_append_idle h.plain (h.isDirectoryAt_startAt []) hidle]
  · rw [Path.segments_ofSegments (by simp) hroot hslashes]

/-- No steps fail because something is there. -/
theorem resolveSteps_ne_alreadyExists (hplain : ∀ location, tree.kindAt location ≠ some .link) :
    tree.resolveSteps followLast follow location steps ≠ .error .alreadyExists := by
  induction steps generalizing location with
  | nil => simp [resolveSteps]
  | cons step steps ih =>
    rw [resolveSteps_cons (hplain _)]
    split
    · simp
    split
    · simp
    split
    · split <;> simp
    · exact ih

/-- A path that stands for no location does so for another reason than that something is there. -/
theorem IsLinkless.canonical_ne_alreadyExists (h : tree.IsLinkless) (path : Path) :
    tree.canonical path ≠ .error .alreadyExists := by
  obtain ⟨follow, hfollow⟩ := exists_follow tree true maxLinks
  have hresolve : tree.resolve path true ≠ .error .alreadyExists := by
    rw [resolve, hfollow]
    split
    · simp
    split
    · simp
    · exact resolveSteps_ne_alreadyExists h.plain
  rw [canonical]
  split
  · simp
  · simp
  · rename_i failure hfailure
    rintro hfails
    cases hfails
    exact hresolve hfailure

/-- Something has a path if the path stands for a location. -/
theorem exists?_iff :
    tree.exists? path = true ↔ ∃ location, tree.canonical path = .ok location := by
  rw [exists?, entry?]
  cases hcanonical : tree.canonical path with
  | error failure => simp
  | ok location =>
    obtain ⟨entry, hentry, _⟩ := exists_plain_of_canonical hcanonical
    simp [hentry]

/-- A path that cannot be followed leads to no directory. -/
theorem isDirectory_of_error (h : tree.canonical path = .error failure) :
    tree.isDirectory path = false := by
  rw [isDirectory, entry?, h]

/-- Where steps lead to a name that does not exist, they lead there in a tree that has grown, to
what has been put there. What slashes follow must be a directory. -/
theorem GrowsInKind.resolveSteps_of_absent (h : tree.GrowsInKind later made written)
    (hplain : ∀ location, tree.kindAt location ≠ some .link) {directory : List String}
    {name : String} {asDirectory : Bool}
    (habsent : tree.resolveSteps followLast follow location steps =
      .ok (.absent directory name asDirectory))
    (hnew : asDirectory = false ∨ later.isDirectoryAt (directory ++ [name]) = true) :
    later.resolveSteps followLast other location steps =
      if later.root.at? (directory ++ [name]) = none then .ok (.absent directory name asDirectory)
      else .ok (.existing (directory ++ [name])) := by
  have hlaterPlain := fun location => h.kindAt_ne_link (hplain location)
  induction steps generalizing location with
  | nil =>
    rw [resolveSteps] at habsent
    cases habsent
  | cons step steps ih =>
    obtain ⟨hhere, hshort, hcases⟩ := resolveSteps_cons_absent (hplain _) habsent
    rw [resolveSteps_cons (hlaterPlain _), if_neg (by simp [h.isDirectoryAt hhere]),
      if_neg (Nat.not_lt.mpr hshort)]
    rcases hcases with ⟨hnone, hslashes, rfl, rfl, rfl⟩ | ⟨hsome, hlater⟩
    · rw [← stepFrom_of_absent hhere hnone] at hnew ⊢
      rw [if_pos hslashes]
      refine ite_congr rfl (fun _ => rfl) fun _ => ?_
      rcases hnew with hend | hdirectory
      · obtain rfl : steps = [] := by simpa using hend
        rw [resolveSteps]
      · have hidle : ∀ step ∈ steps, Path.isIdle step = true := by
          intro step hstep
          obtain rfl : step = [] := by simpa using List.all_eq_true.mp hslashes step hstep
          rfl
        rw [← List.append_nil steps, resolveSteps_append_idle hlaterPlain hdirectory hidle,
          resolveSteps]
    · have hkept := h.kindAt_eq (mt at?_eq_none_iff_kindAt.mpr hsome)
      rw [if_neg (mt at?_eq_none_iff_kindAt.mp (by rwa [hkept, ← at?_eq_none_iff_kindAt])),
        ih hlater]

/-- A directory that was made is where its path leads. -/
theorem IsLinkless.isDirectory_of_makeDirectory (h : tree.IsLinkless)
    (hmade : tree.makeDirectory path = .ok later) : later.isDirectory path = true := by
  obtain ⟨directory, name, asDirectory, hfound, rfl⟩ := exists_of_makeDirectory hmade
  rw [h.resolve_eq] at hfound
  obtain ⟨hdirectory, hnone⟩ := absent_of_resolve hfound
  have hgrows := (growsTo_put_directory hdirectory hnone).inKind
  have hnew := isDirectoryAt_put hdirectory name
  have hresolvable := isResolvable_of_resolve hfound
  obtain ⟨follow, hfollow⟩ := exists_resolveSteps tree true hresolvable
  obtain ⟨other, hother⟩ := exists_resolveSteps (tree.put directory name (.directory [])) true
    hresolvable
  rw [hfollow] at hfound
  rw [isDirectory, entry?, canonical, hother, hgrows.startOf,
    hgrows.resolveSteps_of_absent h.plain hfound (Or.inr hnew),
    if_neg (at?_ne_none_of_isDirectoryAt hnew)]
  exact hnew

/-- A directory is not made where its path stands for a location. -/
theorem IsLinkless.makeDirectory_of_canonical (h : tree.IsLinkless)
    (hcanonical : tree.canonical path = .ok location) :
    tree.makeDirectory path = .error .alreadyExists := by
  rw [makeDirectory, h.resolve_eq, resolve_of_canonical hcanonical]
  rfl

/-- A path that cannot be followed is not resolved. -/
theorem resolve_of_canonical_error (h : tree.canonical path = .error failure)
    (hfound : failure ≠ .notFound) : tree.resolve path true = .error failure := by
  rw [canonical] at h
  split at h
  · cases h
  · cases h
    exact absurd rfl hfound
  · rename_i other hother
    cases h
    exact hother

/-- A directory is not made where its path cannot be followed. -/
theorem IsLinkless.makeDirectory_of_error (h : tree.IsLinkless)
    (hcanonical : tree.canonical path = .error failure) (hfound : failure ≠ .notFound) :
    tree.makeDirectory path = .error failure := by
  have hresolve := resolve_of_canonical_error hcanonical hfound
  rw [makeDirectory, h.resolve_eq, hresolve]
  rfl

/-- Making a directory finds those around it where its path is found, or fails otherwise. -/
theorem IsLinkless.makeDirectory_ne_of_resolve (h : tree.IsLinkless)
    (hfound : tree.resolve path true ≠ .error .notFound) :
    tree.makeDirectory path ≠ .error .notFound := by
  rw [makeDirectory, h.resolve_eq]
  cases hpath : tree.resolve path true with
  | error failure =>
    rintro hfails
    cases hfails
    exact hfound hpath
  | ok found => cases found <;> simp [bind, Except.bind]

/-- Making nested directories ends with the innermost one unless that is not found. -/
theorem makeNested_of_error (hmade : tree.makeDirectory path = .error failure)
    (hfound : failure ≠ .notFound) (outer : List Path) :
    tree.makeNested (path :: outer) =
      (tree, if tree.isDirectory path then .ok () else .error failure) := by
  rw [makeNested, hmade]
  cases failure with
  | notFound => exact absurd rfl hfound
  | _ => rfl

/-- How making nested directories leaves the path of the innermost one. -/
inductive Settles (tree : FileTree) (path : Path) : Except FileFailure Unit → Prop
  /-- The directory is there. -/
  | there (hdirectory : tree.isDirectory path = true) : Settles tree path (.ok ())
  /-- Something else has the path. -/
  | taken {location : List String} (hcanonical : tree.canonical path = .ok location)
      (hother : tree.isDirectory path = false) : Settles tree path (.error .alreadyExists)
  /-- The path cannot be followed. -/
  | fails {failure : FileFailure} (hcanonical : tree.canonical path = .error failure)
      (hfound : failure ≠ .notFound) : Settles tree path (.error failure)
  /-- Something else has the path of a directory around it. -/
  | blocked (hcanonical : tree.canonical path = .error .notADirectory) :
      Settles tree path (.error .alreadyExists)

/-- Making a directory settles its path, unless one around it is not there. -/
theorem IsLinkless.settles_single (h : tree.IsLinkless)
    (hfound : tree.makeDirectory path ≠ .error .notFound) :
    Settles (tree.makeNested [path]).1 path (tree.makeNested [path]).2 := by
  cases hcanonical : tree.canonical path with
  | ok location =>
    rw [makeNested_of_error (h.makeDirectory_of_canonical hcanonical) (by simp)]
    cases hdirectory : tree.isDirectory path with
    | true => exact .there hdirectory
    | false => exact .taken hcanonical hdirectory
  | error failure =>
    by_cases hnone : failure = .notFound
    · obtain ⟨made, hmade⟩ : ∃ made, tree.makeDirectory path = .ok made := by
        rw [makeDirectory, h.resolve_eq] at hfound ⊢
        rw [canonical, hnone] at hcanonical
        cases hresolve : tree.resolve path true with
        | error other =>
          rw [hresolve] at hfound hcanonical
          cases hcanonical
          exact absurd rfl hfound
        | ok found =>
          rw [hresolve] at hcanonical
          cases found with
          | existing location => cases hcanonical
          | absent directory name asDirectory => exact ⟨_, rfl⟩
      rw [makeNested, hmade]
      exact .there (h.isDirectory_of_makeDirectory hmade)
    · rw [makeNested_of_error (h.makeDirectory_of_error hcanonical hnone) hnone,
        isDirectory_of_error hcanonical]
      exact .fails hcanonical hnone

/-- Where making the directory of a spelled path does not find those around it, there are no NUL
characters in its steps. -/
theorem areRuns_of_notFound (hslashes : ∀ step ∈ first :: front, '/' ∉ step)
    (hnone : tree.makeDirectory (Path.ofSegments (first :: front)) = .error .notFound) :
    Path.AreRuns (first :: front) := by
  have hnul : '\x00' ∉ (Path.ofSegments (first :: front)).text.toList := by
    intro hnul
    rw [makeDirectory, resolve, if_pos (by simpa using hnul)] at hnone
    cases hnone
  by_cases hroot : first :: front = [[]]
  · rw [hroot, Path.AreRuns]
    decide
  · have hruns := Path.areRuns_segments hnul
    rwa [Path.segments_ofSegments (by simp) hroot hslashes] at hruns

/-- A path leads on from the directory around it, by idle steps and one more. -/
theorem IsLinkless.exists_inner (h : tree.IsLinkless)
    (hruns : Path.AreRuns (first :: (front ++ [step])))
    (follow : List String → List (List Char) → Except FileFailure Place) :
    ∃ steps idle, (∀ step ∈ idle, Path.isIdle step = true) ∧
      tree.resolve (Path.ofSegments (Path.dropIdleEnd (first :: front))) true =
        tree.resolveSteps true follow (tree.startAt first) steps ∧
      tree.resolve (Path.ofSegments (first :: (front ++ [step]))) true =
        tree.resolveSteps true follow (tree.startAt first) (steps ++ (idle ++ [step])) := by
  obtain ⟨rest, idle, hdrop, hfront, hidle, _⟩ := Path.exists_dropIdleEnd first front
  have hsteps : first :: (front ++ [step]) = (first :: rest) ++ (idle ++ [step]) := by
    rw [hfront]
    simp
  refine ⟨first :: rest, idle, hidle, ?_, ?_⟩
  · rw [hdrop, h.resolve_ofSegments (fun other hother => hruns other ?_) true follow]
    rw [hsteps]
    exact List.mem_append_left _ hother
  · rw [h.resolve_ofSegments hruns true follow, hsteps]

/-- A path cannot be followed where that of the directory around it cannot. -/
theorem IsLinkless.inner_of_error (h : tree.IsLinkless)
    (hruns : Path.AreRuns (first :: (front ++ [step])))
    (houter : tree.canonical (Path.ofSegments (Path.dropIdleEnd (first :: front))) =
      .error failure) (hfound : failure ≠ .notFound) :
    tree.canonical (Path.ofSegments (first :: (front ++ [step]))) = .error failure := by
  obtain ⟨steps, idle, _, hresolve, hinner⟩ := h.exists_inner hruns fun _ _ => .error .notFound
  rw [resolve_of_canonical_error houter hfound] at hresolve
  rw [canonical, hinner, resolveSteps_append_of_error h.plain hresolve.symm]

/-- A path cannot be followed where that of the directory around it leads to something else. -/
theorem IsLinkless.inner_of_other (h : tree.IsLinkless)
    (hruns : Path.AreRuns (first :: (front ++ [step])))
    (houter : tree.canonical (Path.ofSegments (Path.dropIdleEnd (first :: front))) = .ok location)
    (hother : tree.isDirectoryAt location = false) :
    tree.canonical (Path.ofSegments (first :: (front ++ [step]))) = .error .notADirectory := by
  obtain ⟨steps, idle, _, hresolve, hinner⟩ := h.exists_inner hruns fun _ _ => .error .notFound
  rw [resolve_of_canonical houter] at hresolve
  obtain ⟨next, rest, hmore⟩ := List.exists_cons_of_ne_nil (l := idle ++ [step]) (by simp)
  rw [canonical, hinner, resolveSteps_append_of_existing h.plain hresolve.symm, hmore,
    resolveSteps_cons (h.plain _), if_pos hother]

/-- A path is found, or made, in the directory that the path around it leads to. -/
theorem IsLinkless.inner_of_directory (h : tree.IsLinkless)
    (hruns : Path.AreRuns (first :: (front ++ [step])))
    (houter : tree.isDirectory (Path.ofSegments (Path.dropIdleEnd (first :: front))) = true) :
    tree.makeDirectory (Path.ofSegments (first :: (front ++ [step]))) ≠ .error .notFound := by
  obtain ⟨location, hlocation, hdirectory⟩ := location_of_isDirectory houter
  obtain ⟨steps, idle, hidle, hresolve, hinner⟩ := h.exists_inner hruns fun _ _ => .error .notFound
  rw [resolve_of_canonical hlocation] at hresolve
  have hfound : tree.resolve (Path.ofSegments (first :: (front ++ [step]))) true ≠
      .error .notFound := by
    rw [hinner, resolveSteps_append_of_existing h.plain hresolve.symm,
      resolveSteps_append_idle h.plain hdirectory hidle]
    exact resolveSteps_singleton_ne_notFound h.plain hdirectory step
  exact h.makeDirectory_ne_of_resolve hfound

/-- Making nested directories settles the path of the innermost one. -/
theorem IsLinkless.settles (h : tree.IsLinkless)
    (hslashes : ∀ step ∈ first :: front, '/' ∉ step) :
    Settles (tree.makeNested (Path.around first front)).1
      (Path.ofSegments (Path.dropIdleEnd (first :: front)))
      (tree.makeNested (Path.around first front)).2 := by
  induction front using List.reverseRecOn with
  | nil =>
    rw [Path.around_nil]
    refine h.settles_single fun hnone => ?_
    have hruns := areRuns_of_notFound hslashes hnone
    refine h.makeDirectory_ne_of_resolve ?_ hnone
    rw [h.resolve_ofSegments hruns true fun _ _ => .error .notFound]
    exact resolveSteps_singleton_ne_notFound h.plain (h.isDirectoryAt_startAt first) first
  | append_singleton front step ih =>
    have hfront : ∀ other ∈ first :: front, '/' ∉ other := fun other hother =>
      hslashes other (by rw [← List.cons_append]; exact List.mem_append_left _ hother)
    rw [Path.around_concat, Path.dropIdleEnd_concat]
    by_cases hidle : Path.isIdle step = true
    · rw [if_pos hidle, if_pos hidle]
      exact ih hfront
    rw [if_neg hidle, if_neg hidle]
    obtain ⟨hhere, haround⟩ := makeNested_cons tree
      (Path.ofSegments (first :: (front ++ [step]))) (Path.around first front)
    by_cases hnone : tree.makeDirectory (Path.ofSegments (first :: (front ++ [step]))) =
        .error .notFound
    · have hruns := areRuns_of_notFound hslashes hnone
      have houter := ih hfront
      obtain ⟨hfails, hgoes⟩ := haround hnone
      have hgrows : tree.GrowsTo (tree.makeNested (Path.around first front)).1 (fun _ => True)
          fun _ => False := growsTo_makeNested fun _ _ _ _ _ _ _ _ => trivial
      have hlinkless := h.of_growsInKind hgrows.inKind
      generalize hresult : (tree.makeNested (Path.around first front)).2 = result at houter
      cases houter with
      | there hdirectory =>
        rw [hgoes hresult]
        exact hlinkless.settles_single (hlinkless.inner_of_directory hruns hdirectory)
      | taken hcanonical hother =>
        rw [hfails _ hresult, hresult]
        refine .blocked (hlinkless.inner_of_other hruns hcanonical ?_)
        rwa [isDirectory, entry?, hcanonical] at hother
      | fails hcanonical hfound =>
        rw [hfails _ hresult, hresult]
        exact .fails (hlinkless.inner_of_error hruns hcanonical hfound) hfound
      | blocked hcanonical =>
        rw [hfails _ hresult, hresult]
        exact .blocked (hlinkless.inner_of_error hruns hcanonical (by simp))
    · rw [hhere hnone]
      exact h.settles_single hnone

/-- Where the innermost of some nested directories is settled, making them later changes nothing. It
ends as before, unless it failed because something was there that the path no longer leads to. -/
theorem Settles.again {result : Except FileFailure Unit} (hsettles : Settles tree path result)
    (h : tree.IsLinkless) (hgrows : tree.GrowsInKind later made written) (outer : List Path) :
    (later.makeNested (path :: outer)).1 = later ∧
      ((later.makeNested (path :: outer)).2 = result ↔
        (result = .error .alreadyExists → later.exists? path = true)) := by
  have hlater := h.of_growsInKind hgrows
  cases hsettles with
  | there hdirectory =>
    obtain ⟨location, hcanonical, _⟩ := location_of_isDirectory hdirectory
    have hsettled : tree.canonical path ≠ .error .notFound := by simp [hcanonical]
    rw [← hgrows.canonical_eq h hsettled] at hcanonical
    rw [makeNested_of_error (hlater.makeDirectory_of_canonical hcanonical) (by simp),
      hgrows.isDirectory_eq h hsettled, hdirectory]
    simp
  | taken hcanonical hother =>
    have hsettled : tree.canonical path ≠ .error .notFound := by simp [hcanonical]
    rw [← hgrows.canonical_eq h hsettled] at hcanonical
    rw [makeNested_of_error (hlater.makeDirectory_of_canonical hcanonical) (by simp),
      hgrows.isDirectory_eq h hsettled, hother]
    exact ⟨rfl, iff_of_true rfl fun _ => exists?_iff.mpr ⟨_, hcanonical⟩⟩
  | fails hcanonical hfound =>
    have hsettled : tree.canonical path ≠ .error .notFound := by simpa [hcanonical] using hfound
    have hother := h.canonical_ne_alreadyExists path
    rw [hcanonical, Ne, Except.error.injEq] at hother
    rw [← hgrows.canonical_eq h hsettled] at hcanonical
    rw [makeNested_of_error (hlater.makeDirectory_of_error hcanonical hfound) hfound,
      isDirectory_of_error hcanonical]
    exact ⟨rfl, iff_of_true rfl fun hexists =>
      absurd (Except.error.inj hexists) hother⟩
  | blocked hcanonical =>
    have hsettled : tree.canonical path ≠ .error .notFound := by simp [hcanonical]
    rw [← hgrows.canonical_eq h hsettled] at hcanonical
    rw [makeNested_of_error (hlater.makeDirectory_of_error hcanonical (by simp)) (by simp),
      isDirectory_of_error hcanonical]
    refine ⟨rfl, iff_of_false (by simp) fun hexists => ?_⟩
    obtain ⟨location, hlocation⟩ := exists?_iff.mp (hexists rfl)
    rw [hcanonical] at hlocation
    cases hlocation

end CorpusFacts.FileTree
