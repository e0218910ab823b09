import CorpusFacts.Proofs.Files.Lookup
import CorpusFacts.Proofs.Files.PlainNames
import CorpusFacts.Proofs.Files.Resolution

/-!
# Ways without links

Where no link is met, the steps of a path say by themselves which locations they lead through and
where they end. Resolving such a path ends there, and depends on nothing but what kinds of entries
lie on the way.
-/

namespace CorpusFacts

/-- What sort of thing an entry is. -/
inductive Entry.Kind where
  /-- A file. -/
  | file
  /-- A link. -/
  | link
  /-- A directory. -/
  | directory
  deriving DecidableEq

/-- The kind of what is seen of an entry. -/
def Entry.Face.kind : Entry.Face → Entry.Kind
  | .file _ => .file
  | .link _ => .link
  | .directory => .directory

namespace FileTree

/-- The kind of what lies at a location. -/
def kindAt (tree : FileTree) (location : List String) : Option Entry.Kind :=
  (tree.faceAt location).map (·.kind)

/-- Where a step leads from a location if it does not lead to a link. -/
def stepFrom (location : List String) (step : List Char) : List String :=
  if Path.isIdle step then location
  else if step = ['.', '.'] then location.dropLast
  else location ++ [String.ofList step]

/-- Where steps lead from a location if they meet no link. -/
def placeFrom (location : List String) (steps : List (List Char)) : List String :=
  steps.foldl stepFrom location

/-- The locations that steps lead through if they meet no link, the first and the last included. -/
def spotsFrom : (location : List String) → List (List Char) → List (List String)
  | location, [] => [location]
  | location, step :: steps => location :: spotsFrom (stepFrom location step) steps

/-- Where a path leads if it meets no link. -/
def placeOf (tree : FileTree) (path : Path) : List String :=
  placeFrom (tree.startOf path) path.segments

/-- The locations that a path leads through if it meets no link. -/
def spotsOf (tree : FileTree) (path : Path) : List (List String) :=
  spotsFrom (tree.startOf path) path.segments

/-- There is no link on the way of a path. -/
def AvoidsLinks (tree : FileTree) (path : Path) : Prop :=
  ∀ spot ∈ tree.spotsOf path, tree.kindAt spot ≠ some .link

/-- Whether there is a link on the way of a path is decided by a look at every location on it. -/
instance (tree : FileTree) (path : Path) : Decidable (tree.AvoidsLinks path) :=
  inferInstanceAs (Decidable (∀ spot ∈ tree.spotsOf path, tree.kindAt spot ≠ some .link))

/-- Steps can be taken from a location: each is taken from a directory, and none is too long. -/
def IsPassable (tree : FileTree) : (location : List String) → List (List Char) → Prop
  | _, [] => True
  | location, step :: steps => tree.isDirectoryAt location = true ∧
      Text.byteLength step ≤ maxNameBytes ∧ tree.IsPassable (stepFrom location step) steps

variable {tree later : FileTree} {followLast : Bool} {location directory place : List String}
  {steps more : List (List Char)} {step : List Char} {path : Path} {name : String}
  {asDirectory : Bool}
  {follow other : List String → List (List Char) → Except FileFailure Place}

/-- A location is one of a directory if that is the kind of what lies there. -/
theorem isDirectoryAt_iff_kindAt :
    tree.isDirectoryAt location = true ↔ tree.kindAt location = some .directory := by
  rw [isDirectoryAt_iff_faceAt, kindAt]
  cases tree.faceAt location with
  | none => simp
  | some face => cases face <;> simp [Entry.Face.kind]

/-- Nothing lies where there is no kind. -/
theorem at?_eq_none_iff_kindAt : tree.root.at? location = none ↔ tree.kindAt location = none := by
  rw [at?_eq_none_iff, kindAt, Option.map_eq_none_iff]

/-- A link lies where its kind does. -/
theorem kindAt_eq_link_iff :
    tree.kindAt location = some .link ↔ ∃ target, tree.root.at? location = some (.link target) := by
  simp only [at?_eq_link_iff, kindAt]
  cases tree.faceAt location with
  | none => simp
  | some face => cases face <;> simp [Entry.Face.kind]

/-- A file lies where its kind does. -/
theorem kindAt_eq_file_iff : tree.kindAt location = some .file ↔
    ∃ content, tree.root.at? location = some (.file content) := by
  simp only [at?_eq_file_iff, kindAt]
  cases tree.faceAt location with
  | none => simp
  | some face => cases face <;> simp [Entry.Face.kind]

theorem stepFrom_of_isIdle (h : Path.isIdle step = true) : stepFrom location step = location := by
  rw [stepFrom, if_pos h]

theorem stepFrom_parent : stepFrom location ['.', '.'] = location.dropLast := by
  rw [stepFrom, if_neg (by decide), if_pos rfl]

theorem stepFrom_of_name (hidle : Path.isIdle step = false) (hparent : step ≠ ['.', '.']) :
    stepFrom location step = location ++ [String.ofList step] := by
  rw [stepFrom, if_neg (by simp [hidle]), if_neg hparent]

/-- The first location on a way is where it starts. -/
theorem mem_spotsFrom_start (location : List String) (steps : List (List Char)) :
    location ∈ spotsFrom location steps := by
  cases steps <;> simp [spotsFrom]

/-- The last location on a way is where it ends. -/
theorem placeFrom_mem_spotsFrom (location : List String) (steps : List (List Char)) :
    placeFrom location steps ∈ spotsFrom location steps := by
  induction steps generalizing location with
  | nil => exact List.mem_singleton_self _
  | cons step steps ih => exact List.mem_cons_of_mem _ (ih _)

/-- More steps lead on from where the first ones end. -/
theorem placeFrom_append (location : List String) (steps more : List (List Char)) :
    placeFrom location (steps ++ more) = placeFrom (placeFrom location steps) more :=
  List.foldl_append

/-- The way of more steps goes on from where the first ones end. -/
theorem mem_spotsFrom_append {spot : List String} :
    spot ∈ spotsFrom location (steps ++ more) ↔
      spot ∈ spotsFrom location steps ∨ spot ∈ spotsFrom (placeFrom location steps) more := by
  induction steps generalizing location with
  | nil =>
    simp only [List.nil_append, spotsFrom, List.mem_singleton, placeFrom, List.foldl_nil]
    refine ⟨Or.inr, ?_⟩
    rintro (rfl | h)
    · exact mem_spotsFrom_start _ _
    · exact h
  | cons step steps ih =>
    rw [List.cons_append, spotsFrom, spotsFrom, List.mem_cons, ih, List.mem_cons, or_assoc]
    rfl

/-- More steps can be taken after others if they can be taken from where those end. -/
theorem isPassable_append :
    tree.IsPassable location (steps ++ more) ↔
      tree.IsPassable location steps ∧ tree.IsPassable (placeFrom location steps) more := by
  induction steps generalizing location with
  | nil => simp [IsPassable, placeFrom]
  | cons step steps ih =>
    rw [List.cons_append, IsPassable, IsPassable, ih, and_assoc, and_assoc]
    rfl

/-- Steps that are not taken stay where they are. -/
theorem placeFrom_of_empty (h : steps.all (·.isEmpty) = true) :
    placeFrom location steps = location := by
  induction steps with
  | nil => rfl
  | cons step steps ih =>
    obtain ⟨hstep, hsteps⟩ := Bool.and_eq_true_iff.mp h
    obtain rfl : step = [] := by simpa using hstep
    exact ih hsteps

/-- An idle step and two dots lead from a directory to a directory, and are short. -/
theorem isDirectoryAt_stepFrom (hdirectory : tree.isDirectoryAt location = true)
    (hstep : Path.isIdle step = true ∨ step = ['.', '.']) :
    tree.isDirectoryAt (stepFrom location step) = true ∧ Text.byteLength step ≤ maxNameBytes := by
  rcases hstep with hidle | rfl
  · rw [stepFrom_of_isIdle hidle]
    rcases Bool.or_eq_true_iff.mp hidle with hempty | hdot
    · obtain rfl : step = [] := by simpa using hempty
      exact ⟨hdirectory, by decide⟩
    · obtain rfl : step = ['.'] := by simpa using hdot
      exact ⟨hdirectory, by decide⟩
  · rw [stepFrom_parent]
    exact ⟨isDirectoryAt_dropLast hdirectory, by decide⟩

/-- There is something at the location of a directory. -/
theorem at?_ne_none_of_isDirectoryAt (h : tree.isDirectoryAt location = true) :
    tree.root.at? location ≠ none := by
  obtain ⟨entries, hentries⟩ := exists_entries h
  simp [hentries]

/-- A step that leads from a directory to where there is nothing is a name. -/
theorem stepFrom_of_absent (hstart : tree.isDirectoryAt location = true)
    (hnone : tree.root.at? (stepFrom location step) = none) :
    stepFrom location step = location ++ [String.ofList step] := by
  by_cases hidle : Path.isIdle step = true ∨ step = ['.', '.']
  · exact absurd hnone (at?_ne_none_of_isDirectoryAt (isDirectoryAt_stepFrom hstart hidle).1)
  · obtain ⟨hidle, hparent⟩ := not_or.mp hidle
    exact stepFrom_of_name (by simpa using hidle) hparent

/-- One step of resolving a path where it meets no link: it is taken from a directory, it is not too
long, and it leads to something unless nothing but slashes follow. -/
theorem resolveSteps_cons (hplain : tree.kindAt (stepFrom location step) ≠ some .link) :
    tree.resolveSteps followLast follow location (step :: steps) =
      if tree.isDirectoryAt location = false then .error .notADirectory
      else if maxNameBytes < Text.byteLength step then .error .nameTooLong
      else if tree.root.at? (stepFrom location step) = none then
        if steps.all (·.isEmpty) then
          .ok (.absent location (String.ofList step) (!steps.isEmpty))
        else .error .notFound
      else tree.resolveSteps followLast follow (stepFrom location step) steps := by
  rw [resolveSteps]
  by_cases hdirectory : tree.isDirectoryAt location = false
  · rw [if_pos (by simpa using hdirectory), if_pos hdirectory]
  rw [if_neg (by simpa using hdirectory), if_neg hdirectory]
  have hdirectory : tree.isDirectoryAt location = true := by simpa using hdirectory
  by_cases hstep : Path.isIdle step = true ∨ step = ['.', '.']
  · obtain ⟨hplace, hshort⟩ := isDirectoryAt_stepFrom hdirectory hstep
    have hnext := at?_ne_none_of_isDirectoryAt hplace
    by_cases hidle : Path.isIdle step = true
    · rw [if_pos hidle, if_neg (Nat.not_lt.mpr hshort), if_neg hnext, stepFrom_of_isIdle hidle]
    · obtain rfl := hstep.resolve_left hidle
      rw [if_neg hidle, if_pos (by simp), if_neg (Nat.not_lt.mpr hshort), if_neg hnext,
        stepFrom_parent]
  · obtain ⟨hidle, hparent⟩ := not_or.mp hstep
    rw [stepFrom_of_name (by simpa using hidle) hparent] at hplain ⊢
    rw [if_neg hidle, if_neg (by simpa using hparent)]
    by_cases hlong : maxNameBytes < Text.byteLength step
    · rw [if_pos hlong, if_pos hlong]
    rw [if_neg hlong, if_neg hlong]
    cases hentry : tree.root.at? (location ++ [String.ofList step]) with
    | none => simp only [hentry, if_true]
    | some entry =>
      cases entry with
      | link target => exact absurd (kindAt_eq_link_iff.mpr ⟨target, hentry⟩) hplain
      | file content => simp [hentry]
      | directory entries => simp [hentry]

/-- Steps lead to something only if the first one leads to something, and the others do from there. -/
theorem resolveSteps_cons_existing (hplain : tree.kindAt (stepFrom location step) ≠ some .link)
    (h : tree.resolveSteps followLast follow location (step :: steps) = .ok (.existing place)) :
    tree.isDirectoryAt location = true ∧ Text.byteLength step ≤ maxNameBytes ∧
      tree.root.at? (stepFrom location step) ≠ none ∧
      tree.resolveSteps followLast follow (stepFrom location step) steps =
        .ok (.existing place) := by
  rw [resolveSteps_cons hplain] at h
  split at h
  · cases h
  split at h
  · cases h
  split at h
  · split at h <;> cases h
  · rename_i hdirectory hshort hsome
    exact ⟨by simpa using hdirectory, Nat.not_lt.mp hshort, hsome, h⟩

/-- Steps lead to a name that does not exist if the first one does and nothing but slashes follow,
or if the others do from where the first one leads. -/
theorem resolveSteps_cons_absent (hplain : tree.kindAt (stepFrom location step) ≠ some .link)
    (h : tree.resolveSteps followLast follow location (step :: steps) =
      .ok (.absent directory name asDirectory)) :
    tree.isDirectoryAt location = true ∧ Text.byteLength step ≤ maxNameBytes ∧
      (tree.root.at? (stepFrom location step) = none ∧ steps.all (·.isEmpty) = true ∧
          location = directory ∧ String.ofList step = name ∧ (!steps.isEmpty) = asDirectory ∨
        tree.root.at? (stepFrom location step) ≠ none ∧
          tree.resolveSteps followLast follow (stepFrom location step) steps =
            .ok (.absent directory name asDirectory)) := by
  rw [resolveSteps_cons hplain] at h
  split at h
  · cases h
  split at h
  · cases h
  rename_i hdirectory hshort
  refine ⟨by simpa using hdirectory, Nat.not_lt.mp hshort, ?_⟩
  split at h
  · rename_i hnone
    split at h
    · rename_i hslashes
      exact Or.inl ⟨hnone, hslashes, by simpa using h⟩
    · cases h
  · rename_i hsome
    exact Or.inr ⟨hsome, h⟩

/-- Resolving steps depends only on the kinds of what they lead through, if that is no link. -/
theorem resolveSteps_congr {otherLast : Bool} (hkinds : ∀ spot ∈ spotsFrom location steps,
      tree.kindAt spot = later.kindAt spot ∧ tree.kindAt spot ≠ some .link) :
    tree.resolveSteps followLast follow location steps =
      later.resolveSteps otherLast other location steps := by
  induction steps generalizing location with
  | nil => rw [resolveSteps, resolveSteps]
  | cons step steps ih =>
    obtain ⟨hhere, _⟩ := hkinds location (mem_spotsFrom_start _ _)
    have hrest : ∀ spot ∈ spotsFrom (stepFrom location step) steps,
        tree.kindAt spot = later.kindAt spot ∧ tree.kindAt spot ≠ some .link :=
      fun spot hspot => hkinds spot (List.mem_cons_of_mem _ hspot)
    obtain ⟨hnext, hplain⟩ := hrest _ (mem_spotsFrom_start _ _)
    have hdirectory : tree.isDirectoryAt location = later.isDirectoryAt location := by
      rw [Bool.eq_iff_iff, isDirectoryAt_iff_kindAt, isDirectoryAt_iff_kindAt, hhere]
    rw [resolveSteps_cons hplain, resolveSteps_cons (hnext ▸ hplain), hdirectory, ih hrest]
    simp only [at?_eq_none_iff_kindAt, hnext]

/-- Where steps that meet no link lead to something, they can be taken, and they lead to their
place. -/
theorem of_resolveSteps_existing (hplain : ∀ spot ∈ spotsFrom location steps,
      tree.kindAt spot ≠ some .link)
    (h : tree.resolveSteps followLast follow location steps = .ok (.existing place)) :
    place = placeFrom location steps ∧ tree.IsPassable location steps := by
  induction steps generalizing location with
  | nil =>
    rw [resolveSteps] at h
    cases h
    exact ⟨rfl, trivial⟩
  | cons step steps ih =>
    have hrest : ∀ spot ∈ spotsFrom (stepFrom location step) steps,
        tree.kindAt spot ≠ some .link :=
      fun spot hspot => hplain spot (List.mem_cons_of_mem _ hspot)
    obtain ⟨hdirectory, hshort, -, hlater⟩ :=
      resolveSteps_cons_existing (hrest _ (mem_spotsFrom_start _ _)) h
    obtain ⟨hplace, hpassable⟩ := ih hrest hlater
    exact ⟨hplace, hdirectory, hshort, hpassable⟩

/-- Where steps that meet no link lead to a name that does not exist, they lead to the place of that
name in its directory, and all but slashes at the end can be taken. -/
theorem of_resolveSteps_absent (hplain : ∀ spot ∈ spotsFrom location steps,
      tree.kindAt spot ≠ some .link)
    (h : tree.resolveSteps followLast follow location steps =
      .ok (.absent directory name asDirectory)) :
    directory ++ [name] = placeFrom location steps ∧ tree.isDirectoryAt directory = true ∧
      tree.root.at? (directory ++ [name]) = none ∧
      (asDirectory = false → tree.IsPassable location steps) := by
  induction steps generalizing location with
  | nil =>
    rw [resolveSteps] at h
    cases h
  | cons step steps ih =>
    have hrest : ∀ spot ∈ spotsFrom (stepFrom location step) steps,
        tree.kindAt spot ≠ some .link :=
      fun spot hspot => hplain spot (List.mem_cons_of_mem _ hspot)
    obtain ⟨hdirectory, hshort, ⟨hnone, hslashes, rfl, rfl, rfl⟩ | ⟨-, hlater⟩⟩ :=
      resolveSteps_cons_absent (hrest _ (mem_spotsFrom_start _ _)) h
    · have hname := stepFrom_of_absent hdirectory hnone
      have hplace : placeFrom location (step :: steps) = stepFrom location step :=
        placeFrom_of_empty hslashes
      refine ⟨by rw [hplace, hname], hdirectory, by rwa [← hname], fun hend => ?_⟩
      obtain rfl : steps = [] := by simpa using hend
      exact ⟨hdirectory, hshort, trivial⟩
    · obtain ⟨hplace, haround, hnone, hpassable⟩ := ih hrest hlater
      exact ⟨hplace, haround, hnone, fun hend => ⟨hdirectory, hshort, hpassable hend⟩⟩

/-- Steps that meet no link and can be taken lead to what lies at their place. -/
theorem resolveSteps_of_isPassable (hplain : ∀ spot ∈ spotsFrom location steps,
      tree.kindAt spot ≠ some .link) (hpassable : tree.IsPassable location steps)
    (hplace : tree.root.at? (placeFrom location steps) ≠ none) :
    tree.resolveSteps followLast follow location steps =
      .ok (.existing (placeFrom location steps)) := by
  induction steps generalizing location with
  | nil => rw [resolveSteps]; rfl
  | cons step steps ih =>
    obtain ⟨hdirectory, hshort, hrestPassable⟩ := hpassable
    have hrest : ∀ spot ∈ spotsFrom (stepFrom location step) steps,
        tree.kindAt spot ≠ some .link :=
      fun spot hspot => hplain spot (List.mem_cons_of_mem _ hspot)
    have hnext : tree.root.at? (stepFrom location step) ≠ none := by
      cases steps with
      | nil => exact hplace
      | cons next steps => exact at?_ne_none_of_isDirectoryAt hrestPassable.1
    rw [resolveSteps_cons (hrest _ (mem_spotsFrom_start _ _)), if_neg (by simp [hdirectory]),
      if_neg (by omega), if_neg hnext, ih hrest hrestPassable hplace]
    rfl

/-- Resolving a path depends only on the kinds of what it leads through, if that is no link. -/
theorem resolve_congr (hworking : tree.working = later.working)
    (hkinds : ∀ spot ∈ tree.spotsOf path,
      tree.kindAt spot = later.kindAt spot ∧ tree.kindAt spot ≠ some .link) :
    tree.resolve path followLast = later.resolve path followLast := by
  have hstart : later.startOf path = tree.startOf path := by rw [startOf, startOf, hworking]
  obtain ⟨follow, hfollow⟩ := exists_follow tree followLast maxLinks
  obtain ⟨other, hother⟩ := exists_follow later followLast maxLinks
  rw [resolve, resolve]
  split
  · rfl
  split
  · rfl
  change tree.resolveFrom followLast maxLinks (tree.startOf path) path.segments =
    later.resolveFrom followLast maxLinks (later.startOf path) path.segments
  rw [hstart, hfollow, hother]
  exact resolveSteps_congr hkinds

/-- Resolving a path is resolving its steps from where it starts. -/
theorem exists_resolveSteps (tree : FileTree) (followLast : Bool)
    (hresolvable : IsResolvable path) :
    ∃ follow, tree.resolve path followLast =
      tree.resolveSteps followLast follow (tree.startOf path) path.segments := by
  obtain ⟨follow, hfollow⟩ := exists_follow tree followLast maxLinks
  refine ⟨follow, ?_⟩
  rw [resolve, if_neg (by simpa using hresolvable.noNul),
    if_neg (by simpa using hresolvable.nonempty), ← hfollow]
  rfl

/-- Only a path that can be resolved leads anywhere. -/
theorem isResolvable_of_resolve {found : Place} (h : tree.resolve path followLast = .ok found) :
    IsResolvable path := by
  rw [resolve] at h
  split at h
  · cases h
  · rename_i hnul
    split at h
    · cases h
    · rename_i hempty
      exact ⟨by simpa using hempty, by simpa using hnul⟩

/-- Where a path that meets no link leads to something, that lies at its place. -/
theorem AvoidsLinks.of_resolve_existing (h : tree.AvoidsLinks path)
    (hresolve : tree.resolve path followLast = .ok (.existing place)) :
    place = tree.placeOf path ∧ tree.IsPassable (tree.startOf path) path.segments := by
  obtain ⟨follow, hfollow⟩ := exists_resolveSteps tree followLast
    (isResolvable_of_resolve hresolve)
  rw [hfollow] at hresolve
  exact of_resolveSteps_existing h hresolve

/-- Where a path that meets no link leads to a name that does not exist, that is the name of its
place. -/
theorem AvoidsLinks.of_resolve_absent (h : tree.AvoidsLinks path)
    (hresolve : tree.resolve path followLast = .ok (.absent directory name asDirectory)) :
    directory ++ [name] = tree.placeOf path ∧ tree.isDirectoryAt directory = true ∧
      tree.root.at? (directory ++ [name]) = none ∧
      (asDirectory = false → tree.IsPassable (tree.startOf path) path.segments) := by
  obtain ⟨follow, hfollow⟩ := exists_resolveSteps tree followLast
    (isResolvable_of_resolve hresolve)
  rw [hfollow] at hresolve
  exact of_resolveSteps_absent h hresolve

/-- A path that meets no link and can be taken stands for its place if something lies there. -/
theorem AvoidsLinks.canonical_eq (h : tree.AvoidsLinks path) (hresolvable : IsResolvable path)
    (hpassable : tree.IsPassable (tree.startOf path) path.segments)
    (hplace : tree.root.at? (tree.placeOf path) ≠ none) :
    tree.canonical path = .ok (tree.placeOf path) := by
  obtain ⟨follow, hfollow⟩ := exists_resolveSteps tree true hresolvable
  rw [canonical, hfollow, resolveSteps_of_isPassable h hpassable hplace]
  rfl

/-- An idle step at the end leads nowhere else. -/
theorem placeFrom_append_idle (location : List String) (steps : List (List Char)) :
    placeFrom location (steps ++ [[]]) = placeFrom location steps := by
  rw [placeFrom_append]
  rfl

/-- The steps of a path to which a relative text is joined are those to its place, with no more
locations on their way, and then those of the text. -/
theorem exists_steps_join (tree : FileTree) (base : Path) :
    ∃ steps, tree.placeOf base = placeFrom (tree.startOf base) steps ∧
      (∀ spot ∈ spotsFrom (tree.startOf base) steps, spot ∈ tree.spotsOf base) ∧
      ∀ inner : String, inner.toList.head? ≠ some '/' →
        tree.startOf (base.join inner) = tree.startOf base ∧
        (base.join inner).segments = steps ++ (⟨inner⟩ : Path).segments := by
  by_cases hbase : base.text = ""
  · have hrelative : base.isAbsolute = false := by simp [Path.isAbsolute, hbase]
    have hsegments : base.segments = [[]] := by rw [Path.segments, hbase]; rfl
    refine ⟨[], by rw [placeOf, hsegments]; rfl, fun spot hspot => ?_, fun inner hinner => ?_⟩
    · rw [List.mem_singleton.mp hspot]
      exact mem_spotsFrom_start _ _
    · have hinnerRelative : (⟨inner⟩ : Path).isAbsolute = false := by
        simpa [Path.isAbsolute] using hinner
      rw [Path.join_of_empty hbase, startOf, startOf, hrelative, hinnerRelative]
      exact ⟨rfl, rfl⟩
  · obtain ⟨steps, hsteps, _, hjoin⟩ := Path.exists_segments_join hbase
    refine ⟨steps, ?_, fun spot hspot => ?_, fun inner hinner => ⟨?_, hjoin inner hinner⟩⟩
    · rcases hsteps with heq | heq
      · rw [placeOf, heq]
      · rw [placeOf, heq, placeFrom_append_idle]
    · rw [spotsOf]
      rcases hsteps with heq | heq
      · rwa [heq]
      · rw [heq, mem_spotsFrom_append]
        exact Or.inl hspot
    · rw [startOf, startOf, Path.isAbsolute_join hinner hbase]

/-- A relative text that is joined to a path leads on from where the path leads. -/
theorem placeOf_join (tree : FileTree) (base : Path) {inner : String}
    (hinner : inner.toList.head? ≠ some '/') :
    tree.placeOf (base.join inner) = placeFrom (tree.placeOf base) (⟨inner⟩ : Path).segments := by
  obtain ⟨steps, hplace, _, hjoin⟩ := exists_steps_join tree base
  obtain ⟨hstart, hsegments⟩ := hjoin inner hinner
  rw [hplace, placeOf, hstart, hsegments, placeFrom_append]

/-- The way of a path to which a relative text is joined goes on from where the path leads. -/
theorem mem_spotsOf_join (tree : FileTree) (base : Path) {inner : String} {spot : List String}
    (hinner : inner.toList.head? ≠ some '/') (h : spot ∈ tree.spotsOf (base.join inner)) :
    spot ∈ tree.spotsOf base ∨ spot ∈ spotsFrom (tree.placeOf base) (⟨inner⟩ : Path).segments := by
  obtain ⟨steps, hplace, hfront, hjoin⟩ := exists_steps_join tree base
  obtain ⟨hstart, hsegments⟩ := hjoin inner hinner
  rw [spotsOf, hstart, hsegments, mem_spotsFrom_append, ← hplace] at h
  exact h.imp_left (hfront spot)

/-- Steps that do not lead to a directory around lead down by their names. -/
theorem placeFrom_of_noParent (location : List String) (h : ['.', '.'] ∉ steps) :
    placeFrom location steps =
      location ++ (steps.filter fun step => !Path.isIdle step).map String.ofList := by
  induction steps generalizing location with
  | nil => exact (List.append_nil _).symm
  | cons step steps ih =>
    obtain ⟨hparent, hrest⟩ := not_or.mp (List.mem_cons.not.mp h)
    change placeFrom (stepFrom location step) steps = _
    rw [ih _ hrest]
    cases hidle : Path.isIdle step with
    | true => rw [stepFrom_of_isIdle hidle, List.filter_cons_of_neg (by simp [hidle])]
    | false =>
      rw [stepFrom_of_name hidle (Ne.symm hparent), List.filter_cons_of_pos (by simp [hidle]),
        List.map_cons, List.append_assoc, List.singleton_append]

/-- Steps that do not lead to a directory around lead through locations around their end. -/
theorem prefix_of_mem_spotsFrom {location spot : List String} {steps : List (List Char)}
    (h : ['.', '.'] ∉ steps) (hspot : spot ∈ spotsFrom location steps) :
    spot <+: placeFrom location steps := by
  induction steps generalizing location with
  | nil =>
    rw [List.mem_singleton.mp hspot]
    exact List.prefix_rfl
  | cons step steps ih =>
    rcases List.mem_cons.mp hspot with rfl | hspot
    · rw [placeFrom_of_noParent _ h]
      exact List.prefix_append _ _
    · exact ih (fun hmem => h (List.mem_cons_of_mem _ hmem)) hspot

/-- Steps that do not lead to a directory around lead through locations below their start. -/
theorem start_prefix_of_mem_spotsFrom {location spot : List String} {steps : List (List Char)}
    (h : ['.', '.'] ∉ steps) (hspot : spot ∈ spotsFrom location steps) : location <+: spot := by
  induction steps generalizing location with
  | nil => rw [List.mem_singleton.mp hspot]
  | cons step steps ih =>
    rcases List.mem_cons.mp hspot with rfl | hspot
    · exact List.prefix_rfl
    · obtain ⟨hstep, hrest⟩ := not_or.mp (List.mem_cons.not.mp h)
      have hdown : location <+: placeFrom location [step] := by
        rw [placeFrom_of_noParent _ (List.mem_singleton.not.mpr hstep)]
        exact List.prefix_append _ _
      exact hdown.trans (ih hrest hspot)

/-- A plain name leads down to that name. -/
theorem stepFrom_of_isPlainName (location : List String) (hname : IsPlainName name) :
    stepFrom location name.toList = location ++ [name] := by
  have hdots := hname.notDots
  simp only [IsDots, not_or] at hdots
  rw [stepFrom_of_name (by simp [Path.isIdle, hdots.1, hdots.2.1]) hdots.2.2,
    String.ofList_toList]

/-- A plain name that is joined to a path leads one step on from where the path leads. -/
theorem spotsOf_join_name (tree : FileTree) (base : Path) (hname : IsPlainName name) :
    tree.placeOf (base.join name) = tree.placeOf base ++ [name] ∧
      ∀ spot ∈ tree.spotsOf (base.join name), spot ∈ tree.spotsOf base ∨
        spot = tree.placeOf base ∨ spot = tree.placeOf base ++ [name] := by
  have hhead := Path.head?_ne_slash hname.noSlash
  have hplace : placeFrom (tree.placeOf base) [name.toList] = tree.placeOf base ++ [name] :=
    stepFrom_of_isPlainName _ hname
  rw [placeOf_join tree base hhead, Path.segments_of_noSlash hname.noSlash, hplace]
  refine ⟨rfl, fun spot hspot => ?_⟩
  have hspots := mem_spotsOf_join tree base hhead hspot
  rw [Path.segments_of_noSlash hname.noSlash, spotsFrom, spotsFrom, List.mem_cons,
    List.mem_singleton, stepFrom_of_isPlainName _ hname] at hspots
  exact hspots

end FileTree

end CorpusFacts
