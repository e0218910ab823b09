import CorpusFacts.Project.Modules
import CorpusFacts.Proofs.Files.Directories
import CorpusFacts.Proofs.Files.Joining

/-!
# The search for modules

The search for the modules of a project looks at one listed path after the other and puts what a new
module lists in front of what is still to be looked at. It has no bound of its own. Every module it
accepts is a directory not visited before, so it ends, and the expansion of a project, which stops
at a depth, has the result of the search.
-/

namespace CorpusFacts

/-! ## Listed modules

A directory lists modules by paths. A listed path without a part other than dots names nothing. Any
other one names a directory below or beside the one that lists it, and gives it a module path; the
directory of a module is found from the root of the project by that module path.
-/

/-- A listed path whose parts between slashes of either kind are all empty or dots. -/
def IsBlankListing (listed : String) : Prop :=
  ∀ part ∈ Text.splitWhere (fun c => c == '/' || c == '\\') listed.toList, part = [] ∨ part = ['.']

/-- Only blank listed paths stand for no module path. -/
theorem modulePath?_eq_none_iff {listed : String} :
    modulePath? listed = none ↔ IsBlankListing listed := by
  have hiff : modulePath? listed = none ↔
      (Text.splitWhere (fun c => c == '/' || c == '\\') listed.toList).filter
        (fun part => part != [] && part != ['.']) = [] := by
    simp only [modulePath?, List.isEmpty_iff]
    split
    · rename_i hnil
      simpa using hnil
    · rename_i hnil
      simpa using hnil
  rw [hiff, List.filter_eq_nil_iff]
  refine forall₂_congr fun part _ => ?_
  by_cases hempty : part = [] <;> by_cases hdot : part = ['.'] <;> simp [hempty, hdot]

/-- A module path: a relative text between slashes, other than the one of the root. -/
structure IsModulePath (path : String) : Prop extends Path.IsInner path where
  /-- It is not the module path of the root. -/
  ne_root : path ≠ rootModule

/-- A module path is not empty. -/
theorem IsModulePath.ne_empty {path : String} (h : IsModulePath path) : path ≠ "" :=
  fun heq => h.nonempty (by simp [heq])

/-- Parts without slashes, none of them empty or a dot, make up a module path. -/
theorem isModulePath_intercalate {parts : List (List Char)} (hne : parts ≠ [])
    (hparts : ∀ part ∈ parts, part ≠ [] ∧ part ≠ ['.'] ∧ '/' ∉ part) :
    IsModulePath (String.ofList (['/'].intercalate parts)) := by
  induction parts with
  | nil => exact absurd rfl hne
  | cons part rest ih =>
    obtain ⟨hpart, hdot, hslash⟩ := hparts part (List.mem_cons_self ..)
    have hhead : part.head? ≠ some '/' := fun h => hslash (List.mem_of_mem_head? h)
    have hlast : part.getLast? ≠ some '/' := fun h => hslash (List.mem_of_mem_getLast? h)
    cases rest with
    | nil =>
      have hsingle : ['/'].intercalate [part] = part := by simp [List.intercalate]
      rw [hsingle]
      refine ⟨⟨by simpa using hpart, by simpa using hhead, by simpa using hlast⟩, ?_⟩
      intro heq
      exact hdot (by simpa [rootModule] using congrArg String.toList heq)
    | cons next rest =>
      have hrest := ih (by simp) fun other hother => hparts other (List.mem_cons_of_mem _ hother)
      have htext : String.ofList (['/'].intercalate (part :: next :: rest)) =
          String.ofList part ++ "/" ++ String.ofList (['/'].intercalate (next :: rest)) := by
        rw [List.intercalate_cons_cons]
        simp [String.append_assoc]
      have hfirst : Path.IsInner (String.ofList part) :=
        ⟨by simpa using hpart, by simpa using hhead, by simpa using hlast⟩
      rw [htext]
      refine ⟨hfirst.append hrest.toIsInner, fun heq => ?_⟩
      have hlength := congrArg (fun text => text.toList.length) heq
      have := List.length_pos_of_ne_nil hpart
      have := List.length_pos_of_ne_nil hrest.nonempty
      simp [rootModule, String.toList_append] at hlength
      omega

/-- What a listed path stands for is a module path. -/
theorem isModulePath_of_modulePath? {listed path : String} (h : modulePath? listed = some path) :
    IsModulePath path := by
  simp only [modulePath?] at h
  split at h
  · cases h
  · rename_i hne
    cases h
    refine isModulePath_intercalate (by simpa [List.isEmpty_iff] using hne) fun part hpart => ?_
    obtain ⟨hmem, hkept⟩ := List.mem_filter.mp hpart
    have hslash := Text.not_separator_of_mem_splitWhere hmem
    refine ⟨?_, ?_, fun hc => ?_⟩
    · rintro rfl
      simp at hkept
    · rintro rfl
      simp at hkept
    · simpa using hslash '/' hc

/-- A module in a module has the path of both, with a slash between them. -/
theorem joinRelative_of_isModulePath {module path : String} (hmodule : IsModulePath module)
    (hpath : IsModulePath path) : joinRelative module path = module ++ "/" ++ path := by
  rw [joinRelative, if_neg (by simpa using ⟨hmodule.ne_root, hmodule.ne_empty⟩),
    if_neg (by simpa using hpath.ne_empty)]

/-- A module directly in the root has the path that is listed. -/
theorem joinRelative_root (path : String) : joinRelative rootModule path = path := by
  rw [joinRelative, if_pos (by simp)]

/-! ## The search -/

/-- A path that a directory lists, with the module path of the directory. -/
structure Listing where
  /-- The directory that lists the path. -/
  directory : Path
  /-- The module path of the directory. -/
  module : String
  /-- The path as it is listed. -/
  listed : String
  deriving DecidableEq

/-- The module that a listed path stands for, unless it is blank. -/
def Listing.module? (listing : Listing) : Option Module :=
  (modulePath? listing.listed).map fun path =>
    ⟨joinRelative listing.module path, listing.directory.join path⟩

/-- The listings of a directory. -/
def listingsOf (directory : Path) (module : String) (paths : List String) : List Listing :=
  paths.map fun listed => ⟨directory, module, listed⟩

namespace Expansion

/-- What is known after one more module is accepted. -/
def accept (known : Expansion) (location : List String) (module : Module) : Expansion :=
  ⟨location :: known.visited, known.modules ++ [module]⟩

/-- The result of an expansion that ends with what is known, or fails. -/
def outcome (known : Expansion) : Option ProjectError → Except ProjectError Expansion
  | none => .ok known
  | some error => .error error

end Expansion

namespace ProjectFinder

/-- The search for modules with some listings to be looked at: what is known before and after it,
and why it fails, if it does. -/
inductive Searches (finder : ProjectFinder) (tree : FileTree) (boundary : List String) :
    List Listing → Expansion → Expansion → Option ProjectError → Prop
  /-- Nothing is left to look at. -/
  | ends {known : Expansion} : Searches finder tree boundary [] known known none
  /-- A blank path stands for nothing. -/
  | blank {listing : Listing} {pending : List Listing} {known final : Expansion}
      {failure? : Option ProjectError} (hblank : listing.module? = none)
      (hrest : Searches finder tree boundary pending known final failure?) :
      Searches finder tree boundary (listing :: pending) known final failure?
  /-- A path that names no directory ends the search. -/
  | missing {listing : Listing} {pending : List Listing} {known : Expansion} {module : Module}
      (hmodule : listing.module? = some module) (hmissing : tree.isDirectory module.root = false) :
      Searches finder tree boundary (listing :: pending) known known
        (some (.missingModule module.root listing.listed))
  /-- A directory outside of the boundary, or one visited before, is passed over. -/
  | passes {listing : Listing} {pending : List Listing} {known final : Expansion} {module : Module}
      {location : List String} {failure? : Option ProjectError}
      (hmodule : listing.module? = some module) (hdirectory : tree.isDirectory module.root = true)
      (hlocation : tree.canonical module.root = .ok location)
      (hpast : ¬ boundary <+: location ∨ location ∈ known.visited)
      (hrest : Searches finder tree boundary pending known final failure?) :
      Searches finder tree boundary (listing :: pending) known final failure?
  /-- A new module whose own modules cannot be listed ends the search. -/
  | unlisted {listing : Listing} {pending : List Listing} {known : Expansion} {module : Module}
      {location : List String} {error : ParseError} (hmodule : listing.module? = some module)
      (hdirectory : tree.isDirectory module.root = true)
      (hlocation : tree.canonical module.root = .ok location) (hinside : boundary <+: location)
      (hnew : location ∉ known.visited) (hlister : finder.lister tree module.root = .error error) :
      Searches finder tree boundary (listing :: pending) known (known.accept location module)
        (some (.unparsed error))
  /-- The listings of a new module are looked at before all others. -/
  | enters {listing : Listing} {pending : List Listing} {known final : Expansion} {module : Module}
      {location : List String} {paths : List String} {failure? : Option ProjectError}
      (hmodule : listing.module? = some module) (hdirectory : tree.isDirectory module.root = true)
      (hlocation : tree.canonical module.root = .ok location) (hinside : boundary <+: location)
      (hnew : location ∉ known.visited) (hlister : finder.lister tree module.root = .ok paths)
      (hrest : Searches finder tree boundary
        (listingsOf module.root module.relative paths ++ pending) (known.accept location module)
        final failure?) :
      Searches finder tree boundary (listing :: pending) known final failure?

/-- The search from the root of a project: it fails at once where the modules of the root cannot be
listed. -/
inductive SearchesFrom (finder : ProjectFinder) (tree : FileTree) (boundary : List String)
    (directory : Path) (module : String) (known : Expansion) :
    Expansion → Option ProjectError → Prop
  /-- The modules of the root cannot be listed. -/
  | unlisted {error : ParseError} (hlister : finder.lister tree directory = .error error) :
      SearchesFrom finder tree boundary directory module known known (some (.unparsed error))
  /-- The search looks at what the root lists. -/
  | lists {paths : List String} {final : Expansion} {failure? : Option ProjectError}
      (hlister : finder.lister tree directory = .ok paths)
      (hsearches : Searches finder tree boundary (listingsOf directory module paths) known final
        failure?) :
      SearchesFrom finder tree boundary directory module known final failure?

variable {finder : ProjectFinder} {tree : FileTree} {boundary : List String}
  {pending later : List Listing} {known mid final : Expansion} {failure? : Option ProjectError}

namespace Searches

/-- A search goes on with what is to be looked at later. -/
theorem append (h : Searches finder tree boundary pending known mid none)
    (hlater : Searches finder tree boundary later mid final failure?) :
    Searches finder tree boundary (pending ++ later) known final failure? := by
  generalize hnone : (none : Option ProjectError) = ended at h
  induction h with
  | ends => exact hlater
  | blank hblank _ ih => exact .blank hblank (ih hlater hnone)
  | missing => cases hnone
  | passes hmodule hdirectory hlocation hpast _ ih =>
    exact .passes hmodule hdirectory hlocation hpast (ih hlater hnone)
  | unlisted => cases hnone
  | enters hmodule hdirectory hlocation hinside hnew hlister _ ih =>
    refine .enters hmodule hdirectory hlocation hinside hnew hlister ?_
    have hrest := ih hlater hnone
    rwa [List.append_assoc] at hrest

/-- A search that fails does not get to what is to be looked at later. -/
theorem append_of_failure {error : ProjectError}
    (h : Searches finder tree boundary pending known final (some error)) (later : List Listing) :
    Searches finder tree boundary (pending ++ later) known final (some error) := by
  generalize hsome : some error = ended at h
  induction h with
  | ends => cases hsome
  | blank hblank _ ih => exact .blank hblank (ih hsome)
  | missing hmodule hmissing => exact .missing hmodule hmissing
  | passes hmodule hdirectory hlocation hpast _ ih =>
    exact .passes hmodule hdirectory hlocation hpast (ih hsome)
  | unlisted hmodule hdirectory hlocation hinside hnew hlister =>
    exact .unlisted hmodule hdirectory hlocation hinside hnew hlister
  | enters hmodule hdirectory hlocation hinside hnew hlister _ ih =>
    refine .enters hmodule hdirectory hlocation hinside hnew hlister ?_
    have hrest := ih hsome
    rwa [List.append_assoc] at hrest

/-- What was visited before a search stays visited. -/
theorem visited_suffix (h : Searches finder tree boundary pending known final failure?) :
    known.visited <:+ final.visited := by
  induction h with
  | ends => exact List.suffix_rfl
  | blank _ _ ih => exact ih
  | missing => exact List.suffix_rfl
  | passes _ _ _ _ _ ih => exact ih
  | unlisted => exact List.suffix_cons _ _
  | enters _ _ _ _ _ _ _ ih => exact (List.suffix_cons _ _).trans ih

/-- No location is visited twice. -/
theorem visited_nodup (h : Searches finder tree boundary pending known final failure?)
    (hknown : known.visited.Nodup) : final.visited.Nodup := by
  induction h with
  | ends => exact hknown
  | blank _ _ ih => exact ih hknown
  | missing => exact hknown
  | passes _ _ _ _ _ ih => exact ih hknown
  | unlisted _ _ _ _ hnew _ => exact List.nodup_cons.mpr ⟨hnew, hknown⟩
  | enters _ _ _ _ hnew _ _ ih => exact ih (List.nodup_cons.mpr ⟨hnew, hknown⟩)

end Searches

/-- What one listed path adds, by the module that it stands for. -/
theorem addListed_eq (tree : FileTree) (boundary : List String)
    (inside : Path → String → Expansion → Except ProjectError Expansion) (listing : Listing)
    (known : Expansion) :
    addListed tree boundary listing.directory listing.module inside known listing.listed =
      match listing.module? with
      | none => .ok known
      | some module =>
        if tree.isDirectory module.root = false then
          .error (.missingModule module.root listing.listed)
        else
          match tree.canonical module.root with
          | .error failure => .error (.unresolved module.root failure)
          | .ok location =>
            if ¬ boundary <+: location ∨ location ∈ known.visited then .ok known
            else inside module.root module.relative (known.accept location module) := by
  rw [addListed, Listing.module?]
  cases modulePath? listing.listed with
  | none => rfl
  | some path =>
    simp only [Option.map_some, location]
    cases hdirectory : tree.isDirectory (listing.directory.join path) with
    | false => rfl
    | true =>
      cases tree.canonical (listing.directory.join path) with
      | error failure => rfl
      | ok found =>
        have htest : (!boundary.isPrefixOf found || known.visited.contains found) = true ↔
            ¬ boundary <+: found ∨ found ∈ known.visited := by
          rw [Bool.or_eq_true, Bool.not_eq_true', ← Bool.not_eq_true, List.isPrefixOf_iff_prefix,
            List.contains_iff_mem]
        change (if (!boundary.isPrefixOf found || known.visited.contains found) = true then
          Except.ok known else _) =
          if ¬ boundary <+: found ∨ found ∈ known.visited then Except.ok known else _
        exact if_congr htest rfl rfl

/-- The number of directories among the locations visited. -/
def directoriesVisited (tree : FileTree) (known : Expansion) : Nat :=
  known.visited.countP tree.isDirectoryAt

/-- A directory that is accepted counts. -/
theorem directoriesVisited_accept {location : List String} (known : Expansion) (module : Module)
    (hlocation : tree.isDirectoryAt location = true) :
    directoriesVisited tree (known.accept location module) = directoriesVisited tree known + 1 := by
  rw [directoriesVisited, directoriesVisited, Expansion.accept, List.countP_cons_of_pos hlocation]

/-- No more directories are visited than there are. -/
theorem directoriesVisited_le (hknown : known.visited.Nodup) :
    directoriesVisited tree known ≤ tree.root.directoryCount := by
  rw [directoriesVisited, List.countP_eq_length_filter]
  refine FileTree.length_le_directoryCount (hknown.filter _) fun location hlocation => ?_
  exact (List.mem_filter.mp hlocation).2

/-- Where the search of each module ends, so does the search through some listings, and the
expansion goes through them alike. -/
theorem foldlM_addListed_searches
    {inside : Path → String → Expansion → Except ProjectError Expansion} {room : Nat}
    (hinside : ∀ directory module known, known.visited.Nodup →
      tree.root.directoryCount < room + directoriesVisited tree known →
      ∃ final failure?, SearchesFrom finder tree boundary directory module known final failure? ∧
        inside directory module known = final.outcome failure?)
    (directory : Path) (module : String) (paths : List String) (known : Expansion)
    (hknown : known.visited.Nodup)
    (hroom : tree.root.directoryCount < room + 1 + directoriesVisited tree known) :
    ∃ final failure?, Searches finder tree boundary (listingsOf directory module paths) known final
        failure? ∧
      paths.foldlM (addListed tree boundary directory module inside) known =
        final.outcome failure? := by
  induction paths generalizing known with
  | nil => exact ⟨known, none, .ends, rfl⟩
  | cons listed paths ih =>
    have hadd := addListed_eq tree boundary inside ⟨directory, module, listed⟩ known
    simp only [List.foldlM_cons, listingsOf, List.map_cons]
    cases hmodule : (⟨directory, module, listed⟩ : Listing).module? with
    | none =>
      obtain ⟨final, failure?, hsearches, hfold⟩ := ih known hknown hroom
      rw [hmodule] at hadd
      simp only at hadd
      rw [hadd]
      exact ⟨final, failure?, .blank hmodule hsearches, hfold⟩
    | some found =>
      rw [hmodule] at hadd
      simp only at hadd
      by_cases hmissing : tree.isDirectory found.root = false
      · rw [if_pos hmissing] at hadd
        rw [hadd]
        exact ⟨known, _, .missing hmodule hmissing, rfl⟩
      rw [if_neg hmissing] at hadd
      have hdirectory : tree.isDirectory found.root = true := by simpa using hmissing
      obtain ⟨location, hlocation, hat⟩ := FileTree.location_of_isDirectory hdirectory
      rw [hlocation] at hadd
      simp only at hadd
      by_cases hpast : ¬ boundary <+: location ∨ location ∈ known.visited
      · rw [if_pos hpast] at hadd
        rw [hadd]
        obtain ⟨final, failure?, hsearches, hfold⟩ := ih known hknown hroom
        exact ⟨final, failure?, .passes hmodule hdirectory hlocation hpast hsearches, hfold⟩
      rw [if_neg hpast] at hadd
      rw [hadd]
      obtain ⟨hin, hnew⟩ : boundary <+: location ∧ location ∉ known.visited := by
        simpa using hpast
      -- the module is a directory not visited before, so one level less is enough inside of it
      have haccepted : (known.accept location found).visited.Nodup :=
        List.nodup_cons.mpr ⟨hnew, hknown⟩
      have hcount := directoriesVisited_accept known found hat
      obtain ⟨mid, failure?, hfrom, hresult⟩ :=
        hinside found.root found.relative (known.accept location found) haccepted (by omega)
      rw [hresult]
      cases hfrom with
      | unlisted hlister =>
        exact ⟨_, _, .unlisted hmodule hdirectory hlocation hin hnew hlister, rfl⟩
      | lists hlister hsearches =>
        cases failure? with
        | some error =>
          exact ⟨mid, some error, .enters hmodule hdirectory hlocation hin hnew hlister
            (hsearches.append_of_failure _), rfl⟩
        | none =>
          have hgrown : directoriesVisited tree (known.accept location found) ≤
              directoriesVisited tree mid :=
            hsearches.visited_suffix.sublist.countP_le
          obtain ⟨final, failure?, hrest, hfold⟩ :=
            ih mid (hsearches.visited_nodup haccepted) (by omega)
          exact ⟨final, failure?, .enters hmodule hdirectory hlocation hin hnew hlister
            (hsearches.append hrest), hfold⟩

/-- The search from a directory ends, and an expansion that may go deep enough has its result: each
level visits one more directory, so the directories that are left bound the levels. -/
theorem expandFrom_searches (finder : ProjectFinder) (tree : FileTree) (boundary : List String)
    (depth : Nat) (directory : Path) (module : String) (known : Expansion)
    (hknown : known.visited.Nodup)
    (hdepth : tree.root.directoryCount < depth + directoriesVisited tree known) :
    ∃ final failure?, SearchesFrom finder tree boundary directory module known final failure? ∧
      finder.expandFrom tree boundary depth directory module known = final.outcome failure? := by
  induction depth generalizing directory module known with
  | zero =>
    have hvisited : directoriesVisited tree known ≤ tree.root.directoryCount :=
      directoriesVisited_le hknown
    omega
  | succ depth ih =>
    rw [expandFrom]
    cases hlister : finder.lister tree directory with
    | error error => exact ⟨known, _, .unlisted hlister, rfl⟩
    | ok paths =>
      obtain ⟨final, failure?, hsearches, hfold⟩ :=
        foldlM_addListed_searches ih directory module paths known hknown hdepth
      exact ⟨final, failure?, .lists hlister hsearches, hfold⟩

end ProjectFinder

end CorpusFacts
