import CorpusFacts.Proofs.Project.Sources
import CorpusFacts.Proofs.Text.Bytes
import CorpusFacts.Proofs.Text.Splitting

/-!
# Which sources are selected

The sources of a module are the regular files below its directory with an extension that is asked
for. A file is passed over if it is left out, or if a directory on the way to it is left out,
hidden, never searched, spelled like a module, or marked as a project of its own in a project with
modules. Files come in the order of the bytes of the names on the way.

Leaving out a directory leaves out all that lies below it, except for modules: each is walked on its
own, and a walk never leaves out the directory that it starts in.
-/

namespace CorpusFacts

/-- What lies on the way to something is a directory. -/
theorem Entry.exists_directory_of_at? {entry found : Entry} {front steps : List String}
    (hsteps : steps ≠ []) (h : entry.at? (front ++ steps) = some found) :
    ∃ inner, entry.at? front = some inner ∧ inner.isDirectory = true := by
  rw [Entry.at?_append, Option.bind_eq_some_iff] at h
  obtain ⟨inner, hinner, hrest⟩ := h
  obtain ⟨name, steps, rfl⟩ := List.exists_cons_of_ne_nil hsteps
  cases inner with
  | directory entries => exact ⟨_, hinner, rfl⟩
  | file content => cases hrest
  | link target => cases hrest

namespace ProjectFinder

variable {finder : ProjectFinder} {tree : FileTree} {project expanded : Project}
  {extensions : List String} {root : String × Path} {names : List String}

/-- The file behind some names in a module is a source of the module. -/
structure IsSelected (finder : ProjectFinder) (tree : FileTree) (project : Project)
    (extensions : List String) (root : String × Path) (names : List String) : Prop where
  /-- It is a regular file, and no link is followed behind the directory of the module. -/
  isFile : ∃ start content, tree.walkStart root.2 = .ok start ∧
    start.at? names = some (.file content)
  /-- Its extension is asked for. -/
  extension : extensionOf (root.2.joins names) ∈ extensions
  /-- Its path in the project is not left out. -/
  included : names ≠ [] →
    finder.excluded.contains (joinRelative root.1 ("/".intercalate names)) = false
  /-- Every directory between that of the module and the file is searched. -/
  searched : ∀ front, front <+: names → front ≠ [] → front ≠ names →
    IsSearched finder tree project root front

/-- The walk for the sources of a module collects the files that are selected. -/
theorem collects_iff_isSelected :
    Collects finder tree project extensions root names ↔
      IsSelected finder tree project extensions root names := by
  constructor
  · rintro ⟨start, content, hstart, hfile, hpasses, hextension⟩
    refine ⟨⟨start, content, hstart, hfile⟩, List.contains_iff_mem.mp hextension, fun hne => ?_, ?_⟩
    · have hentered := hpasses names _ List.prefix_rfl hne hfile
      rwa [enters_other_iff (by rfl)] at hentered
    · rintro front ⟨steps, rfl⟩ hne hproper
      obtain ⟨inner, hinner, hdirectory⟩ := Entry.exists_directory_of_at?
        (fun hnil => hproper (by rw [hnil, List.append_nil])) hfile
      exact (enters_directory_iff hdirectory hne).mp
        (hpasses front inner (List.prefix_append _ _) hne hinner)
  · rintro ⟨⟨start, content, hstart, hfile⟩, hextension, hincluded, hsearched⟩
    refine ⟨start, content, hstart, hfile, ?_, List.contains_iff_mem.mpr hextension⟩
    rintro front inner hfront hne hinner
    by_cases hwhole : front = names
    · subst hwhole
      obtain rfl : inner = .file content := Option.some.inj (hinner.symm.trans hfile)
      exact (enters_other_iff rfl).mpr (hincluded hne)
    · have hsearch := hsearched front hfront hne hwhole
      obtain ⟨steps, rfl⟩ := hfront
      obtain ⟨other, hother, hdirectory⟩ := Entry.exists_directory_of_at?
        (fun hnil => hwhole (by rw [hnil, List.append_nil])) hfile
      obtain rfl : inner = other := Option.some.inj (hinner.symm.trans hother)
      exact (enters_directory_iff hdirectory hne).mpr hsearch

/-- The sources of an expanded project are those of its root and then those of its modules, in their
order. For each of these they are exactly the files that are selected, in the order of the bytes of
the names that lead to them. Every source stands for a file of its module that need not be parsed,
and its path in the project is that of the module with the names behind it. -/
theorem units_eq_selected (hsound : tree.root.IsSound)
    (hexpanded : finder.expandModules tree project = .ok expanded) (extensions : List String) :
    ∃ found : String × Path → List (List String),
      finder.units tree expanded (.sources extensions) =
        .ok (expanded.moduleRoots.flatMap fun root => (found root).map fun names =>
          ⟨root.2.joins names, joinRelative root.1 ("/".intercalate names), root.1, false⟩) ∧
      ∀ root ∈ expanded.moduleRoots,
        (∀ names, names ∈ found root ↔
          IsSelected finder tree expanded extensions root names) ∧
        (found root).Pairwise fun names next => names.map Text.utf8 < next.map Text.utf8 := by
  obtain ⟨hroots, -, -⟩ := moduleRoots_of_expandModules hexpanded
  obtain ⟨found, hfound, hunits⟩ := exists_sources hsound hroots finder extensions
  refine ⟨found, hunits, fun root hmem => ⟨fun names => ?_, ?_⟩⟩
  · rw [(hfound root hmem).2, collects_iff_isSelected]
  · exact (hfound root hmem).1.imp Text.map_utf8_lt

/-- The source of a module is listed for the module, and is none of those selected for the root. -/
theorem units_eq_selected_example :
    scriptFinder.units (oneModule "b") (oneModuleProject "b") (.sources ["kt"]) =
        .ok [⟨⟨"p/b/A.kt"⟩, "b/A.kt", "b", false⟩] ∧
      ¬ IsSelected scriptFinder (oneModule "b") (oneModuleProject "b") ["kt"] (rootModule, ⟨"p"⟩)
        ["b", "A.kt"] := by
  have hsound : (oneModule "b").root.IsSound := by decide +kernel
  have hexpanded : scriptFinder.expandModules (oneModule "b") (.ofRoot "p" ⟨"p"⟩) =
      .ok (oneModuleProject "b") := by decide +kernel
  have hlisted : scriptFinder.units (oneModule "b") (oneModuleProject "b") (.sources ["kt"]) =
      .ok [⟨⟨"p/b/A.kt"⟩, "b/A.kt", "b", false⟩] := by decide +kernel
  obtain ⟨found, hunits, hfound⟩ := units_eq_selected hsound hexpanded ["kt"]
  refine ⟨hlisted, fun hselected => ?_⟩
  have hroot : (rootModule, (⟨"p"⟩ : Path)) ∈ (oneModuleProject "b").moduleRoots :=
    List.mem_cons_self ..
  have hnames := ((hfound _ hroot).1 _).mpr hselected
  have hunit : sourceUnit (rootModule, ⟨"p"⟩) ["b", "A.kt"] ∈
      [AnalysisUnit.mk ⟨"p/b/A.kt"⟩ "b/A.kt" "b" false] := by
    rw [← Except.ok.inj (hunits.symm.trans hlisted)]
    exact List.mem_flatMap.mpr ⟨_, hroot, List.mem_map.mpr ⟨_, hnames, rfl⟩⟩
  rw [List.mem_singleton] at hunit
  exact absurd (congrArg AnalysisUnit.module hunit) (by decide)

/-! ## What is left out -/

/-- A text leads to a path if its parts between slashes are the first parts of the path, or all of
them. -/
structure LeadsTo (front path : String) : Prop where
  /-- It is not empty. -/
  nonempty : front ≠ ""
  /-- Its parts are the first ones. -/
  parts : Text.split '/' front.toList <+: Text.split '/' path.toList

instance (front path : String) : Decidable (LeadsTo front path) :=
  decidable_of_iff (front ≠ "" ∧ Text.split '/' front.toList <+: Text.split '/' path.toList)
    ⟨fun h => ⟨h.1, h.2⟩, fun h => ⟨h.1, h.2⟩⟩

/-- The text of some names has them for its parts. -/
theorem split_names (hne : names ≠ []) (hnames : ∀ name ∈ names, IsEntryName name) :
    Text.split '/' ("/".intercalate names).toList = names.map String.toList := by
  rw [String.toList_intercalate]
  refine Text.split_intercalate (by simpa using hne) ?_
  rw [List.forall_mem_map]
  exact fun name hname => (hnames name hname).noSlash

/-- The first parts of some names are the parts of the first names. -/
theorem exists_names_of_isPrefix {parts : List (List Char)}
    (h : parts <+: names.map String.toList) :
    ∃ first, first <+: names ∧ parts = first.map String.toList :=
  ⟨names.take parts.length, List.take_prefix _ _, by
    rw [List.map_take, ← List.prefix_iff_eq_take.mp h]⟩

/-- Different texts have different parts. -/
theorem eq_of_split_eq {first second : String}
    (h : Text.split '/' first.toList = Text.split '/' second.toList) : first = second := by
  rw [← String.toList_inj, ← Text.intercalate_split '/' first.toList, h, Text.intercalate_split]

/-- The parts of the path of a module; the root has none. -/
def partsOf (module : String) : List (List Char) :=
  if module = rootModule then [] else Text.split '/' module.toList

/-- The path of a module is that of the root, or one that a listed path can stand for. -/
def IsModuleOrRoot (module : String) : Prop :=
  module = rootModule ∨ IsModulePath module

/-- A path inside a module has the parts of the module and then the names. -/
theorem split_joinRelative {module : String} (hmodule : IsModuleOrRoot module) (hne : names ≠ [])
    (hnames : ∀ name ∈ names, IsEntryName name) :
    Text.split '/' (joinRelative module ("/".intercalate names)).toList =
      partsOf module ++ names.map String.toList := by
  have hinner := split_names hne hnames
  rcases hmodule with rfl | hmodule
  · rw [joinRelative_root, hinner]
    rfl
  have hempty : "/".intercalate names ≠ "" := by
    intro hempty
    rw [hempty] at hinner
    obtain ⟨name, rest, rfl⟩ := List.exists_cons_of_ne_nil hne
    have hname : [] = name.toList := (List.cons.inj hinner).1
    have hidle := (hnames name (List.mem_cons_self ..)).notIdle
    rw [← hname] at hidle
    cases hidle
  rw [joinRelative, if_neg (by simpa using ⟨hmodule.ne_root, hmodule.ne_empty⟩),
    if_neg (by simpa using hempty), partsOf, if_neg hmodule.ne_root, ← hinner, String.toList_append,
    String.toList_append, List.append_assoc]
  exact Text.split_append '/' module.toList _

/-- Nothing leads to the empty path. -/
theorem not_leadsTo_empty {front : String} : ¬ LeadsTo front "" := by
  rintro ⟨hne, hparts⟩
  refine hne (eq_of_split_eq (hparts.eq_of_length_le ?_))
  exact List.length_pos_of_ne_nil (Text.splitWhere_ne_nil _ _)

/-- The path inside a module without any names is that of the module. -/
theorem joinRelative_empty {module : String} (hmodule : IsModuleOrRoot module) :
    joinRelative module "" = if module = rootModule then "" else module := by
  rcases hmodule with rfl | hmodule
  · rfl
  · rw [joinRelative, if_neg (by simpa using ⟨hmodule.ne_root, hmodule.ne_empty⟩),
      if_pos (by decide), if_neg hmodule.ne_root]

/-- What leads to a path inside a module leads to the module, or it is the path of what lies behind
the first of the names. -/
theorem LeadsTo.of_joinRelative {module front : String} (hmodule : IsModuleOrRoot module)
    (hnames : ∀ name ∈ names, IsEntryName name)
    (h : LeadsTo front (joinRelative module ("/".intercalate names))) :
    (module ≠ rootModule ∧ LeadsTo front module) ∨
      ∃ first, first <+: names ∧ first ≠ [] ∧
        front = joinRelative module ("/".intercalate first) := by
  have hfront := Text.splitWhere_ne_nil (· == '/') front.toList
  -- to the parts of the module leads only what leads to the module
  have houter : Text.split '/' front.toList <+: partsOf module →
      module ≠ rootModule ∧ LeadsTo front module := by
    intro hparts
    rw [partsOf] at hparts
    split at hparts
    · exact absurd (List.prefix_nil.mp hparts) hfront
    · rename_i hne
      exact ⟨hne, h.nonempty, hparts⟩
  by_cases hne : names = []
  · subst hne
    have hnothing : "/".intercalate ([] : List String) = "" := rfl
    rw [hnothing, joinRelative_empty hmodule] at h
    split at h
    · exact absurd h not_leadsTo_empty
    · rename_i hroot
      exact Or.inl ⟨hroot, h⟩
  have hparts := h.parts
  rw [split_joinRelative hmodule hne hnames] at hparts
  rcases List.prefix_or_prefix_of_prefix hparts (List.prefix_append _ _) with hinside | ⟨more, hmore⟩
  · exact Or.inl (houter hinside)
  rw [← hmore, List.prefix_append_right_inj] at hparts
  obtain ⟨first, hfirst, rfl⟩ := exists_names_of_isPrefix hparts
  by_cases hnone : first = []
  · subst hnone
    rw [List.map_nil, List.append_nil] at hmore
    exact Or.inl (houter (hmore ▸ List.prefix_rfl))
  · refine Or.inr ⟨first, hfirst, hnone, eq_of_split_eq ?_⟩
    rw [split_joinRelative hmodule hnone fun name hname => hnames name (hfirst.subset hname), hmore]

/-- The root and the modules of an expanded project have paths as those that are listed. -/
theorem isModuleOrRoot_of_expandModules
    (hexpanded : finder.expandModules tree project = .ok expanded) :
    ∀ root ∈ expanded.moduleRoots, IsModuleOrRoot root.1 := by
  obtain ⟨boundary, _, hreached⟩ := reached_of_expandModules hexpanded
  rw [Project.moduleRoots, List.forall_mem_cons, List.forall_mem_map]
  refine ⟨Or.inl rfl, fun module hmodule => ?_⟩
  rcases (hreached module hmodule).spelled with ⟨_, hroot⟩ | ⟨hpath, _⟩
  · exact Or.inl hroot
  · exact Or.inr hpath

/-- The names behind a module that lead to a selected source are names of entries, and neither the
source nor a directory on the way to it is left out. -/
theorem IsSelected.included_front (hsound : tree.root.IsSound)
    (hroot : ∃ location, tree.canonical root.2 = .ok location)
    (h : IsSelected finder tree project extensions root names) :
    (∀ name ∈ names, IsEntryName name) ∧ ∀ front, front <+: names → front ≠ [] →
      finder.excluded.contains (joinRelative root.1 ("/".intercalate front)) = false := by
  obtain ⟨location, hlocation⟩ := hroot
  obtain ⟨_, content, hfile⟩ := (collects_iff_isSelected.mpr h).located hsound hlocation
  refine ⟨fun name hname => (hsound.at? hfile).2 name (List.mem_append_right _ hname), ?_⟩
  intro front hfront hne
  by_cases hwhole : front = names
  · subst hwhole
    exact h.included hne
  · exact (h.searched front hfront hne hwhole).included

/-- Leaving out a path leaves out all below it that is not a module. The sources of a project are
listed, and no part of the path of a source of the root is left out. Of the path of a source of a
module, only the module and what leads to it may be: the walk for its sources starts in the
directory of the module, whatever is left out, and goes past all that is left out behind it. -/
theorem excluded_leadsTo_module (hsound : tree.root.IsSound)
    (hexpanded : finder.expandModules tree project = .ok expanded) (extensions : List String) :
    ∃ units, finder.units tree expanded (.sources extensions) = .ok units ∧
      ∀ unit ∈ units, ∀ front, LeadsTo front unit.relativePath →
        finder.excluded.contains front = true →
        unit.module ≠ rootModule ∧ LeadsTo front unit.module := by
  obtain ⟨hroots, -, -⟩ := moduleRoots_of_expandModules hexpanded
  obtain ⟨found, hfound, hunits⟩ := exists_sources hsound hroots finder extensions
  refine ⟨_, hunits, fun unit hunit front hfront hexcluded => ?_⟩
  obtain ⟨root, hroot, hunit⟩ := List.mem_flatMap.mp hunit
  obtain ⟨names, hnames, rfl⟩ := List.mem_map.mp hunit
  have hselected := collects_iff_isSelected.mp (((hfound root hroot).2 names).mp hnames)
  obtain ⟨hentryNames, hincluded⟩ := hselected.included_front hsound (hroots root hroot)
  rcases hfront.of_joinRelative (isModuleOrRoot_of_expandModules hexpanded root hroot) hentryNames
    with hmodule | ⟨first, hfirst, hne, rfl⟩
  · exact hmodule
  · rw [hincluded first hfirst hne] at hexcluded
    cases hexcluded

/-- A finder that leaves out what the pattern `b` matches: the directory of that name in the root. -/
def leavingOutB : ProjectFinder :=
  { scriptFinder with excluded := ⟨[[.literal 'b']]⟩ }

/-- A path is left out if it is the bytes of `b`. -/
theorem contains_leavingOutB (path : String) :
    leavingOutB.excluded.contains path =
      ((Glob.afterBytes? (Glob.charBytes 'b') path.toUTF8.toList).any (·.isEmpty) &&
        (Glob.hasFileName path || !Glob.needsFileName [.literal 'b'])) := by
  rw [← Glob.matchesAll_literal]
  exact Bool.or_false _

/-- The directory `b` is left out. -/
theorem leavingOutB_contains : leavingOutB.excluded.contains "b" = true := by
  rw [contains_leavingOutB]
  decide +kernel

/-- The source of a module that is left out is selected. -/
theorem isSelected_leavingOutB :
    IsSelected leavingOutB (oneModule "b") (oneModuleProject "b") ["kt"] ("b", ⟨"p/b"⟩)
      ["A.kt"] where
  isFile := ⟨.directory [("A.kt", .file ⟨#[]⟩)], ⟨#[]⟩, by rfl, by rfl⟩
  extension := by decide +kernel
  included _ := by
    have hpath : joinRelative "b" ("/".intercalate ["A.kt"]) = "b/A.kt" := by decide
    rw [hpath, contains_leavingOutB]
    decide +kernel
  searched front hfront hne hproper := by
    rcases List.prefix_cons_iff.mp hfront with rfl | ⟨rest, rfl, hrest⟩
    · exact absurd rfl hne
    · rw [List.prefix_nil.mp hrest] at hproper
      exact absurd rfl hproper

/-- A module that is left out is a module, and its source is listed. -/
theorem leavingOutB_lists_module :
    (oneModule "b").root.IsSound ∧
      leavingOutB.expandModules (oneModule "b") (.ofRoot "p" ⟨"p"⟩) = .ok (oneModuleProject "b") ∧
      ∃ units, leavingOutB.units (oneModule "b") (oneModuleProject "b") (.sources ["kt"]) =
          .ok units ∧
        ⟨⟨"p/b/A.kt"⟩, "b/A.kt", "b", false⟩ ∈ units := by
  have hsound : (oneModule "b").root.IsSound := by decide +kernel
  have hexpanded : leavingOutB.expandModules (oneModule "b") (.ofRoot "p" ⟨"p"⟩) =
      .ok (oneModuleProject "b") := by decide +kernel
  obtain ⟨hroots, -, -⟩ := moduleRoots_of_expandModules hexpanded
  obtain ⟨found, hfound, hunits⟩ := exists_sources hsound hroots leavingOutB ["kt"]
  have hroot : ("b", (⟨"p/b"⟩ : Path)) ∈ (oneModuleProject "b").moduleRoots := by decide
  have hnames : ["A.kt"] ∈ found ("b", ⟨"p/b"⟩) :=
    ((hfound _ hroot).2 _).mpr (collects_iff_isSelected.mpr isSelected_leavingOutB)
  have hunit : sourceUnit ("b", ⟨"p/b"⟩) ["A.kt"] = ⟨⟨"p/b/A.kt"⟩, "b/A.kt", "b", false⟩ := by
    decide
  exact ⟨hsound, hexpanded, _, hunits,
    List.mem_flatMap.mpr ⟨_, hroot, List.mem_map.mpr ⟨_, hnames, hunit⟩⟩⟩

/-- What is left out leads to the module of the source. -/
theorem excluded_leadsTo_module_example :
    ∃ units, leavingOutB.units (oneModule "b") (oneModuleProject "b") (.sources ["kt"]) =
        .ok units ∧
      ∃ unit ∈ units, LeadsTo "b" unit.relativePath ∧ leavingOutB.excluded.contains "b" = true ∧
        unit.module ≠ rootModule ∧ LeadsTo "b" unit.module := by
  obtain ⟨hsound, hexpanded, listed, hlisted, hunit⟩ := leavingOutB_lists_module
  have hfront : LeadsTo "b" "b/A.kt" := by decide
  obtain ⟨units, hunits, hmodule⟩ := excluded_leadsTo_module hsound hexpanded ["kt"]
  obtain rfl : listed = units := Except.ok.inj (hlisted.symm.trans hunits)
  exact ⟨listed, hlisted, _, hunit, hfront, leavingOutB_contains,
    hmodule _ hunit "b" hfront leavingOutB_contains⟩

/-- The directory of a module is left out, and its source is listed. -/
theorem left_out_module_is_listed :
    ¬ ∀ (finder : ProjectFinder) (tree : FileTree) (project expanded : Project)
      (extensions : List String) (units : List AnalysisUnit), tree.root.IsSound →
      finder.expandModules tree project = .ok expanded →
      finder.units tree expanded (.sources extensions) = .ok units →
      ∀ unit ∈ units, ∀ front, LeadsTo front unit.relativePath →
        finder.excluded.contains front = false := by
  intro hall
  obtain ⟨hsound, hexpanded, units, hlisted, hunit⟩ := leavingOutB_lists_module
  have hincluded := hall _ _ _ _ _ _ hsound hexpanded hlisted _ hunit "b" (by decide)
  rw [leavingOutB_contains] at hincluded
  cases hincluded

end ProjectFinder

end CorpusFacts
