import CorpusFacts.Proofs.Project.Rediscovery

/-!
# Chains of wrappers

A build inside wrapper directories lies at the end of a chain: each directory of the chain is the
only one in the directory before it that may hold sources. The build is looked for along that chain
and nowhere else, so it is found exactly where the chain first meets a build script.
-/

namespace CorpusFacts

variable {tree : FileTree} {nominal directory inner root other : Path} {levels : Nat}

/-- The one directory that is entered from a directory: the only entry of it that is a directory
itself, is not hidden, and may hold sources by its name. -/
def IsOnlyInner (tree : FileTree) (directory inner : Path) : Prop :=
  ∃ entries name, tree.entries directory = .ok entries ∧ inner = directory.join name ∧
    ∀ found, (∃ entry, (found, entry) ∈ entries ∧ entry.isDirectory = true ∧
      isHidden found = false ∧ found ∉ skippedDirectories) ↔ found = name

/-- A chain of directories below a directory, each the only one in the directory before it, of which
just the last one has a build script. -/
structure IsWrapperChain (tree : FileTree) (nominal : Path) (chain : List Path) (root : Path) :
    Prop where
  /-- Each directory is the only one in the directory before it. -/
  linked : List.IsChain (IsOnlyInner tree) (nominal :: chain)
  /-- The chain ends in the directory of the build. -/
  ends : chain.getLast? = some root
  /-- The directory of the build has a build script. -/
  script : hasBuildScript tree root = true
  /-- No directory before it on the chain has one. -/
  bare : ∀ wrapper ∈ chain.dropLast, hasBuildScript tree wrapper = false

/-- The directories that are looked at in a directory are the entries that are directories, are not
hidden, and may hold sources. -/
theorem mem_filter_visibleDirectories_iff {name : String} :
    name ∈ (ProjectFinder.visibleDirectories tree directory).filter mayHoldSources ↔
      ∃ entries, tree.entries directory = .ok entries ∧ ∃ entry, (name, entry) ∈ entries ∧
        entry.isDirectory = true ∧ isHidden name = false ∧ name ∉ skippedDirectories := by
  rw [List.mem_filter, ProjectFinder.visibleDirectories]
  cases tree.entries directory with
  | error failure => simp
  | ok entries =>
    simp only [Except.ok.injEq, exists_eq_left', List.mem_map, List.mem_filter, Bool.and_eq_true,
      Bool.not_eq_true', mayHoldSources, List.contains_eq_mem, decide_eq_false_iff_not]
    constructor
    · rintro ⟨⟨⟨_, entry⟩, ⟨hmem, hdirectory, hvisible⟩, rfl⟩, -, hkept⟩
      exact ⟨entry, hmem, hdirectory, hvisible, hkept⟩
    · rintro ⟨entry, hmem, hdirectory, hvisible, hkept⟩
      exact ⟨⟨(name, entry), ⟨hmem, hdirectory, hvisible⟩, rfl⟩, hvisible, hkept⟩

/-- A directory leads to one directory only if it has a single one that may hold sources. -/
theorem sourceDirectories_eq_singleton_iff (hsound : tree.root.IsSound) :
    sourceDirectories tree directory = [inner] ↔ IsOnlyInner tree directory inner := by
  rw [sourceDirectories, List.map_eq_singleton_iff]
  constructor
  · rintro ⟨name, honly, rfl⟩
    have hmem : ∀ found, _ ↔ found ∈ [name] := fun found =>
      mem_filter_visibleDirectories_iff.symm.trans (by rw [honly])
    obtain ⟨entries, hentries, -⟩ := (hmem name).mpr List.mem_cons_self
    refine ⟨entries, name, hentries, rfl, fun found => ?_⟩
    simpa [hentries] using hmem found
  · rintro ⟨entries, name, hentries, rfl, honly⟩
    refine ⟨name, ?_, rfl⟩
    -- Names in ascending order are one name only if they have one member.
    refine List.Pairwise.eq_of_mem_iff
      ((ProjectFinder.pairwise_visibleDirectories hsound directory).filter mayHoldSources)
      (List.pairwise_singleton _ _) fun found => ?_
    rw [mem_filter_visibleDirectories_iff, List.mem_singleton, ← honly found]
    simp [hentries]

/-- The search below a directory finds the end of a chain of at most so many levels. -/
theorem buildRootBelow?_eq_some_iff (hsound : tree.root.IsSound) :
    buildRootBelow? tree levels directory = some root ↔
      ∃ chain, chain.length ≤ levels ∧ IsWrapperChain tree directory chain root := by
  induction levels generalizing directory with
  | zero =>
    refine iff_of_false (by simp [buildRootBelow?]) ?_
    rintro ⟨chain, hlength, hchain⟩
    rw [List.length_eq_zero_iff.mp (Nat.le_zero.mp hlength)] at hchain
    cases hchain.ends
  | succ levels ih =>
    rw [buildRootBelow?]
    constructor
    · intro h
      split at h
      · rename_i only honly
        have hinner := (sourceDirectories_eq_singleton_iff hsound).mp honly
        split at h
        · rename_i hscript
          cases h
          exact ⟨[root], by simp, by simpa using hinner, rfl, hscript, by simp⟩
        · rename_i hscript
          obtain ⟨chain, hlength, hchain⟩ := ih.mp h
          refine ⟨only :: chain, by simpa using hlength,
            List.isChain_cons_cons.mpr ⟨hinner, hchain.linked⟩, ?_, hchain.script, ?_⟩
          · rw [List.getLast?_cons, hchain.ends, Option.getD_some]
          · have hne : chain ≠ [] := by rintro rfl; cases hchain.ends
            rw [List.dropLast_cons_of_ne_nil hne, List.forall_mem_cons]
            exact ⟨by simpa using hscript, hchain.bare⟩
      · cases h
    · rintro ⟨chain, hlength, hchain⟩
      cases chain with
      | nil => cases hchain.ends
      | cons only later =>
        obtain ⟨hinner, hlinked⟩ := List.isChain_cons_cons.mp hchain.linked
        simp only [(sourceDirectories_eq_singleton_iff hsound).mpr hinner]
        cases later with
        | nil =>
          obtain rfl : only = root := by simpa using hchain.ends
          rw [if_pos hchain.script]
        | cons next later =>
          have hbare := hchain.bare
          rw [List.dropLast_cons_of_ne_nil (by simp), List.forall_mem_cons] at hbare
          rw [if_neg (by simp [hbare.1]), ih]
          exact ⟨next :: later, by simpa using hlength, hlinked,
            by simpa [List.getLast?_cons] using hchain.ends, hchain.script, hbare.2⟩

/-- The directory that is entered from a directory lies in it. -/
theorem IsOnlyInner.canonical (hsound : tree.root.IsSound) (h : IsOnlyInner tree directory inner) :
    ∃ location name, tree.canonical directory = .ok location ∧ inner = directory.join name ∧
      tree.canonical inner = .ok (location ++ [name]) := by
  have honly := (sourceDirectories_eq_singleton_iff hsound).mpr h
  have hmem : inner ∈ sourceDirectories tree directory := by simp [honly]
  obtain ⟨name, hname, rfl⟩ := List.mem_map.mp hmem
  obtain ⟨location, hlocation, hinner⟩ :=
    ProjectFinder.canonical_of_visible hsound (List.mem_filter.mp hname).1
  exact ⟨location, name, hlocation, rfl, hinner⟩

/-- The end of a chain lies below its start, as many levels as the chain is long. -/
theorem IsWrapperChain.canonical (hsound : tree.root.IsSound) {chain : List Path}
    (h : IsWrapperChain tree directory chain root) :
    ∃ location names, names.length = chain.length ∧ tree.canonical directory = .ok location ∧
      root = directory.joins names ∧ tree.canonical root = .ok (location ++ names) := by
  induction chain generalizing directory with
  | nil => cases h.ends
  | cons only later ih =>
    obtain ⟨hinner, hlinked⟩ := List.isChain_cons_cons.mp h.linked
    obtain ⟨location, name, hlocation, rfl, hplace⟩ := hinner.canonical hsound
    cases later with
    | nil =>
      obtain rfl : directory.join name = root := by simpa using h.ends
      exact ⟨location, [name], rfl, hlocation, rfl, hplace⟩
    | cons next later =>
      have hbare := h.bare
      rw [List.dropLast_cons_of_ne_nil (by simp), List.forall_mem_cons] at hbare
      obtain ⟨around, names, hlength, haround, hroot, hend⟩ :=
        ih ⟨hlinked, by simpa [List.getLast?_cons] using h.ends, h.script, hbare.2⟩
      obtain rfl := Except.ok.inj (hplace.symm.trans haround)
      refine ⟨location, name :: names, by simp [hlength], hlocation, hroot, ?_⟩
      rw [hend, List.append_assoc, List.singleton_append]

/-- Chains below a directory end in the same directory. -/
theorem IsWrapperChain.eq (hsound : tree.root.IsSound) {chain otherChain : List Path}
    (h : IsWrapperChain tree directory chain root)
    (hother : IsWrapperChain tree directory otherChain other) : root = other := by
  -- A search that goes deep enough for both chains finds the end of either.
  have hroot : buildRootBelow? tree (max chain.length otherChain.length) directory = some root :=
    (buildRootBelow?_eq_some_iff hsound).mpr ⟨chain, Nat.le_max_left _ _, h⟩
  have hend : buildRootBelow? tree (max chain.length otherChain.length) directory = some other :=
    (buildRootBelow?_eq_some_iff hsound).mpr ⟨otherChain, Nat.le_max_right _ _, hother⟩
  exact Option.some.inj (hroot.symm.trans hend)

/-- The build of a directory without a build script is the end of a chain of one to eight wrappers,
if there is such a chain. Every chain has the same end; it lies strictly below the directory, and no
other build is looked for in it. -/
theorem build_at_end_of_chain (hsound : tree.root.IsSound) (nominal : Path) :
    (∀ root, buildRoot? tree nominal = some root ↔ hasBuildScript tree nominal = false ∧
      ∃ chain, 1 ≤ chain.length ∧ chain.length ≤ 8 ∧ IsWrapperChain tree nominal chain root) ∧
    (∀ root other chain otherChain, IsWrapperChain tree nominal chain root →
      IsWrapperChain tree nominal otherChain other → root = other) ∧
    ∀ root, buildRoot? tree nominal = some root →
      (∃ location names, names ≠ [] ∧ tree.canonical nominal = .ok location ∧
        root = nominal.joins names ∧ tree.canonical root = .ok (location ++ names)) ∧
      buildRoot? tree root = none := by
  have hfound : ∀ root, buildRoot? tree nominal = some root ↔ hasBuildScript tree nominal = false ∧
      ∃ chain, 1 ≤ chain.length ∧ chain.length ≤ 8 ∧ IsWrapperChain tree nominal chain root := by
    intro root
    rw [buildRoot?]
    split
    · rename_i hscript
      simp [hscript]
    · rename_i hscript
      rw [buildRootBelow?_eq_some_iff hsound, maxNesting]
      constructor
      · rintro ⟨chain, hlength, hchain⟩
        refine ⟨by simpa using hscript, chain, ?_, hlength, hchain⟩
        exact List.length_pos_iff.mpr (by rintro rfl; cases hchain.ends)
      · rintro ⟨-, chain, -, hlength, hchain⟩
        exact ⟨chain, hlength, hchain⟩
  refine ⟨hfound, fun root other chain otherChain h hother => h.eq hsound hother,
    fun root h => ?_⟩
  obtain ⟨-, chain, hlong, -, hchain⟩ := (hfound root).mp h
  obtain ⟨location, names, hlength, hnominal, hroot, hplace⟩ := hchain.canonical hsound
  refine ⟨⟨location, names, ?_, hnominal, hroot, hplace⟩, by rw [buildRoot?, if_pos hchain.script]⟩
  exact List.length_pos_iff.mp (hlength ▸ hlong)

/-- An archive with a hidden directory, a directory for results and a file beside its wrapper. -/
def wrappedTree : FileTree :=
  ⟨.directory [("p", .directory [(".git", .directory []), ("README.md", .file ⟨#[]⟩),
    ("build", .directory []), ("wrapper", .directory [("inner", .directory [
      ("build.gradle", .file ⟨#[]⟩)])])])], []⟩

/-- The build of an archive is found behind its wrappers. -/
theorem build_at_end_of_chain_example :
    wrappedTree.root.IsSound ∧
      (hasBuildScript wrappedTree ⟨"p"⟩ = false ∧ ∃ chain, 1 ≤ chain.length ∧ chain.length ≤ 8 ∧
        IsWrapperChain wrappedTree ⟨"p"⟩ chain ⟨"p/wrapper/inner"⟩) ∧
      buildRoot? wrappedTree ⟨"p/wrapper/inner"⟩ = none := by
  have hsound : wrappedTree.root.IsSound := by decide +kernel
  have hfound : buildRoot? wrappedTree ⟨"p"⟩ = some ⟨"p/wrapper/inner"⟩ := by decide +kernel
  exact ⟨hsound, ((build_at_end_of_chain hsound ⟨"p"⟩).1 _).mp hfound,
    ((build_at_end_of_chain hsound ⟨"p"⟩).2.2 _ hfound).2⟩

end CorpusFacts
