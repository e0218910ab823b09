import CorpusFacts.Proofs.Output.Descent
import CorpusFacts.Proofs.Run.Frame

/-!
# What a run adds

Where no links are and the ways to the output files lead down, all that projects add to a tree are
directories around their output files and these files themselves.
-/

namespace CorpusFacts

variable {tree later : FileTree} {path : Path} {location : List String} {content : ByteArray}

namespace FileTree

variable {made written : List String → Prop}

/-- Writing a text adds directories around its file and the file. -/
theorem LeadsDown.growsTo_writeText (hdown : tree.LeadsDown path)
    (hplain : ∀ location, tree.kindAt location ≠ some .link) (text : String) :
    tree.GrowsTo (writeText tree path text).1
      (fun location => location <+: tree.placeOf path ∧ location ≠ tree.placeOf path)
      fun location => location = tree.placeOf path ∧ path.NamesFile := by
  have hparent : tree.GrowsTo (makeParent tree path).1
      (fun location => location <+: tree.placeOf path ∧ location ≠ tree.placeOf path)
      fun location => location = tree.placeOf path ∧ path.NamesFile := by
    have hgrows := growsTo_makeParent_way hplain path
    refine ⟨hgrows.working, fun location => ?_⟩
    rcases hgrows.faces location with hsame | ⟨hfront, hnone, hnew⟩ | ⟨hwritten, _⟩
    · exact Or.inl hsame
    · refine Or.inr (Or.inl
        ⟨(hdown location hfront).resolve_left fun hdirectory => ?_, hnone, hnew⟩)
      rw [isDirectoryAt_iff_faceAt, hnone] at hdirectory
      cases hdirectory
    · exact hwritten.elim
  rcases writeText_fst tree path text with hsame | hwritten
  · rwa [hsame]
  · have havoids : (makeParent tree path).1.AvoidsLinks path :=
      fun spot _ => hparent.kindAt_ne_link (hplain spot)
    obtain ⟨hgrows, _⟩ := havoids.growsTo_of_write hwritten
    rw [hparent.placeOf] at hgrows
    exact hparent.trans (hgrows.mono (fun _ h => h.elim)
      fun _ hplace => ⟨hplace, havoids.namesFile_of_write hwritten⟩)

/-- The way still leads down in a tree that has grown. -/
theorem LeadsDown.of_growsInKind (h : tree.LeadsDown path)
    (hgrows : tree.GrowsInKind later made written) : later.LeadsDown path := by
  intro spot hspot
  rw [frontSpots, hgrows.startOf] at hspot
  rw [hgrows.placeOf]
  exact (h spot hspot).imp_left hgrows.isDirectoryAt

/-- Writing a text keeps a tree sound. -/
theorem writeText_isSound (hsound : tree.root.IsSound) (path : Path) (text : String) :
    (writeText tree path text).1.root.IsSound := by
  have hparent : (makeParent tree path).1.root.IsSound := by
    rw [makeParent]
    split
    · exact hsound
    · rename_i parent _
      have hmade := makeDirectories_isSound hsound parent
      split <;> rename_i heq <;> rwa [heq] at hmade
  rcases writeText_fst tree path text with hsame | hwritten
  · rwa [hsame]
  · exact write_isSound hparent hwritten

/-- What lies at a location is the same in sound trees that are seen alike there and below. -/
theorem at?_eq_of_faces (hsound : tree.root.IsSound) (hlaterSound : later.root.IsSound)
    (h : ∀ rest, later.faceAt (location ++ rest) = tree.faceAt (location ++ rest)) :
    later.root.at? location = tree.root.at? location := by
  have hfaces := h
  simp only [faceAt, Entry.at?_append] at h
  cases hfirst : tree.root.at? location with
  | none =>
    have hnone := at?_eq_none_iff.mp hfirst
    have hhere := hfaces []
    rw [List.append_nil] at hhere
    exact at?_eq_none_iff.mpr (hhere.trans hnone)
  | some entry =>
    cases hsecond : later.root.at? location with
    | none => simpa [hfirst, hsecond, Entry.at?] using h []
    | some other =>
      refine congrArg some ((hlaterSound.at? hsecond).1.eq_of_faces (hsound.at? hfirst).1
        fun rest => ?_)
      simpa [hfirst, hsecond] using h rest

/-- A path without links leads to the bytes of a file if and only if it can be taken to a place
where they are. -/
theorem AvoidsLinks.read_iff (h : tree.AvoidsLinks path) :
    tree.read path = .ok content ↔ IsResolvable path ∧
      tree.IsPassable (tree.startOf path) path.segments ∧
      tree.root.at? (tree.placeOf path) = some (.file content) := by
  constructor
  · intro hread
    rw [read] at hread
    obtain ⟨location, hlocation, hread⟩ := exists_of_bind_eq_ok hread
    have hresolve := resolve_of_canonical hlocation
    obtain ⟨rfl, hpassable⟩ := h.of_resolve_existing hresolve
    refine ⟨isResolvable_of_resolve hresolve, hpassable, ?_⟩
    split at hread
    · rename_i found hfound
      rw [hfound, Except.ok.inj hread]
    · cases hread
    · cases hread
  · rintro ⟨hresolvable, hpassable, hfile⟩
    exact (h.read_eq hresolvable hpassable hfile).2

/-- A file that was not written is read as before in a tree that has grown. -/
theorem GrowsInKind.read_iff (h : tree.GrowsInKind later made written)
    (hplain : ∀ location, tree.kindAt location ≠ some .link) (hdown : tree.LeadsDown path)
    (hfile : ∀ content, later.root.at? (tree.placeOf path) = some (.file content) ↔
      tree.root.at? (tree.placeOf path) = some (.file content)) (content : ByteArray) :
    later.read path = .ok content ↔ tree.read path = .ok content := by
  have havoids : tree.AvoidsLinks path := fun spot _ => hplain spot
  have hlaterAvoids : later.AvoidsLinks path := fun spot _ => h.kindAt_ne_link (hplain spot)
  rw [havoids.read_iff, hlaterAvoids.read_iff, h.placeOf, h.startOf, hfile]
  refine and_congr_right fun _ => and_congr_left fun hplace => ?_
  refine isPassable_congr fun spot hspot => ?_
  -- the directories on the way to a file that is there are there as well
  have hsome : tree.kindAt spot ≠ none := by
    have hkind : tree.kindAt (tree.placeOf path) = some .file :=
      kindAt_eq_file_iff.mpr ⟨content, hplace⟩
    have haround : spot <+: tree.placeOf path → tree.kindAt spot ≠ none := by
      rintro ⟨rest, hrest⟩ hnone
      rw [← hrest, kindAt_below_none hnone] at hkind
      cases hkind
    rcases (mem_spotsOf_iff tree path spot).mp hspot with hfront | rfl
    · rcases hdown spot hfront with hdirectory | ⟨hleads, _⟩
      · rw [isDirectoryAt_iff_kindAt.mp hdirectory]
        simp
      · exact haround hleads
    · exact haround List.prefix_rfl
  rw [Bool.eq_iff_iff, isDirectoryAt_iff_kindAt, isDirectoryAt_iff_kindAt, h.kindAt_eq hsome]

end FileTree

namespace Executor

variable {π ρ : Type} [Record ρ] {executor : Executor π ρ} {projects : List Project}

/-- A location is one around the output file of some project. -/
def IsAround (executor : Executor π ρ) (tree : FileTree) (projects : List Project)
    (location : List String) : Prop :=
  ∃ project ∈ projects, location <+: tree.placeOf (executor.naming.path project.name) ∧
    location ≠ tree.placeOf (executor.naming.path project.name)

/-- A location is that of the output file of some project. -/
def IsOutput (executor : Executor π ρ) (tree : FileTree) (projects : List Project)
    (location : List String) : Prop :=
  ∃ project ∈ projects, location = tree.placeOf (executor.naming.path project.name) ∧
    (executor.naming.path project.name).NamesFile

/-- Executing a project adds directories around its output file and this file. -/
theorem growsTo_executeProject (hplain : ∀ location, tree.kindAt location ≠ some .link)
    {project : Project} (hdown : tree.LeadsDown (executor.naming.path project.name)) :
    tree.GrowsTo (executor.executeProject tree project).1
      (fun location => location <+: tree.placeOf (executor.naming.path project.name) ∧
        location ≠ tree.placeOf (executor.naming.path project.name))
      fun location => location = tree.placeOf (executor.naming.path project.name) ∧
        (executor.naming.path project.name).NamesFile := by
  rcases executeProject_fst executor tree project with hsame | ⟨text, hwritten⟩
  · rw [hsame]
    exact .refl _ _ _
  · rw [hwritten]
    exact hdown.growsTo_writeText hplain text

/-- Executing projects adds directories around their output files and these files. -/
theorem growsTo_executeAll_around (executor : Executor π ρ) (projects : List Project)
    (hplain : ∀ location, tree.kindAt location ≠ some .link)
    (hdown : ∀ project ∈ projects, tree.LeadsDown (executor.naming.path project.name)) :
    tree.GrowsTo (executor.executeAll tree projects).1 (executor.IsAround tree projects)
      (executor.IsOutput tree projects) := by
  induction projects generalizing tree with
  | nil => exact .refl _ _ _
  | cons project projects ih =>
    obtain ⟨hhere, hrest⟩ := List.forall_mem_cons.mp hdown
    have hnext := growsTo_executeProject hplain hhere
    have hafter := ih (fun location => hnext.kindAt_ne_link (hplain location))
      fun other hother => (hrest other hother).of_growsInKind hnext.inKind
    rw [executeAll]
    refine (hnext.mono (fun location hlocation => ?_) fun location hlocation => ?_).trans
      (hafter.mono (fun location hlocation => ?_) fun location hlocation => ?_)
    · exact ⟨project, List.mem_cons_self .., hlocation⟩
    · exact ⟨project, List.mem_cons_self .., hlocation⟩
    · obtain ⟨other, hother, hlocation⟩ := hlocation
      rw [hnext.placeOf] at hlocation
      exact ⟨other, List.mem_cons_of_mem _ hother, hlocation⟩
    · obtain ⟨other, hother, hlocation⟩ := hlocation
      rw [hnext.placeOf] at hlocation
      exact ⟨other, List.mem_cons_of_mem _ hother, hlocation⟩

/-- Executing a project keeps a tree sound. -/
theorem executeProject_isSound (executor : Executor π ρ) (hsound : tree.root.IsSound)
    (project : Project) :
    (executor.executeProject tree project).1.root.IsSound := by
  rcases executeProject_fst executor tree project with hsame | ⟨text, hwritten⟩
  · rwa [hsame]
  · rw [hwritten]
    exact FileTree.writeText_isSound hsound _ text

/-- Executing projects keeps a tree sound. -/
theorem executeAll_isSound (hsound : tree.root.IsSound) (projects : List Project) :
    (executor.executeAll tree projects).1.root.IsSound := by
  induction projects generalizing tree with
  | nil => exact hsound
  | cons project projects ih =>
    rw [executeAll]
    exact ih (executeProject_isSound executor hsound project)

end Executor

end CorpusFacts
