import CorpusFacts.Proofs.Files.Soundness
import Mathlib.Data.List.Infix

/-!
# What lies where after a directory is changed

An entry is seen by its face: the bytes of a file, the target of a link, and of a directory only
that it is one. Putting an entry into a directory, or taking it out, changes what is seen at its
place and below, and nothing else.
-/

namespace CorpusFacts

namespace Entry

/-- What is seen of an entry by itself, without what lies in it. -/
inductive Face where
  /-- A file with its bytes. -/
  | file (content : ByteArray)
  /-- A link with its target. -/
  | link (target : String)
  /-- A directory. -/
  | directory

/-- The face of an entry. -/
def face : Entry → Face
  | .file content => .file content
  | .link target => .link target
  | .directory _ => .directory

variable {name other : String} {entry new : Entry} {entries : List (String × Entry)}
  {location directory rest : List String}

/-- The first entry of a name is the one found. -/
theorem find?_cons (name other : String) (entry : Entry) (entries : List (String × Entry)) :
    find? other ((name, entry) :: entries) =
      if name = other then some entry else find? other entries := by
  simp [find?]

/-- An entry that is put among others is found by its name, and every other one as before. -/
theorem find?_insert (name other : String) (new : Entry) (entries : List (String × Entry)) :
    find? other (insert name new entries) =
      if name = other then some new else find? other entries := by
  induction entries with
  | nil => rw [insert, find?_cons]
  | cons first rest ih =>
    obtain ⟨firstName, old⟩ := first
    rw [insert]
    by_cases hname : name = firstName
    · subst hname
      rw [if_pos (by simp), find?_cons, find?_cons]
      by_cases h : name = other <;> simp [h]
    · rw [if_neg (by simpa using hname)]
      by_cases hlt : name < firstName
      · rw [if_pos hlt, find?_cons]
      · rw [if_neg hlt, find?_cons, find?_cons, ih]
        by_cases h : name = other
        · subst h
          rw [if_pos rfl, if_pos rfl, if_neg fun heq => hname heq.symm]
        · rw [if_neg h, if_neg h]

/-- What is found without the entries of a name: nothing under this name, and all else as before. -/
theorem find?_erase (name other : String) (entries : List (String × Entry)) :
    find? other (erase name entries) = if name = other then none else find? other entries := by
  induction entries with
  | nil => simp [erase, find?]
  | cons first rest ih =>
    obtain ⟨firstName, old⟩ := first
    rw [find?_cons]
    by_cases hname : firstName = name
    · subst hname
      rw [erase, List.filter_cons_of_neg (by simp)]
      change find? other (erase firstName rest) = _
      rw [ih]
      by_cases h : firstName = other <;> simp [h]
    · rw [erase, List.filter_cons_of_pos (by simpa using hname), find?_cons]
      change (if firstName = other then some old else find? other (erase name rest)) = _
      rw [ih]
      by_cases h : firstName = other
      · subst h
        rw [if_pos rfl, if_pos rfl, if_neg (Ne.symm hname)]
      · rw [if_neg h, if_neg h]

/-- A change of the entries of a directory leaves all names but one alone. -/
def ChangesOnly (name : String) (f : List (String × Entry) → List (String × Entry)) : Prop :=
  ∀ other entries, name ≠ other → find? other (f entries) = find? other entries

/-- Putting an entry among others leaves all other names alone. -/
theorem changesOnly_insert (name : String) (new : Entry) : ChangesOnly name (insert name new) :=
  fun other entries hne => by rw [find?_insert, if_neg hne]

/-- Taking an entry out leaves all other names alone. -/
theorem changesOnly_erase (name : String) : ChangesOnly name (erase name) :=
  fun other entries hne => by rw [find?_erase, if_neg hne]

variable {f : List (String × Entry) → List (String × Entry)}

/-- A directory that is changed has its new entries. -/
theorem at?_modify_inside (h : entry.at? directory = some (.directory entries)) :
    (entry.modify f directory).at? (directory ++ rest) = (Entry.directory (f entries)).at? rest := by
  induction directory generalizing entry with
  | nil =>
    obtain rfl : entry = .directory entries := by simpa [at?] using h
    rw [List.nil_append, modify]
  | cons first directory ih =>
    cases entry with
    | file content => simp [at?] at h
    | link target => simp [at?] at h
    | directory others =>
      rw [at?] at h
      split at h
      · rename_i inner hinner
        rw [modify, hinner]
        simp only
        rw [List.cons_append, at?, find?_insert, if_pos rfl]
        exact ih h
      · cases h

/-- What lies elsewhere stays as it is when one entry of a directory is changed. -/
theorem at?_modify_apart (hf : ChangesOnly name f) (haround : ¬ location <+: directory)
    (hbelow : ¬ directory ++ [name] <+: location) :
    (entry.modify f directory).at? location = entry.at? location := by
  induction directory generalizing entry location with
  | nil =>
    cases location with
    | nil => exact absurd List.prefix_rfl haround
    | cons other location =>
      have hne : name ≠ other := by
        rintro rfl
        exact hbelow (by simp)
      cases entry with
      | file content => rfl
      | link target => rfl
      | directory entries => rw [modify, at?, at?, hf other entries hne]
  | cons first directory ih =>
    cases location with
    | nil => exact absurd List.nil_prefix haround
    | cons other location =>
      cases entry with
      | file content => rfl
      | link target => rfl
      | directory entries =>
        rw [modify]
        split
        · rename_i inner hinner
          rw [at?, at?, find?_insert]
          by_cases hother : first = other
          · subst hother
            rw [if_pos rfl, hinner]
            refine ih (fun h => haround ?_) fun h => hbelow ?_
            · exact List.cons_prefix_cons.mpr ⟨rfl, h⟩
            · exact List.cons_prefix_cons.mpr ⟨rfl, h⟩
          · rw [if_neg hother]
        · rfl

/-- A directory around the one that is changed stays a directory. -/
theorem exists_at?_modify_around (h : entry.at? directory = some (.directory entries))
    (hlocation : location <+: directory) :
    ∃ before after, entry.at? location = some (.directory before) ∧
      (entry.modify f directory).at? location = some (.directory after) := by
  induction directory generalizing entry location with
  | nil =>
    obtain rfl := List.prefix_nil.mp hlocation
    obtain rfl : entry = .directory entries := by simpa [at?] using h
    exact ⟨entries, _, by rw [at?], by rw [modify, at?]⟩
  | cons first directory ih =>
    cases entry with
    | file content => simp [at?] at h
    | link target => simp [at?] at h
    | directory others =>
      rw [at?] at h
      split at h
      · rename_i inner hinner
        rw [modify, hinner]
        cases location with
        | nil => exact ⟨others, _, by rw [at?], by rw [at?]⟩
        | cons other location =>
          obtain ⟨rfl, hrest⟩ := List.cons_prefix_cons.mp hlocation
          obtain ⟨before, after, hbefore, hafter⟩ := ih h hrest
          refine ⟨before, after, by rw [at?, hinner]; exact hbefore, ?_⟩
          rw [at?, find?_insert, if_pos rfl]
          exact hafter
      · cases h

end Entry

namespace FileTree

variable {tree : FileTree} {directory location rest : List String} {name : String} {entry : Entry}

/-- A directory has entries. -/
theorem exists_entries (h : tree.isDirectoryAt location = true) :
    ∃ entries, tree.root.at? location = some (.directory entries) := by
  rw [isDirectoryAt] at h
  split at h
  · rename_i entry hentry
    cases entry with
    | directory entries => exact ⟨entries, hentry⟩
    | file content => cases h
    | link target => cases h
  · cases h

/-- What is seen at a location. -/
def faceAt (tree : FileTree) (location : List String) : Option Entry.Face :=
  (tree.root.at? location).map (·.face)

/-- A location is one of a directory if a directory is seen there. -/
theorem isDirectoryAt_iff_faceAt :
    tree.isDirectoryAt location = true ↔ tree.faceAt location = some .directory := by
  rw [isDirectoryAt, faceAt]
  cases tree.root.at? location with
  | none => simp
  | some entry => cases entry <;> simp [Entry.isDirectory, Entry.face]

/-- There is a file at a location if it is seen there. -/
theorem at?_eq_file_iff {content : ByteArray} :
    tree.root.at? location = some (.file content) ↔
      tree.faceAt location = some (.file content) := by
  rw [faceAt]
  cases tree.root.at? location with
  | none => simp
  | some entry => cases entry <;> simp [Entry.face]

/-- There is a link at a location if it is seen there. -/
theorem at?_eq_link_iff {target : String} :
    tree.root.at? location = some (.link target) ↔ tree.faceAt location = some (.link target) := by
  rw [faceAt]
  cases tree.root.at? location with
  | none => simp
  | some entry => cases entry <;> simp [Entry.face]

/-- There is nothing at a location if nothing is seen there. -/
theorem at?_eq_none_iff : tree.root.at? location = none ↔ tree.faceAt location = none := by
  simp [faceAt]

/-- Nothing changes its face but one entry of a directory, and what lies in it. -/
theorem faceAt_modify_outside {f : List (String × Entry) → List (String × Entry)}
    (hf : Entry.ChangesOnly name f) (h : tree.isDirectoryAt directory = true)
    (hbelow : ¬ directory ++ [name] <+: location) :
    ((tree.root.modify f directory).at? location).map (·.face) = tree.faceAt location := by
  by_cases haround : location <+: directory
  · obtain ⟨entries, hentries⟩ := exists_entries h
    obtain ⟨before, after, hbefore, hafter⟩ : ∃ before after,
        tree.root.at? location = some (.directory before) ∧
          (tree.root.modify f directory).at? location = some (.directory after) :=
      Entry.exists_at?_modify_around hentries haround
    rw [faceAt, hbefore, hafter]
    rfl
  · rw [faceAt, Entry.at?_modify_apart hf haround hbelow]

/-- An entry that is put into a directory is seen at its place. -/
theorem faceAt_put_inside (h : tree.isDirectoryAt directory = true) :
    (tree.put directory name entry).faceAt (directory ++ name :: rest) =
      (entry.at? rest).map (·.face) := by
  obtain ⟨entries, hentries⟩ := exists_entries h
  rw [faceAt, put, Entry.at?_modify_inside hentries, Entry.at?, Entry.find?_insert, if_pos rfl]

/-- Nothing else changes its face when an entry is put into a directory. -/
theorem faceAt_put_outside (h : tree.isDirectoryAt directory = true)
    (hbelow : ¬ directory ++ [name] <+: location) :
    (tree.put directory name entry).faceAt location = tree.faceAt location :=
  faceAt_modify_outside (Entry.changesOnly_insert name entry) h hbelow

end FileTree

end CorpusFacts
