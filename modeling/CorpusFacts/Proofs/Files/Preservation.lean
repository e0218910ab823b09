import CorpusFacts.Proofs.Files.Resolution

/-!
# Changes keep trees sound

A name that a path leads to and that does not exist yet is one that an entry can have. So making
directories, writing files, making links and removing entries turn a sound tree into a sound tree,
and every tree that is made in these ways is sound.
-/

namespace CorpusFacts

namespace Entry

variable {name other : String} {entry inner : Entry} {entries : List (String × Entry)}

/-- What is among some entries after one is put there is this one or was there before. -/
theorem mem_insert (h : (other, inner) ∈ insert name entry entries) :
    (other = name ∧ inner = entry) ∨ (other, inner) ∈ entries := by
  induction entries with
  | nil => simpa [insert] using h
  | cons first rest ih =>
    obtain ⟨firstName, old⟩ := first
    rw [insert] at h
    split at h
    · rcases List.mem_cons.mp h with heq | h
      · exact Or.inl (by simpa using heq)
      · exact Or.inr (List.mem_cons_of_mem _ h)
    · split at h
      · rcases List.mem_cons.mp h with heq | h
        · exact Or.inl (by simpa using heq)
        · exact Or.inr h
      · rcases List.mem_cons.mp h with heq | h
        · exact Or.inr (heq ▸ List.mem_cons_self ..)
        · exact (ih h).imp_right (List.mem_cons_of_mem _)

/-- Putting an entry among others keeps their order. -/
theorem insert_sorted (h : (entries.map (·.1)).Pairwise (· < ·)) :
    ((insert name entry entries).map (·.1)).Pairwise (· < ·) := by
  induction entries with
  | nil => simp [insert]
  | cons first rest ih =>
    obtain ⟨firstName, old⟩ := first
    obtain ⟨hfirst, hrest⟩ := List.pairwise_cons.mp h
    rw [insert]
    split
    · rename_i hsame
      obtain rfl : name = firstName := by simpa using hsame
      exact List.pairwise_cons.mpr ⟨hfirst, hrest⟩
    · rename_i hne
      have hne : name ≠ firstName := by simpa using hne
      split
      · rename_i hlt
        refine List.pairwise_cons.mpr ⟨fun later hlater => ?_, h⟩
        rcases List.mem_cons.mp hlater with rfl | hlater
        · exact hlt
        · exact hlt.trans (hfirst later hlater)
      · rename_i hle
        have hlt : firstName < name := lt_of_le_of_ne (not_lt.mp hle) hne.symm
        refine List.pairwise_cons.mpr ⟨fun later hlater => ?_, ih hrest⟩
        obtain ⟨⟨later, found⟩, hmem, rfl⟩ := List.mem_map.mp hlater
        rcases mem_insert hmem with ⟨rfl, _⟩ | hmem
        · exact hlt
        · exact hfirst later (List.mem_map_of_mem (f := (·.1)) hmem)

namespace IsSound

/-- A sound directory stays sound when a sound entry is put into it under a possible name. -/
theorem insert (h : (Entry.directory entries).IsSound) (hname : IsEntryName name)
    (hentry : entry.IsSound) : (Entry.directory (Entry.insert name entry entries)).IsSound := by
  cases h with
  | directory hsorted hnames hentries =>
    refine .directory (insert_sorted hsorted) (fun other inner hmem => ?_)
      fun other inner hmem => ?_
    · rcases mem_insert hmem with ⟨rfl, _⟩ | hmem
      · exact hname
      · exact hnames other inner hmem
    · rcases mem_insert hmem with ⟨_, rfl⟩ | hmem
      · exact hentry
      · exact hentries other inner hmem

/-- A sound directory stays sound when an entry is taken out of it. -/
theorem erase (h : (Entry.directory entries).IsSound) :
    (Entry.directory (Entry.erase name entries)).IsSound := by
  cases h with
  | directory hsorted hnames hentries =>
    exact .directory (hsorted.sublist (List.filter_sublist.map _))
      (fun other inner hmem => hnames other inner (List.mem_filter.mp hmem).1)
      fun other inner hmem => hentries other inner (List.mem_filter.mp hmem).1

/-- A sound entry stays sound when a directory in it is changed to a sound one. -/
theorem modify {f : List (String × Entry) → List (String × Entry)}
    (hf : ∀ entries, (Entry.directory entries).IsSound → (Entry.directory (f entries)).IsSound)
    (h : entry.IsSound) (location : List String) : (entry.modify f location).IsSound := by
  induction location generalizing entry with
  | nil =>
    cases entry with
    | directory entries => exact hf entries h
    | file content => exact h
    | link target => exact h
  | cons name location ih =>
    cases entry with
    | file content => exact h
    | link target => exact h
    | directory entries =>
      rw [Entry.modify]
      split
      · rename_i inner hinner
        have hmem := mem_of_find? hinner
        have hsound := h
        cases hsound with
        | directory _ hnames hentries =>
          exact h.insert (hnames name inner hmem) (ih (hentries name inner hmem))
      · exact h

end IsSound

end Entry

/-- Runs of characters that stand between slashes in a path that can be resolved. -/
def Path.AreRuns (steps : List (List Char)) : Prop :=
  ∀ step ∈ steps, '/' ∉ step ∧ '\x00' ∉ step

/-- The segments of a path without NUL characters are runs between slashes. -/
theorem Path.areRuns_segments {path : Path} (h : '\x00' ∉ path.text.toList) :
    AreRuns path.segments := by
  intro step hstep
  constructor
  · intro hslash
    have hplain := Text.not_separator_of_mem_splitWhere hstep '/' hslash
    simp at hplain
  · exact fun hnul => h (Text.mem_of_mem_splitWhere hstep hnul)

namespace FileTree

variable {tree made : FileTree} {followLast asDirectory : Bool} {links : Nat}
  {location directory : List String} {steps : List (List Char)} {path : Path} {name target : String}
  {entry : Entry} {content : ByteArray}

/-- What comes first succeeds where both of two steps do. -/
theorem exists_of_bind_eq_ok {ε α β : Type} {first : Except ε α} {next : α → Except ε β}
    {result : β} (h : first >>= next = .ok result) : ∃ a, first = .ok a ∧ next a = .ok result := by
  cases first with
  | error failure => cases h
  | ok a => exact ⟨a, rfl, h⟩

/-- A name that steps lead to and that does not exist is one that an entry can have, if the steps of
every link are followed to such a name. -/
theorem isEntryName_of_resolveSteps
    {follow : List String → List (List Char) → Except FileFailure Place}
    (hsound : tree.root.IsSound)
    (hfollow : ∀ start rest, Path.AreRuns rest →
      follow start rest = .ok (.absent directory name asDirectory) → IsEntryName name)
    (hsteps : Path.AreRuns steps)
    (h : tree.resolveSteps followLast follow location steps =
      .ok (.absent directory name asDirectory)) : IsEntryName name := by
  fun_induction tree.resolveSteps followLast follow location steps with
  | case1 => cases h
  | case2 => cases h
  | case3 location step steps _ _ ih =>
    exact ih (fun later hlater => hsteps later (List.mem_cons_of_mem _ hlater)) h
  | case4 location step steps _ _ _ ih =>
    exact ih (fun later hlater => hsteps later (List.mem_cons_of_mem _ hlater)) h
  | case5 => cases h
  | case6 location step steps _ hidle hparent hshort =>
    simp only [Except.ok.injEq, Place.absent.injEq] at h
    obtain ⟨_, rfl, _⟩ := h
    obtain ⟨hslash, hnul⟩ := hsteps step (List.mem_cons_self ..)
    refine ⟨?_, ?_, ?_, ?_, ?_⟩ <;> rw [String.toList_ofList]
    · simpa using hidle
    · simpa using hparent
    · exact hslash
    · exact hnul
    · omega
  | case7 => cases h
  | case8 => cases h
  | case9 location step steps _ _ _ _ name target hentry _ =>
    refine hfollow _ _ (fun later hlater => ?_) h
    have hlink : (Entry.link target).IsSound := (hsound.at? hentry).1
    rcases List.mem_append.mp hlater with hlater | hlater
    · cases hlink with
      | link hnoNul => exact Path.areRuns_segments hnoNul later hlater
    · exact hsteps later (List.mem_cons_of_mem _ hlater)
  | case10 location step steps _ _ _ _ name entry _ _ ih =>
    exact ih (fun later hlater => hsteps later (List.mem_cons_of_mem _ hlater)) h

/-- A name that a path leads to and that does not exist is one that an entry can have. -/
theorem isEntryName_of_resolve (hsound : tree.root.IsSound)
    (h : tree.resolve path followLast = .ok (.absent directory name asDirectory)) :
    IsEntryName name := by
  have hfrom : ∀ links location steps, Path.AreRuns steps →
      tree.resolveFrom followLast links location steps = .ok (.absent directory name asDirectory) →
        IsEntryName name := by
    intro links
    induction links with
    | zero =>
      intro location steps hsteps hresolved
      exact isEntryName_of_resolveSteps hsound (fun _ _ _ herror => by cases herror) hsteps
        hresolved
    | succ links ih =>
      intro location steps hsteps hresolved
      exact isEntryName_of_resolveSteps hsound (fun start rest => ih start rest) hsteps hresolved
  rw [resolve] at h
  split at h
  · cases h
  · rename_i hnul
    split at h
    · cases h
    · exact hfrom _ _ _ (Path.areRuns_segments (by simpa using hnul)) h

/-- Putting a sound entry into a directory under a possible name keeps a tree sound. -/
theorem put_isSound (hsound : tree.root.IsSound) (hname : IsEntryName name) (hentry : entry.IsSound)
    (directory : List String) : (tree.put directory name entry).root.IsSound :=
  hsound.modify (fun _ h => h.insert hname hentry) directory

/-- A directory is made where its path leads to a name that does not exist. -/
theorem exists_of_makeDirectory (h : tree.makeDirectory path = .ok made) :
    ∃ directory name asDirectory,
      tree.resolve path false = .ok (.absent directory name asDirectory) ∧
      made = tree.put directory name (.directory []) := by
  rw [makeDirectory] at h
  obtain ⟨place, hplace, h⟩ := exists_of_bind_eq_ok h
  cases place with
  | existing location => cases h
  | absent directory name asDirectory =>
    cases h
    exact ⟨directory, name, asDirectory, hplace, rfl⟩

/-- Making a directory keeps a tree sound. -/
theorem makeDirectory_isSound (hsound : tree.root.IsSound)
    (h : tree.makeDirectory path = .ok made) : made.root.IsSound := by
  obtain ⟨directory, name, _, hplace, rfl⟩ := exists_of_makeDirectory h
  exact put_isSound hsound (isEntryName_of_resolve hsound hplace)
    (.directory (by simp) (by simp) (by simp)) directory

/-- Making nested directories keeps a tree sound. -/
theorem makeNested_isSound (hsound : tree.root.IsSound) (paths : List Path) :
    (tree.makeNested paths).1.root.IsSound := by
  induction paths generalizing tree with
  | nil => exact hsound
  | cons path outer ih =>
    rw [makeNested]
    split
    · rename_i made hmade
      exact makeDirectory_isSound hsound hmade
    · split
      · rename_i made failure hmade
        have hmadeSound := ih hsound
        rwa [hmade] at hmadeSound
      · rename_i made hmade
        have hmadeSound := ih hsound
        rw [hmade] at hmadeSound
        split
        · rename_i inner hinner
          exact makeDirectory_isSound hmadeSound hinner
        · exact hmadeSound
    · exact hsound

/-- Making a directory and those around it keeps a tree sound. -/
theorem makeDirectories_isSound (hsound : tree.root.IsSound) (path : Path) :
    (tree.makeDirectories path).1.root.IsSound := by
  rw [makeDirectories]
  split
  · exact hsound
  · exact makeNested_isSound hsound _

/-- A file is written where its path leads. -/
theorem resolve_of_writtenPlace {found : Place} (h : tree.writtenPlace path = .ok found) :
    tree.resolve path true = .ok found := by
  simp only [writtenPlace] at h
  split at h
  · exact h
  · split at h
    · cases h
    · obtain ⟨_, _, h⟩ := exists_of_bind_eq_ok h
      cases h

/-- Writing a file keeps a tree sound. -/
theorem write_isSound (hsound : tree.root.IsSound) (h : tree.write path content = .ok made) :
    made.root.IsSound := by
  rw [write] at h
  obtain ⟨place, hplace, h⟩ := exists_of_bind_eq_ok h
  cases place with
  | absent directory name asDirectory =>
    cases asDirectory with
    | true => cases h
    | false =>
      cases h
      have hname := isEntryName_of_resolve hsound (resolve_of_writtenPlace hplace)
      exact put_isSound hsound hname .file directory
  | existing location =>
    simp only at h
    split at h
    · rename_i old name hold hname
      cases h
      exact put_isSound hsound ((hsound.at? hold).2 name (List.mem_of_getLast? hname)) .file _
    · cases h

/-- Making a link to a path keeps a tree sound. -/
theorem makeLink_isSound (hsound : tree.root.IsSound) (htarget : '\x00' ∉ target.toList)
    (h : tree.makeLink path target = .ok made) : made.root.IsSound := by
  rw [makeLink] at h
  obtain ⟨place, hplace, h⟩ := exists_of_bind_eq_ok h
  cases place with
  | existing location => cases h
  | absent directory name asDirectory =>
    cases asDirectory with
    | true => cases h
    | false =>
      cases h
      exact put_isSound hsound (isEntryName_of_resolve hsound hplace) (.link htarget) directory

/-- Removing an entry keeps a tree sound. -/
theorem remove_isSound (hsound : tree.root.IsSound) (h : tree.remove path = .ok made) :
    made.root.IsSound := by
  rw [remove] at h
  obtain ⟨place, hplace, h⟩ := exists_of_bind_eq_ok h
  cases place with
  | absent directory name asDirectory => cases h
  | existing location =>
    simp only at h
    split at h
    · cases h
      exact hsound.modify (fun _ hentries => hentries.erase) _
    · cases h

/-- A tree that comes about by changes, from a root directory without entries. -/
inductive IsMade : FileTree → Prop
  /-- At first there is only the root directory. -/
  | empty {working : List String} : IsMade ⟨.directory [], working⟩
  /-- Another directory becomes the working directory. -/
  | moved {tree : FileTree} {working : List String} (h : IsMade tree) :
      IsMade { tree with working := working }
  /-- Directories are made, as far as they can be. -/
  | directories {tree : FileTree} {path : Path} (h : IsMade tree) :
      IsMade (tree.makeDirectories path).1
  /-- A file is written. -/
  | file {tree made : FileTree} {path : Path} {content : ByteArray} (h : IsMade tree)
      (hmade : tree.write path content = .ok made) : IsMade made
  /-- A link is made. -/
  | link {tree made : FileTree} {path : Path} {target : String} (h : IsMade tree)
      (htarget : '\x00' ∉ target.toList) (hmade : tree.makeLink path target = .ok made) :
      IsMade made
  /-- An entry is removed. -/
  | removed {tree made : FileTree} {path : Path} (h : IsMade tree)
      (hmade : tree.remove path = .ok made) : IsMade made

/-- Every tree that comes about by changes is sound. -/
theorem IsMade.isSound (h : IsMade tree) : tree.root.IsSound := by
  induction h with
  | empty => exact .directory (by simp) (by simp) (by simp)
  | moved _ ih => exact ih
  | directories _ ih => exact makeDirectories_isSound ih _
  | file _ hmade ih => exact write_isSound ih hmade
  | link _ htarget hmade ih => exact makeLink_isSound ih htarget hmade
  | removed _ hmade ih => exact remove_isSound ih hmade

end FileTree

end CorpusFacts
