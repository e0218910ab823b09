import CorpusFacts.Proofs.Files.Directories
import Mathlib.Data.String.Basic

/-!
# Sound trees

The entries of a directory are in ascending order of their names, so no two have the same, and each
name is one that a path can spell: not empty, neither one nor two dots, without slashes and NUL
characters, and not too long. In a sound tree an entry is found again by its name, and a location
leads to one entry.
-/

namespace CorpusFacts

/-- A name that an entry of a directory can have. -/
structure IsEntryName (name : String) : Prop where
  /-- It is neither empty nor a dot. -/
  notIdle : Path.isIdle name.toList = false
  /-- It is not the name for the directory around. -/
  notParent : name.toList ≠ ['.', '.']
  /-- It is one step of a path. -/
  noSlash : '/' ∉ name.toList
  /-- It has no NUL character. -/
  noNul : '\x00' ∉ name.toList
  /-- It is not too long. -/
  short : Text.byteLength name.toList ≤ FileTree.maxNameBytes

/-- Whether an entry can have a name is decided by its characters. -/
instance (name : String) : Decidable (IsEntryName name) :=
  decidable_of_iff (Path.isIdle name.toList = false ∧ name.toList ≠ ['.', '.'] ∧
      '/' ∉ name.toList ∧ '\x00' ∉ name.toList ∧
      Text.byteLength name.toList ≤ FileTree.maxNameBytes)
    ⟨fun ⟨hidle, hparent, hslash, hnul, hshort⟩ => ⟨hidle, hparent, hslash, hnul, hshort⟩,
      fun h => ⟨h.notIdle, h.notParent, h.noSlash, h.noNul, h.short⟩⟩

namespace Entry

/-- The names in each directory of an entry are in ascending order, and possible ones. -/
inductive IsSound : Entry → Prop
  /-- A file holds no names. -/
  | file {content : ByteArray} : IsSound (.file content)
  /-- The target of a link is a path. -/
  | link {target : String} (hnoNul : '\x00' ∉ target.toList) : IsSound (.link target)
  /-- A directory is sound with its entries. -/
  | directory {entries : List (String × Entry)}
      (hsorted : (entries.map (·.1)).Pairwise (· < ·))
      (hnames : ∀ name entry, (name, entry) ∈ entries → IsEntryName name)
      (hentries : ∀ name entry, (name, entry) ∈ entries → IsSound entry) :
      IsSound (.directory entries)

mutual

/-- Whether an entry is sound, by a look at every directory. -/
def checkSound : Entry → Bool
  | .file _ => true
  | .link target => decide ('\x00' ∉ target.toList)
  | .directory entries =>
    decide ((entries.map (·.1)).Pairwise (· < ·)) && checkSoundOf entries

/-- Whether some entries are sound, under possible names. -/
def checkSoundOf : List (String × Entry) → Bool
  | [] => true
  | (name, entry) :: rest => decide (IsEntryName name) && entry.checkSound && checkSoundOf rest

end

mutual

/-- An entry is sound if every directory is. -/
theorem checkSound_eq_true_iff : (entry : Entry) → (entry.checkSound = true ↔ entry.IsSound)
  | .file _ => by simpa [checkSound] using IsSound.file
  | .link target => by
    rw [checkSound, decide_eq_true_iff]
    constructor
    · exact .link
    · intro h
      cases h with
      | link hnoNul => exact hnoNul
  | .directory entries => by
    rw [checkSound, Bool.and_eq_true, decide_eq_true_iff, checkSoundOf_eq_true_iff entries]
    constructor
    · rintro ⟨hsorted, hentries⟩
      exact .directory hsorted (fun name entry hmem => (hentries name entry hmem).1)
        fun name entry hmem => (hentries name entry hmem).2
    · intro h
      cases h with
      | directory hsorted hnames hentries =>
        exact ⟨hsorted, fun name entry hmem => ⟨hnames name entry hmem, hentries name entry hmem⟩⟩

/-- Some entries are sound if each of them is, under a possible name. -/
theorem checkSoundOf_eq_true_iff : (entries : List (String × Entry)) →
    (checkSoundOf entries = true ↔
      ∀ name entry, (name, entry) ∈ entries → IsEntryName name ∧ entry.IsSound)
  | [] => by simp [checkSoundOf]
  | (name, entry) :: rest => by
    rw [checkSoundOf, Bool.and_eq_true, Bool.and_eq_true, decide_eq_true_iff,
      checkSound_eq_true_iff entry, checkSoundOf_eq_true_iff rest]
    simp only [List.mem_cons, Prod.mk.injEq]
    constructor
    · rintro ⟨hfirst, hrest⟩ other inner (⟨rfl, rfl⟩ | hmem)
      · exact hfirst
      · exact hrest other inner hmem
    · intro h
      exact ⟨h name entry (Or.inl ⟨rfl, rfl⟩), fun other inner hmem => h other inner (Or.inr hmem)⟩

end

/-- Whether an entry is sound is decided by a look at every directory. -/
instance (entry : Entry) : Decidable entry.IsSound :=
  decidable_of_iff _ (checkSound_eq_true_iff entry)

/-- Where names are in ascending order, every entry is found by its name. -/
theorem find?_of_mem {name : String} {entry : Entry} {entries : List (String × Entry)}
    (hsorted : (entries.map (·.1)).Pairwise (· < ·)) (h : (name, entry) ∈ entries) :
    find? name entries = some entry := by
  induction entries with
  | nil => cases h
  | cons first rest ih =>
    obtain ⟨other, found⟩ := first
    obtain ⟨hnew, hrest⟩ := List.pairwise_cons.mp hsorted
    rcases List.mem_cons.mp h with heq | h
    · cases heq
      rw [find?, if_pos (by simp)]
    · have hne : other ≠ name := by
        rintro rfl
        exact lt_irrefl _ (hnew other (List.mem_map_of_mem (f := (·.1)) h))
      rw [find?, if_neg (by simpa using hne)]
      exact ih hrest h

/-- An entry deeper down is found from one on the way. -/
theorem at?_append (entry : Entry) (first second : List String) :
    entry.at? (first ++ second) = (entry.at? first).bind (·.at? second) := by
  induction first generalizing entry with
  | nil => simp [at?]
  | cons name first ih =>
    cases entry with
    | file content => simp [at?]
    | link target => simp [at?]
    | directory entries =>
      rw [List.cons_append, at?, at?]
      cases find? name entries with
      | none => rfl
      | some inner => exact ih inner

/-- What lies in a sound entry is sound, under a possible name. -/
theorem IsSound.at? {entry inner : Entry} {location : List String} (hsound : entry.IsSound)
    (h : entry.at? location = some inner) :
    inner.IsSound ∧ ∀ name ∈ location, IsEntryName name := by
  induction location generalizing entry with
  | nil =>
    obtain rfl : entry = inner := by simpa [Entry.at?] using h
    exact ⟨hsound, by simp⟩
  | cons name location ih =>
    cases hsound with
    | file => simp [Entry.at?] at h
    | link => simp [Entry.at?] at h
    | @directory entries hsorted hnames hentries =>
      rw [Entry.at?] at h
      split at h
      · rename_i found hfound
        have hmem := mem_of_find? hfound
        obtain ⟨hinner, hrest⟩ := ih (hentries name found hmem) h
        exact ⟨hinner, List.forall_mem_cons.mpr ⟨hnames name found hmem, hrest⟩⟩
      · cases h

end Entry

namespace FileTree

/-- The directory around an entry is a directory. -/
theorem isDirectoryAt_of_at? {tree : FileTree} {location : List String} {name : String}
    {entry : Entry} (h : tree.root.at? (location ++ [name]) = some entry) :
    tree.isDirectoryAt location = true := by
  rw [Entry.at?_append, Option.bind_eq_some_iff] at h
  obtain ⟨around, haround, hinner⟩ := h
  rw [isDirectoryAt, haround]
  cases around with
  | directory entries => rfl
  | file content => simp [Entry.at?] at hinner
  | link target => simp [Entry.at?] at hinner

end FileTree

end CorpusFacts
