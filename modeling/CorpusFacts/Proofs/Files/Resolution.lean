import CorpusFacts.Proofs.Files.Joining
import CorpusFacts.Proofs.Files.Soundness
import Mathlib.Data.List.Induction

/-!
# Where paths lead

Resolving a path takes its steps one after the other, so a longer path leads on from where its
beginning leads. A path leads to an entry that is no link, and the entries of a directory are found
by their names behind the path of the directory.
-/

namespace CorpusFacts

/-- Whether an entry is a link. -/
def Entry.isLink : Entry → Bool
  | .link _ => true
  | _ => false

/-- Only an entry itself can be a link on the way to one that is none. -/
theorem Entry.isLink_of_at? {entry inner : Entry} {names : List String}
    (h : entry.at? names = some inner) (hplain : inner.isLink = false) : entry.isLink = false := by
  cases entry with
  | file content => rfl
  | directory entries => rfl
  | link target =>
    cases names with
    | nil =>
      obtain rfl : Entry.link target = inner := by simpa [Entry.at?] using h
      cases hplain
    | cons name names => simp [Entry.at?] at h

namespace FileTree

/-- A step that is looked up as a name. -/
structure IsNameStep (step : List Char) : Prop where
  /-- It is neither empty nor a dot. -/
  notIdle : Path.isIdle step = false
  /-- It does not lead to the directory around. -/
  notParent : step ≠ ['.', '.']
  /-- It is not too long for a name. -/
  short : Text.byteLength step ≤ maxNameBytes

/-- Steps lead from a location to an existing place, when so many links may be followed. -/
inductive Leads (tree : FileTree) (followLast : Bool) :
    Nat → List String → List (List Char) → List String → Prop
  /-- No step leads anywhere else. -/
  | here {links : Nat} {location : List String} : Leads tree followLast links location [] location
  /-- An empty step or a dot stays in the directory. -/
  | stays {links : Nat} {location place : List String} {step : List Char}
      {steps : List (List Char)} (hdirectory : tree.isDirectoryAt location = true)
      (hidle : Path.isIdle step = true) (hrest : Leads tree followLast links location steps place) :
      Leads tree followLast links location (step :: steps) place
  /-- Two dots lead to the directory around. -/
  | climbs {links : Nat} {location place : List String} {steps : List (List Char)}
      (hdirectory : tree.isDirectoryAt location = true)
      (hrest : Leads tree followLast links location.dropLast steps place) :
      Leads tree followLast links location (['.', '.'] :: steps) place
  /-- A name leads to its entry. -/
  | enters {links : Nat} {location place : List String} {step : List Char}
      {steps : List (List Char)} {entry : Entry}
      (hdirectory : tree.isDirectoryAt location = true) (hname : IsNameStep step)
      (hentry : tree.root.at? (location ++ [String.ofList step]) = some entry)
      (hplain : entry.isLink = false)
      (hrest : Leads tree followLast links (location ++ [String.ofList step]) steps place) :
      Leads tree followLast links location (step :: steps) place
  /-- A link leads on to its target. -/
  | follows {links : Nat} {location place : List String} {step : List Char}
      {steps : List (List Char)} {target : String}
      (hdirectory : tree.isDirectoryAt location = true) (hname : IsNameStep step)
      (hentry : tree.root.at? (location ++ [String.ofList step]) = some (.link target))
      (hfollow : steps = [] → followLast = true)
      (hrest : Leads tree followLast links
        (if (⟨target⟩ : Path).isAbsolute then [] else location)
        ((⟨target⟩ : Path).segments ++ steps) place) :
      Leads tree followLast (links + 1) location (step :: steps) place
  /-- A link at the end is the place itself where it is not followed. -/
  | stops {links : Nat} {location : List String} {step : List Char} {target : String}
      (hdirectory : tree.isDirectoryAt location = true) (hname : IsNameStep step)
      (hentry : tree.root.at? (location ++ [String.ofList step]) = some (.link target))
      (hlast : followLast = false) :
      Leads tree followLast links location [step] (location ++ [String.ofList step])

variable {tree : FileTree} {followLast : Bool} {links : Nat} {location place : List String}
  {steps later : List (List Char)} {path : Path}

/-- Resolving steps goes on from links in one way or another. -/
theorem exists_follow (tree : FileTree) (followLast : Bool) (links : Nat) :
    ∃ follow, tree.resolveFrom followLast links = tree.resolveSteps followLast follow := by
  cases links with
  | zero => exact ⟨_, rfl⟩
  | succ links => exact ⟨_, rfl⟩

/-- The name of an entry that is no link leads to the entry. -/
theorem resolveSteps_plain {follow : List String → List (List Char) → Except FileFailure Place}
    {step : List Char} {entry : Entry} (hdirectory : tree.isDirectoryAt location = true)
    (hname : IsNameStep step)
    (hentry : tree.root.at? (location ++ [String.ofList step]) = some entry)
    (hplain : entry.isLink = false) :
    tree.resolveSteps followLast follow location (step :: steps) =
      tree.resolveSteps followLast follow (location ++ [String.ofList step]) steps := by
  rw [resolveSteps, if_neg (by simpa using hdirectory), if_neg (by simp [hname.notIdle]),
    if_neg (by simpa using hname.notParent), if_neg (by have := hname.short; omega)]
  cases entry with
  | link target => cases hplain
  | file content => simp only [hentry]
  | directory entries => simp only [hentry]

/-- The name of a link leads to where the link is followed to, or to the link. -/
theorem resolveSteps_link {follow : List String → List (List Char) → Except FileFailure Place}
    {step : List Char} {target : String} (hdirectory : tree.isDirectoryAt location = true)
    (hname : IsNameStep step)
    (hentry : tree.root.at? (location ++ [String.ofList step]) = some (.link target)) :
    tree.resolveSteps followLast follow location (step :: steps) =
      if steps.isEmpty && !followLast then .ok (.existing (location ++ [String.ofList step]))
      else
        follow (if (⟨target⟩ : Path).isAbsolute then [] else location)
          ((⟨target⟩ : Path).segments ++ steps) := by
  rw [resolveSteps, if_neg (by simpa using hdirectory), if_neg (by simp [hname.notIdle]),
    if_neg (by simpa using hname.notParent), if_neg (by have := hname.short; omega)]
  simp only [hentry]

/-- Steps that are resolved to a place lead there if links are followed to where they lead. -/
theorem leads_of_resolveSteps {follow : List String → List (List Char) → Except FileFailure Place}
    (hfollow : ∀ start rest, follow start rest = .ok (.existing place) →
      ∃ left, links = left + 1 ∧ Leads tree followLast left start rest place)
    (h : tree.resolveSteps followLast follow location steps = .ok (.existing place)) :
    Leads tree followLast links location steps place := by
  fun_induction tree.resolveSteps followLast follow location steps with
  | case1 location =>
    cases h
    exact .here
  | case2 => cases h
  | case3 location step steps hdirectory hidle ih =>
    exact .stays (by simpa using hdirectory) hidle (ih h)
  | case4 location step steps hdirectory _ hparent ih =>
    obtain rfl : step = ['.', '.'] := by simpa using hparent
    exact .climbs (by simpa using hdirectory) (ih h)
  | case5 => cases h
  | case6 => cases h
  | case7 => cases h
  | case8 location step steps hdirectory hidle hparent hshort name target hentry hstop =>
    cases h
    obtain ⟨hnil, hlast⟩ : steps = [] ∧ followLast = false := by simpa using hstop
    subst hnil
    exact .stops (by simpa using hdirectory)
      ⟨by simpa using hidle, by simpa using hparent, by omega⟩ hentry hlast
  | case9 location step steps hdirectory hidle hparent hshort name target hentry hgoesOn =>
    obtain ⟨left, rfl, hrest⟩ := hfollow _ _ h
    refine .follows (by simpa using hdirectory)
      ⟨by simpa using hidle, by simpa using hparent, by omega⟩ hentry ?_ hrest
    rintro rfl
    simpa using hgoesOn
  | case10 location step steps hdirectory hidle hparent hshort name entry hplain hentry ih =>
    refine .enters (by simpa using hdirectory)
      ⟨by simpa using hidle, by simpa using hparent, by omega⟩ hentry ?_ (ih h)
    cases entry with
    | link target => exact absurd rfl (hplain target)
    | file content => rfl
    | directory entries => rfl

/-- Resolving steps finds the place that they lead to. -/
theorem resolveFrom_eq_existing_iff :
    tree.resolveFrom followLast links location steps = .ok (.existing place) ↔
      Leads tree followLast links location steps place := by
  constructor
  · intro h
    induction links generalizing location steps with
    | zero => exact leads_of_resolveSteps (fun _ _ herror => by cases herror) h
    | succ links ih => exact leads_of_resolveSteps (fun _ _ hrest => ⟨links, rfl, ih hrest⟩) h
  · intro h
    induction h with
    | @here links location =>
      obtain ⟨follow, hfollow⟩ := exists_follow tree followLast links
      rw [hfollow, resolveSteps]
    | @stays links location place step steps hdirectory hidle _ ih =>
      obtain ⟨follow, hfollow⟩ := exists_follow tree followLast links
      rw [hfollow] at ih ⊢
      rw [resolveSteps, if_neg (by simpa using hdirectory), if_pos hidle]
      exact ih
    | @climbs links location place steps hdirectory _ ih =>
      obtain ⟨follow, hfollow⟩ := exists_follow tree followLast links
      rw [hfollow] at ih ⊢
      rw [resolveSteps, if_neg (by simpa using hdirectory), if_neg (by decide), if_pos (by simp)]
      exact ih
    | @enters links location place step steps entry hdirectory hname hentry hplain _ ih =>
      obtain ⟨follow, hfollow⟩ := exists_follow tree followLast links
      rw [hfollow] at ih ⊢
      rw [resolveSteps_plain hdirectory hname hentry hplain]
      exact ih
    | @follows links location place step steps target hdirectory hname hentry hfollow _ ih =>
      rw [resolveFrom, resolveSteps_link hdirectory hname hentry, if_neg (by simpa using hfollow)]
      exact ih
    | @stops links location step target hdirectory hname hentry hlast =>
      obtain ⟨follow, hfollow⟩ := exists_follow tree followLast links
      rw [hfollow, resolveSteps_link hdirectory hname hentry, if_pos (by simp [hlast])]

/-- The directory around a directory is a directory. -/
theorem isDirectoryAt_dropLast (h : tree.isDirectoryAt location = true) :
    tree.isDirectoryAt location.dropLast = true := by
  rcases List.eq_nil_or_concat location with rfl | ⟨around, name, rfl⟩
  · exact h
  · rw [List.concat_eq_append] at h ⊢
    rw [List.dropLast_concat]
    rw [isDirectoryAt] at h
    split at h
    · rename_i entry hentry
      exact isDirectoryAt_of_at? hentry
    · cases h

/-- The root is a directory if some location is one of a directory. -/
theorem isDirectoryAt_nil (h : tree.isDirectoryAt location = true) :
    tree.isDirectoryAt [] = true := by
  induction location using List.reverseRecOn with
  | nil => exact h
  | append_singleton location name ih =>
    have haround := isDirectoryAt_dropLast h
    rw [List.dropLast_concat] at haround
    exact ih haround

/-- A directory is an entry that is no link. -/
theorem exists_plain_of_isDirectoryAt (h : tree.isDirectoryAt location = true) :
    ∃ entry, tree.root.at? location = some entry ∧ entry.isLink = false := by
  rw [isDirectoryAt] at h
  split at h
  · rename_i entry hentry
    refine ⟨entry, hentry, ?_⟩
    cases entry with
    | directory entries => rfl
    | file content => cases h
    | link target => cases h
  · cases h

namespace Leads

/-- More steps lead on from where the first ones lead. -/
theorem append (h : Leads tree true links location steps place) :
    ∃ left, ∀ {followLast : Bool} {later : List (List Char)} {target : List String},
      (later = [] → followLast = true) → Leads tree followLast left place later target →
        Leads tree followLast links location (steps ++ later) target := by
  induction h with
  | @here links location => exact ⟨links, fun _ hlater => hlater⟩
  | stays hdirectory hidle _ ih =>
    obtain ⟨left, hleft⟩ := ih
    exact ⟨left, fun hlast hlater => .stays hdirectory hidle (hleft hlast hlater)⟩
  | climbs hdirectory _ ih =>
    obtain ⟨left, hleft⟩ := ih
    exact ⟨left, fun hlast hlater => .climbs hdirectory (hleft hlast hlater)⟩
  | enters hdirectory hname hentry hplain _ ih =>
    obtain ⟨left, hleft⟩ := ih
    exact ⟨left, fun hlast hlater => .enters hdirectory hname hentry hplain (hleft hlast hlater)⟩
  | follows hdirectory hname hentry _ _ ih =>
    obtain ⟨left, hleft⟩ := ih
    refine ⟨left, fun hlast hlater => .follows hdirectory hname hentry ?_ ?_⟩
    · exact fun hnil => hlast (List.append_eq_nil_iff.mp hnil).2
    · have hrest := hleft hlast hlater
      rwa [List.append_assoc] at hrest
  | stops _ _ _ hlast =>
    cases hlast

/-- Resolving more steps goes on from where the first ones lead, whatever comes of it. -/
theorem exists_resolveSteps (h : Leads tree true links location steps place) (followLast : Bool) :
    ∃ follow, ∀ later, (later = [] → followLast = true) →
      tree.resolveFrom followLast links location (steps ++ later) =
        tree.resolveSteps followLast follow place later := by
  induction h with
  | @here links location =>
    obtain ⟨follow, hfollow⟩ := exists_follow tree followLast links
    exact ⟨follow, fun later _ => by rw [hfollow, List.nil_append]⟩
  | @stays links location place step steps hdirectory hidle _ ih =>
    obtain ⟨follow, hlater⟩ := ih
    refine ⟨follow, fun later hlast => ?_⟩
    obtain ⟨first, hfirst⟩ := exists_follow tree followLast links
    rw [← hlater later hlast, hfirst, List.cons_append, resolveSteps,
      if_neg (by simpa using hdirectory), if_pos hidle]
  | @climbs links location place steps hdirectory _ ih =>
    obtain ⟨follow, hlater⟩ := ih
    refine ⟨follow, fun later hlast => ?_⟩
    obtain ⟨first, hfirst⟩ := exists_follow tree followLast links
    rw [← hlater later hlast, hfirst, List.cons_append, resolveSteps,
      if_neg (by simpa using hdirectory), if_neg (by decide), if_pos (by simp)]
  | @enters links location place step steps entry hdirectory hname hentry hplain _ ih =>
    obtain ⟨follow, hlater⟩ := ih
    refine ⟨follow, fun later hlast => ?_⟩
    obtain ⟨first, hfirst⟩ := exists_follow tree followLast links
    rw [← hlater later hlast, hfirst, List.cons_append,
      resolveSteps_plain hdirectory hname hentry hplain]
  | @follows links location place step steps target hdirectory hname hentry hfollow _ ih =>
    obtain ⟨follow, hlater⟩ := ih
    refine ⟨follow, fun later hlast => ?_⟩
    have hmore : ¬ ((steps ++ later).isEmpty && !followLast) = true := by
      cases later with
      | nil => simp [hlast rfl]
      | cons next later => simp
    rw [← hlater later hlast, resolveFrom, List.cons_append,
      resolveSteps_link hdirectory hname hentry, if_neg hmore, List.append_assoc]
  | stops _ _ _ hlast =>
    cases hlast

/-- A slash or a dot at the end leads nowhere else. -/
theorem of_append_idle {last : List Char} (hlast : Path.isIdle last = true)
    (h : Leads tree true links location (steps ++ [last]) place) :
    Leads tree true links location steps place := by
  generalize hall : steps ++ [last] = all at h
  induction h generalizing steps with
  | here => simp at hall
  | @stays links location place step rest hdirectory hidle hrest ih =>
    cases steps with
    | nil =>
      obtain ⟨rfl, rfl⟩ : last = step ∧ [] = rest := by simpa using hall
      cases hrest
      exact .here
    | cons first steps =>
      obtain ⟨rfl, rfl⟩ : first = step ∧ steps ++ [last] = rest := by simpa using hall
      exact .stays hdirectory hidle (ih rfl)
  | @climbs links location place rest hdirectory hrest ih =>
    cases steps with
    | nil =>
      obtain ⟨rfl, rfl⟩ : last = ['.', '.'] ∧ [] = rest := by simpa using hall
      exact absurd hlast (by decide)
    | cons first steps =>
      obtain ⟨rfl, rfl⟩ : first = ['.', '.'] ∧ steps ++ [last] = rest := by simpa using hall
      exact .climbs hdirectory (ih rfl)
  | @enters links location place step rest entry hdirectory hname hentry hplain hrest ih =>
    cases steps with
    | nil =>
      obtain ⟨rfl, rfl⟩ : last = step ∧ [] = rest := by simpa using hall
      exact absurd hlast (by simp [hname.notIdle])
    | cons first steps =>
      obtain ⟨rfl, rfl⟩ : first = step ∧ steps ++ [last] = rest := by simpa using hall
      exact .enters hdirectory hname hentry hplain (ih rfl)
  | @follows links location place step rest target hdirectory hname hentry hfollow hrest ih =>
    cases steps with
    | nil =>
      obtain ⟨rfl, rfl⟩ : last = step ∧ [] = rest := by simpa using hall
      exact absurd hlast (by simp [hname.notIdle])
    | cons first steps =>
      obtain ⟨rfl, rfl⟩ : first = step ∧ steps ++ [last] = rest := by simpa using hall
      exact .follows hdirectory hname hentry (fun _ => rfl)
        (ih (by rw [List.append_assoc]))
  | stops _ _ _ hstops =>
    cases hstops

/-- Steps lead to the same place with a slash at their end and without. -/
theorem of_slash_end {all : List (List Char)} (hall : all = steps ∨ all = steps ++ [[]])
    (h : Leads tree true links location all place) : Leads tree true links location steps place := by
  rcases hall with rfl | rfl
  · exact h
  · exact h.of_append_idle (by decide)

/-- There is an entry where steps lead, and a link only where the last one is not followed. -/
theorem exists_entry (h : Leads tree followLast links location steps place)
    (hstart : steps = [] →
      ∃ entry, tree.root.at? location = some entry ∧ entry.isLink = false) :
    ∃ entry, tree.root.at? place = some entry ∧ (followLast = true → entry.isLink = false) := by
  induction h with
  | here =>
    obtain ⟨entry, hentry, hplain⟩ := hstart rfl
    exact ⟨entry, hentry, fun _ => hplain⟩
  | stays hdirectory _ _ ih => exact ih fun _ => exists_plain_of_isDirectoryAt hdirectory
  | climbs hdirectory _ ih =>
    exact ih fun _ => exists_plain_of_isDirectoryAt (isDirectoryAt_dropLast hdirectory)
  | enters _ _ hentry hplain _ ih => exact ih fun _ => ⟨_, hentry, hplain⟩
  | follows _ _ _ _ _ ih =>
    refine ih fun hnil => absurd (List.append_eq_nil_iff.mp hnil).1 ?_
    exact Text.splitWhere_ne_nil _ _
  | stops _ _ hentry hlast =>
    refine ⟨_, hentry, fun htrue => ?_⟩
    rw [hlast] at htrue
    cases htrue

/-- Where the last link is not followed, steps lead to the same place or to a link. -/
theorem exists_unfollowed (h : Leads tree true links location steps place) :
    ∃ spot, Leads tree false links location steps spot ∧
      (spot = place ∨ ∃ target, tree.root.at? spot = some (.link target)) := by
  induction h with
  | here => exact ⟨_, .here, Or.inl rfl⟩
  | stays hdirectory hidle _ ih =>
    obtain ⟨spot, hspot, hplace⟩ := ih
    exact ⟨spot, .stays hdirectory hidle hspot, hplace⟩
  | climbs hdirectory _ ih =>
    obtain ⟨spot, hspot, hplace⟩ := ih
    exact ⟨spot, .climbs hdirectory hspot, hplace⟩
  | enters hdirectory hname hentry hplain _ ih =>
    obtain ⟨spot, hspot, hplace⟩ := ih
    exact ⟨spot, .enters hdirectory hname hentry hplain hspot, hplace⟩
  | @follows links location place step steps target hdirectory hname hentry hfollow _ ih =>
    by_cases hnil : steps = []
    · subst hnil
      exact ⟨_, .stops hdirectory hname hentry rfl, Or.inr ⟨target, hentry⟩⟩
    · obtain ⟨spot, hspot, hplace⟩ := ih
      exact ⟨spot, .follows hdirectory hname hentry (fun h => absurd h hnil) hspot, hplace⟩
  | stops _ _ _ hlast =>
    cases hlast

end Leads

/-- A path that can be resolved: it has a text without NUL characters. -/
structure IsResolvable (path : Path) : Prop where
  /-- It is not empty. -/
  nonempty : path.text ≠ ""
  /-- It has no NUL character. -/
  noNul : '\x00' ∉ path.text.toList

/-- A path in which an entry is named can be resolved. -/
theorem IsResolvable.join {name : String} (h : IsResolvable path) (hname : IsEntryName name) :
    IsResolvable (path.join name) := by
  obtain ⟨front, hpath, hjoinAll⟩ := Path.exists_front h.nonempty
  have hjoin := hjoinAll name (Path.head?_ne_slash hname.noSlash)
  constructor
  · intro hempty
    rw [hempty] at hjoin
    simp at hjoin
  · have hfront : '\x00' ∉ front := by
      have hpathNul := h.noNul
      rcases hpath with heq | heq <;> simp_all
    rw [hjoin, List.mem_append, List.mem_cons]
    rintro (hmem | heq | hmem)
    · exact hfront hmem
    · exact absurd heq (by decide)
    · exact hname.noNul hmem

/-- Where the resolution of a path starts. -/
def startOf (tree : FileTree) (path : Path) : List String :=
  if path.isAbsolute then [] else tree.working

/-- A path starts at a directory if the working directory is one. -/
theorem isDirectoryAt_startOf (hworking : tree.isDirectoryAt tree.working = true) (path : Path) :
    tree.isDirectoryAt (tree.startOf path) = true := by
  rw [startOf]
  split
  · exact isDirectoryAt_nil hworking
  · exact hworking

/-- A path is resolved to the place that its segments lead to. -/
theorem resolve_eq_existing_iff :
    tree.resolve path followLast = .ok (.existing place) ↔
      IsResolvable path ∧
        Leads tree followLast maxLinks (tree.startOf path) path.segments place := by
  rw [resolve, ← resolveFrom_eq_existing_iff]
  split
  · rename_i hnul
    refine iff_of_false (by simp) fun h => h.1.noNul ?_
    simpa using hnul
  · rename_i hnul
    split
    · rename_i hempty
      refine iff_of_false (by simp) fun h => h.1.nonempty ?_
      simpa using hempty
    · rename_i hempty
      refine (and_iff_right ?_).symm
      exact ⟨by simpa using hempty, by simpa using hnul⟩

/-- A path stands for the location that its segments lead to through every link. -/
theorem canonical_eq_ok_iff :
    tree.canonical path = .ok place ↔
      IsResolvable path ∧ Leads tree true maxLinks (tree.startOf path) path.segments place := by
  rw [← resolve_eq_existing_iff, canonical]
  split
  · rename_i found hfound
    rw [hfound]
    simp
  · rename_i hfound
    simp [hfound]
  · rename_i hfound
    simp [hfound]

/-- A path leads to an entry that is no link. -/
theorem exists_plain_of_canonical (h : tree.canonical path = .ok location) :
    ∃ entry, tree.root.at? location = some entry ∧ entry.isLink = false := by
  obtain ⟨_, hleads⟩ := canonical_eq_ok_iff.mp h
  obtain ⟨entry, hentry, hplain⟩ :=
    hleads.exists_entry fun hnil => absurd hnil (Text.splitWhere_ne_nil _ _)
  exact ⟨entry, hentry, hplain rfl⟩

/-- The entries of a path are those of the directory at the location it stands for. -/
theorem entries_eq_ok_iff {entries : List (String × Entry)} :
    tree.entries path = .ok entries ↔ ∃ location, tree.canonical path = .ok location ∧
      tree.root.at? location = some (.directory entries) := by
  rw [FileTree.entries]
  cases hlocation : tree.canonical path with
  | error failure => exact iff_of_false (fun h => by cases h) (by simp)
  | ok location =>
    simp only [bind, Except.bind, Except.ok.injEq, exists_eq_left']
    cases hentry : tree.root.at? location with
    | none => simp
    | some entry => cases entry <;> simp

/-- A path leads to a file if there is one at the location it stands for. -/
theorem isFile_iff : tree.isFile path = true ↔ ∃ location content,
    tree.canonical path = .ok location ∧ tree.root.at? location = some (.file content) := by
  rw [isFile, entry?]
  cases tree.canonical path with
  | error failure => simp
  | ok location =>
    cases hentry : tree.root.at? location with
    | none => simp [hentry]
    | some entry => cases entry <;> simp [hentry, Entry.isFile]

/-- A walk starts at an entry of the tree: the one that its path stands for, or a link. -/
theorem exists_walkStart (h : tree.canonical path = .ok location) :
    ∃ start spot, tree.walkStart path = .ok start ∧ tree.root.at? spot = some start ∧
      (start.isLink = false → spot = location) := by
  obtain ⟨entry, hentry, hplain⟩ := exists_plain_of_canonical h
  obtain ⟨hresolvable, hleads⟩ := canonical_eq_ok_iff.mp h
  obtain ⟨spot, hspot, hplace⟩ := hleads.exists_unfollowed
  have hresolve := resolve_eq_existing_iff.mpr ⟨hresolvable, hspot⟩
  rcases hplace with rfl | ⟨target, htarget⟩
  · refine ⟨entry, spot, ?_, hentry, fun _ => rfl⟩
    simp only [walkStart, hresolve, hentry]
    cases entry with
    | link target => cases hplain
    | file content => rfl
    | directory entries => rfl
  · simp only [walkStart, hresolve, htarget, h, hentry]
    cases entry with
    | link target => cases hplain
    | file content => exact ⟨.link target, spot, rfl, htarget, fun hlink => by cases hlink⟩
    | directory entries => exact ⟨.directory entries, location, rfl, hentry, fun _ => rfl⟩

/-- A walk that does not start at a link starts at the entry that its path stands for. -/
theorem at?_of_walkStart {start : Entry} (h : tree.canonical path = .ok location)
    (hstart : tree.walkStart path = .ok start) (hplain : start.isLink = false) :
    tree.root.at? location = some start := by
  obtain ⟨found, spot, hfound, hspot, hlocation⟩ := exists_walkStart h
  obtain rfl : found = start := Except.ok.inj (hfound.symm.trans hstart)
  rwa [hlocation hplain] at hspot

/-- An entry of a directory is found by its name behind a path of the directory. -/
theorem canonical_join {name : String} {entry : Entry} (h : tree.canonical path = .ok location)
    (hname : IsEntryName name) (hentry : tree.root.at? (location ++ [name]) = some entry)
    (hplain : entry.isLink = false) :
    tree.canonical (path.join name) = .ok (location ++ [name]) := by
  obtain ⟨hresolvable, hleads⟩ := canonical_eq_ok_iff.mp h
  obtain ⟨steps, hsteps, hsegments⟩ := Path.segments_join hname.noSlash hresolvable.nonempty
  have hfront := hleads.of_slash_end hsteps
  obtain ⟨left, hleft⟩ := hfront.append
  have hlast : Leads tree true left location [name.toList] (location ++ [name]) := by
    have hstep : String.ofList name.toList = name := String.ofList_toList
    have henters : Leads tree true left location [name.toList]
        (location ++ [String.ofList name.toList]) :=
      .enters (isDirectoryAt_of_at? hentry) ⟨hname.notIdle, hname.notParent, hname.short⟩
        (by rw [hstep]; exact hentry) hplain .here
    rwa [hstep] at henters
  rw [canonical_eq_ok_iff, hsegments, startOf,
    Path.isAbsolute_join (Path.head?_ne_slash hname.noSlash) hresolvable.nonempty]
  exact ⟨hresolvable.join hname, hleft (fun _ => rfl) hlast⟩

/-- What lies below a location is found by its names behind a path of the location. -/
theorem canonical_joins {names : List String} {entry : Entry}
    (h : tree.canonical path = .ok location) (hnames : ∀ name ∈ names, IsEntryName name)
    (hentry : tree.root.at? (location ++ names) = some entry) (hplain : entry.isLink = false) :
    tree.canonical (path.joins names) = .ok (location ++ names) := by
  induction names generalizing path location with
  | nil => simpa [Path.joins] using h
  | cons name names ih =>
    obtain ⟨hname, hrest⟩ := List.forall_mem_cons.mp hnames
    rw [List.append_cons] at hentry ⊢
    have hway := hentry
    rw [Entry.at?_append, Option.bind_eq_some_iff] at hway
    obtain ⟨mid, hmid, hinner⟩ := hway
    have hstep := canonical_join h hname hmid (Entry.isLink_of_at? hinner hplain)
    exact ih hstep hrest hentry

end FileTree

end CorpusFacts
