import CorpusFacts.Output.Write
import CorpusFacts.Proofs.Files.Nesting

/-!
# The directories made for a file

Before a text is written, the directories around its file are made. They lie on the way of its front
steps, the ones before the last step that is not idle, and the tree grows there only. If nothing but
directories is on this way, making them always ends alike.
-/

/-! ## Trees that agree on a way

Two trees agree on some locations where the same kinds of entries lie there. Making the directories
on a way, and writing the file that it leads to, end alike in trees that agree on the way. -/

namespace CorpusFacts

namespace FileTree

variable {tree later : FileTree} {spots : List String → Prop} {location directory : List String}
  {path : Path} {name : String} {content : ByteArray}

/-- Two trees without links have the same kinds of entries at some locations. -/
structure AgreesOn (tree later : FileTree) (spots : List String → Prop) : Prop where
  /-- The working directory is the same. -/
  working : later.working = tree.working
  /-- The same kinds of entries lie at the locations. -/
  kinds : ∀ location, spots location → tree.kindAt location = later.kindAt location
  /-- The one tree has no links. -/
  plain : ∀ location, tree.kindAt location ≠ some .link
  /-- The other tree has no links. -/
  laterPlain : ∀ location, later.kindAt location ≠ some .link

/-- A new directory is of its kind, and nothing else changes its own. -/
theorem kindAt_put_directory (hdirectory : tree.isDirectoryAt directory = true)
    (hnone : tree.root.at? (directory ++ [name]) = none) (location : List String) :
    (tree.put directory name (.directory [])).kindAt location =
      if location = directory ++ [name] then some .directory else tree.kindAt location := by
  rw [kindAt, faceAt_put hdirectory (fun _ => rfl) (Or.inl (at?_eq_none_iff.mp hnone))]
  split <;> rfl

/-- Paths lead through the same locations where the working directory is the same. -/
theorem spotsOf_congr (hworking : later.working = tree.working) (path : Path) :
    later.spotsOf path = tree.spotsOf path := by
  rw [spotsOf, spotsOf, startOf, startOf, hworking]

namespace AgreesOn

/-- A path on the way is resolved alike. -/
theorem resolve_eq (h : tree.AgreesOn later spots) (hpath : ∀ spot ∈ tree.spotsOf path, spots spot)
    (followLast : Bool) : later.resolve path followLast = tree.resolve path followLast :=
  (resolve_congr h.working.symm fun spot hspot =>
    ⟨h.kinds spot (hpath spot hspot), h.plain spot⟩).symm

/-- A path on the way leads to a directory in both trees or in neither. -/
theorem isDirectory_eq (h : tree.AgreesOn later spots)
    (hpath : ∀ spot ∈ tree.spotsOf path, spots spot) :
    later.isDirectory path = tree.isDirectory path := by
  refine isDirectory_congr h.working (fun spot _ => h.plain spot) (fun spot _ => h.laterPlain spot)
    fun spot hspot => ?_
  rw [Bool.eq_iff_iff, isDirectoryAt_iff_kindAt, isDirectoryAt_iff_kindAt,
    h.kinds spot (hpath spot hspot)]

/-- Trees that agree still agree when the same new directory is put into both. -/
theorem put (h : tree.AgreesOn later spots) (hdirectory : tree.isDirectoryAt directory = true)
    (hnone : tree.root.at? (directory ++ [name]) = none)
    (hlaterDirectory : later.isDirectoryAt directory = true)
    (hlaterNone : later.root.at? (directory ++ [name]) = none) :
    (tree.put directory name (.directory [])).AgreesOn (later.put directory name (.directory []))
      spots where
  working := h.working
  kinds location hlocation := by
    rw [kindAt_put_directory hdirectory hnone, kindAt_put_directory hlaterDirectory hlaterNone,
      h.kinds location hlocation]
  plain location := by
    rw [kindAt_put_directory hdirectory hnone]
    split
    · simp
    · exact h.plain location
  laterPlain location := by
    rw [kindAt_put_directory hlaterDirectory hlaterNone]
    split
    · simp
    · exact h.laterPlain location

/-- A directory on the way is made alike. -/
theorem makeDirectory (h : tree.AgreesOn later spots)
    (hpath : ∀ spot ∈ tree.spotsOf path, spots spot) :
    (∃ failure, tree.makeDirectory path = .error failure ∧
      later.makeDirectory path = .error failure) ∨
    ∃ made laterMade, tree.makeDirectory path = .ok made ∧
      later.makeDirectory path = .ok laterMade ∧ made.AgreesOn laterMade spots ∧
      made.working = tree.working := by
  have hresolve := h.resolve_eq hpath false
  rw [FileTree.makeDirectory, FileTree.makeDirectory, hresolve]
  cases hfound : tree.resolve path false with
  | error failure => exact Or.inl ⟨failure, rfl, rfl⟩
  | ok found =>
    cases found with
    | existing location => exact Or.inl ⟨.alreadyExists, rfl, rfl⟩
    | absent directory name asDirectory =>
      obtain ⟨hdirectory, hnone⟩ := absent_of_resolve hfound
      obtain ⟨hlaterDirectory, hlaterNone⟩ := absent_of_resolve (hresolve.trans hfound)
      exact Or.inr ⟨_, _, rfl, rfl, h.put hdirectory hnone hlaterDirectory hlaterNone, rfl⟩

/-- Nested directories on the way are made alike. -/
theorem makeNested (h : tree.AgreesOn later spots) (paths : List Path)
    (hpaths : ∀ path ∈ paths, ∀ spot ∈ tree.spotsOf path, spots spot) :
    (later.makeNested paths).2 = (tree.makeNested paths).2 ∧
      (tree.makeNested paths).1.AgreesOn (later.makeNested paths).1 spots ∧
      (tree.makeNested paths).1.working = tree.working := by
  induction paths with
  | nil => exact ⟨rfl, h, rfl⟩
  | cons path outer ih =>
    obtain ⟨hpath, houter⟩ := List.forall_mem_cons.mp hpaths
    rw [FileTree.makeNested, FileTree.makeNested]
    rcases h.makeDirectory hpath with ⟨failure, hfails, hlaterFails⟩ |
      ⟨made, laterMade, hmade, hlaterMade, hagrees, hworking⟩
    · rw [hfails, hlaterFails]
      cases failure with
      | notFound =>
        obtain ⟨hresult, hagrees, hworking⟩ := ih houter
        simp only
        generalize tree.makeNested outer = first at *
        generalize later.makeNested outer = second at *
        obtain ⟨first, result⟩ := first
        obtain ⟨second, other⟩ := second
        obtain rfl : other = result := hresult
        cases other with
        | error failure => exact ⟨rfl, hagrees, hworking⟩
        | ok =>
          have hagain : ∀ spot ∈ first.spotsOf path, spots spot := by
            rwa [spotsOf_congr hworking]
          rcases hagrees.makeDirectory hagain with ⟨failure, hfails, hlaterFails⟩ |
            ⟨made, laterMade, hmade, hlaterMade, hmadeAgrees, hmadeWorking⟩
          · simp only [hfails, hlaterFails, hagrees.isDirectory_eq hagain]
            exact ⟨trivial, hagrees, hworking⟩
          · simp only [hmade, hlaterMade]
            exact ⟨trivial, hmadeAgrees, hmadeWorking.trans hworking⟩
      | _ =>
        simp only [h.isDirectory_eq hpath]
        exact ⟨trivial, h, trivial⟩
    · rw [hmade, hlaterMade]
      exact ⟨rfl, hagrees, hworking⟩

end AgreesOn

end FileTree

end CorpusFacts

/-! ## The way of the front steps -/

namespace CorpusFacts

namespace Path

/-- The steps of a path before the last one that is not idle. -/
def frontSteps (path : Path) : List (List Char) :=
  (dropIdleEnd path.segments).dropLast

/-- A path is spelled as one of a file: it does not end in a slash or a dot. -/
def NamesFile (path : Path) : Prop :=
  ∀ step ∈ path.segments.getLast?, isIdle step = false

/-- The paths of the directories that are made for a file, innermost first. -/
def outer (path : Path) : List Path :=
  match path.frontSteps with
  | [] => []
  | first :: front => around first front

/-- A path goes on behind its front steps by one step, and by idle ones. -/
theorem exists_last (path : Path) : ∃ last idle, path.segments = path.frontSteps ++ last :: idle ∧
    ∀ step ∈ idle, isIdle step = true := by
  obtain ⟨first, all, hsegments⟩ := List.exists_cons_of_ne_nil
    (Text.splitWhere_ne_nil (· == '/') path.text.toList)
  have hsegments : path.segments = first :: all := hsegments
  obtain ⟨rest, idle, hdrop, hall, hidle, _⟩ := exists_dropIdleEnd first all
  rw [frontSteps, hsegments, hdrop, hall]
  cases rest using List.reverseRecOn with
  | nil => exact ⟨first, idle, rfl, hidle⟩
  | append_singleton rest last =>
    refine ⟨last, idle, ?_, hidle⟩
    have hfront : (first :: (rest ++ [last])).dropLast = first :: rest := by
      rw [← List.cons_append, List.dropLast_concat]
    rw [hfront]
    simp

/-- The front steps of a path are those before the last one that is not idle. -/
theorem frontSteps_eq {path : Path} {front idle : List (List Char)} {last : List Char}
    (hsegments : path.segments = front ++ last :: idle) (hlast : isIdle last = false)
    (hidle : ∀ step ∈ idle, isIdle step = true) : path.frontSteps = front := by
  have hdrop : dropIdleEnd (front ++ last :: idle) = front ++ [last] := by
    clear hsegments
    induction idle using List.reverseRecOn with
    | nil =>
      cases front with
      | nil => rfl
      | cons first front => rw [List.cons_append, dropIdleEnd_concat, if_neg (by simp [hlast])]
    | append_singleton idle step ih =>
      have hrest := ih fun other hother => hidle other (List.mem_append_left _ hother)
      have hstep := hidle step (by simp)
      cases front with
      | nil => rwa [List.nil_append, dropIdleEnd_concat, if_pos hstep]
      | cons first front =>
        have hconcat : first :: front ++ last :: (idle ++ [step]) =
            first :: ((front ++ last :: idle) ++ [step]) := by simp
        rwa [hconcat, dropIdleEnd_concat, if_pos hstep]
  rw [frontSteps, hsegments, hdrop, List.dropLast_concat]

/-- A path of a file ends in the step behind its front steps. -/
theorem NamesFile.exists_last {path : Path} (h : path.NamesFile) :
    ∃ last, path.segments = path.frontSteps ++ [last] ∧ isIdle last = false := by
  obtain ⟨last, idle, hsegments, hidle⟩ := path.exists_last
  rw [NamesFile, hsegments] at h
  cases idle using List.reverseRecOn with
  | nil => exact ⟨last, hsegments, h last (by simp)⟩
  | append_singleton idle step =>
    rw [← List.cons_append, ← List.append_assoc, List.getLast?_concat] at h
    have hstep := h step rfl
    rw [hidle step (by simp)] at hstep
    cases hstep

/-- Where a path has front steps, they spell the directory around it, and the path starts where they
start. -/
theorem of_frontSteps {path : Path} {first : List Char} {front : List (List Char)}
    (h : path.frontSteps = first :: front) :
    path.parent? = some (ofSegments (dropIdleEnd (first :: front))) ∧
      (path.isAbsolute = true ↔ first = []) := by
  obtain ⟨start, all, hsegments⟩ := List.exists_cons_of_ne_nil
    (Text.splitWhere_ne_nil (· == '/') path.text.toList)
  have hsegments : path.segments = start :: all := hsegments
  obtain ⟨rest, idle, hdrop, hall, _⟩ := exists_dropIdleEnd start all
  rw [frontSteps, hsegments, hdrop] at h
  cases rest using List.reverseRecOn with
  | nil => cases h
  | append_singleton rest last =>
    rw [← List.cons_append, List.dropLast_concat] at h
    obtain ⟨rfl, rfl⟩ := List.cons.inj h
    constructor
    · rw [parent?, hsegments, hdrop]
      cases rest with
      | nil => simp
      | cons next rest => simp [List.dropLast_cons_of_ne_nil]
    · rw [isAbsolute, beq_iff_eq, head?_eq_slash_iff]
      change (∃ steps, steps ≠ [] ∧ path.segments = [] :: steps) ↔ start = []
      rw [hsegments, hall]
      constructor
      · rintro ⟨steps, _, heq⟩
        exact (List.cons.inj heq).1
      · rintro rfl
        exact ⟨_, by simp, rfl⟩

/-- A path without front steps has no directory around it that could be made. -/
theorem parent?_of_frontSteps {path : Path} (h : path.frontSteps = []) :
    path.parent? = none ∨ path.parent? = some ⟨""⟩ := by
  obtain ⟨start, all, hsegments⟩ := List.exists_cons_of_ne_nil
    (Text.splitWhere_ne_nil (· == '/') path.text.toList)
  have hsegments : path.segments = start :: all := hsegments
  obtain ⟨rest, idle, hdrop, _⟩ := exists_dropIdleEnd start all
  rw [frontSteps, hsegments, hdrop] at h
  rw [parent?, hsegments, hdrop]
  cases rest with
  | nil =>
    cases start with
    | nil => exact Or.inl rfl
    | cons c start => exact Or.inr rfl
  | cons next rest => cases h

/-- There is no slash in a front step. -/
theorem noSlash_of_mem_frontSteps (path : Path) : ∀ step ∈ path.frontSteps, '/' ∉ step := by
  intro step hstep hslash
  obtain ⟨last, idle, hsegments, _⟩ := path.exists_last
  have hmem : step ∈ path.segments := by
    rw [hsegments]
    exact List.mem_append_left _ hstep
  have hplain := Text.not_separator_of_mem_splitWhere hmem '/' hslash
  simp at hplain

end Path

namespace FileTree

variable {tree later : FileTree} {path : Path} {spots : List String → Prop} {spot : List String}

/-- The locations on the way to the directory around a path. -/
def frontSpots (tree : FileTree) (path : Path) : List (List String) :=
  spotsFrom (tree.startOf path) path.frontSteps

/-- A path leads through the locations of its front steps to its place. -/
theorem mem_spotsOf_iff (tree : FileTree) (path : Path) (spot : List String) :
    spot ∈ tree.spotsOf path ↔ spot ∈ tree.frontSpots path ∨ spot = tree.placeOf path := by
  obtain ⟨last, idle, hsegments, hidle⟩ := path.exists_last
  have hends : ∀ location, placeFrom location idle = location ∧
      ∀ spot ∈ spotsFrom location idle, spot = location := by
    clear hsegments
    induction idle with
    | nil => exact fun location => ⟨rfl, fun spot hspot => List.mem_singleton.mp hspot⟩
    | cons step idle ih =>
      obtain ⟨hstep, hrest⟩ := List.forall_mem_cons.mp hidle
      intro location
      have hsame : stepFrom location step = location := stepFrom_of_isIdle hstep
      refine ⟨?_, fun spot hspot => ?_⟩
      · change placeFrom (stepFrom location step) idle = location
        rw [hsame, (ih hrest location).1]
      · rw [spotsFrom, hsame] at hspot
        rcases List.mem_cons.mp hspot with rfl | hspot
        · rfl
        · exact (ih hrest location).2 spot hspot
  have hplace : tree.placeOf path =
      stepFrom (placeFrom (tree.startOf path) path.frontSteps) last := by
    rw [placeOf, hsegments, placeFrom_append]
    exact (hends _).1
  rw [spotsOf, hsegments, mem_spotsFrom_append, spotsFrom, List.mem_cons, ← frontSpots, hplace]
  constructor
  · rintro (hfront | rfl | hrest)
    · exact Or.inl hfront
    · exact Or.inl (placeFrom_mem_spotsFrom _ _)
    · exact Or.inr ((hends _).2 spot hrest)
  · rintro (hfront | rfl)
    · exact Or.inl hfront
    · exact Or.inr (Or.inr (mem_spotsFrom_start _ _))

/-- The locations on the way to the directory around a path are those that its front steps lead
through. -/
theorem startAt_of_frontSteps (tree : FileTree) {first : List Char} {front : List (List Char)}
    (h : path.frontSteps = first :: front) : tree.startAt first = tree.startOf path := by
  obtain ⟨_, habsolute⟩ := Path.of_frontSteps h
  rw [startAt, startOf]
  by_cases hfirst : first = []
  · rw [if_pos hfirst, if_pos (habsolute.mpr hfirst)]
  · rw [if_neg hfirst, if_neg (mt habsolute.mp hfirst)]

/-- The directories that are made for a file lie on the way to it. -/
theorem mem_frontSpots_of_outer (tree : FileTree) {inner : Path} (hinner : inner ∈ path.outer)
    (hspot : spot ∈ tree.spotsOf inner) : spot ∈ tree.frontSpots path := by
  have hruns := path.noSlash_of_mem_frontSteps
  rw [Path.outer] at hinner
  split at hinner
  · cases hinner
  · rename_i first front hfront
    rw [hfront] at hruns
    rw [frontSpots, ← startAt_of_frontSteps tree hfront, hfront]
    exact spotsOf_around tree hruns inner hinner spot hspot

/-- Making the directory of a file: it needs none, or making it is making those around the file, and
a failure is told with the path of the innermost one. -/
theorem makeParent_cases (path : Path) :
    (path.outer = [] ∧ ∀ tree, makeParent tree path = (tree, .ok ())) ∨
    ∃ first front, (∀ step ∈ first :: front, '/' ∉ step) ∧ path.outer = Path.around first front ∧
      ∀ tree, makeParent tree path =
        ((tree.makeNested path.outer).1, (tree.makeNested path.outer).2.mapError
          (.createDirectory (Path.ofSegments (Path.dropIdleEnd (first :: front))))) := by
  cases hfront : path.frontSteps with
  | nil =>
    refine Or.inl ⟨by rw [Path.outer, hfront], fun tree => ?_⟩
    rw [makeParent]
    rcases Path.parent?_of_frontSteps hfront with hparent | hparent
    · rw [hparent]
    · rw [hparent]
      rfl
  | cons first front =>
    have hruns := path.noSlash_of_mem_frontSteps
    rw [hfront] at hruns
    obtain ⟨hparent, _⟩ := Path.of_frontSteps hfront
    have houter : path.outer = Path.around first front := by rw [Path.outer, hfront]
    obtain ⟨rest, _, hdrop, _⟩ := Path.exists_dropIdleEnd first front
    have hancestors := Path.ancestors_ofSegments hruns
    refine Or.inr ⟨first, front, hruns, houter, fun tree => ?_⟩
    rw [hdrop] at hparent hancestors ⊢
    have hmakes : tree.makeDirectories (Path.ofSegments (first :: rest)) =
        tree.makeNested path.outer := by
      rw [makeDirectories, if_neg (by simpa using Path.ofSegments_ne_empty first rest), hancestors,
        houter]
    rw [makeParent, hparent]
    simp only [hmakes]
    obtain ⟨made, result⟩ := tree.makeNested path.outer
    cases result <;> rfl

/-- Making the directory of a file is making those around it, and a failure is told with the
directory. -/
theorem exists_makeParent (path : Path) : ∃ wrap, ∀ tree : FileTree,
    makeParent tree path =
      ((tree.makeNested path.outer).1, (tree.makeNested path.outer).2.mapError wrap) := by
  rcases makeParent_cases path with ⟨houter, hmakes⟩ | ⟨first, front, _, _, hmakes⟩
  · refine ⟨.createDirectory path, fun tree => ?_⟩
    rw [hmakes, houter]
    rfl
  · exact ⟨_, hmakes⟩

/-- Where no links are, making the directory of a file makes the tree grow on the way to it. -/
theorem growsTo_makeParent_way (hplain : ∀ location, tree.kindAt location ≠ some .link)
    (path : Path) :
    tree.GrowsTo (makeParent tree path).1 (· ∈ tree.frontSpots path) fun _ => False := by
  obtain ⟨wrap, hmakes⟩ := exists_makeParent path
  rw [hmakes]
  refine growsTo_makeNested fun inner hinner later directory name asDirectory hgrows habsent => ?_
  have havoids : later.AvoidsLinks inner := fun spot _ => hgrows.kindAt_ne_link (hplain spot)
  obtain ⟨hplace, _⟩ := havoids.of_resolve_absent habsent
  rw [hplace, hgrows.placeOf]
  exact mem_frontSpots_of_outer tree hinner (placeFrom_mem_spotsFrom _ _)

/-- The directory of a file is made alike in trees that agree on the way to it. -/
theorem AgreesOn.makeParent (h : tree.AgreesOn later spots) (path : Path)
    (hfront : ∀ spot ∈ tree.frontSpots path, spots spot) :
    (CorpusFacts.makeParent later path).2 = (CorpusFacts.makeParent tree path).2 ∧
      (CorpusFacts.makeParent tree path).1.AgreesOn
        (CorpusFacts.makeParent later path).1 spots := by
  obtain ⟨wrap, hmakes⟩ := exists_makeParent path
  rw [hmakes, hmakes]
  obtain ⟨hresult, hagrees, _⟩ := h.makeNested path.outer fun inner hinner spot hspot =>
    hfront spot (mem_frontSpots_of_outer tree hinner hspot)
  exact ⟨by rw [hresult], hagrees⟩

/-- No directory is made for a file with a NUL character in the path of its directory. -/
theorem makeNested_outer_of_nul (tree : FileTree)
    (hnul : ∃ step ∈ path.frontSteps, '\x00' ∈ step) :
    tree.makeNested path.outer = (tree, .error .nulInPath) := by
  have hruns := path.noSlash_of_mem_frontSteps
  obtain ⟨step, hstep, hnul⟩ := hnul
  obtain ⟨first, front, hfront⟩ := List.exists_cons_of_ne_nil (List.ne_nil_of_mem hstep)
  rw [hfront] at hruns hstep
  have hsegments := Path.dropIdleEnd_segments_ofSegments hruns
  obtain ⟨rest, idle, hdrop, hrest, hidle, _⟩ := Path.exists_dropIdleEnd first front
  have houter : path.outer = (Path.ofSegments (first :: rest)).ancestors := by
    rw [Path.outer, hfront, ← hdrop, Path.ancestors_ofSegments hruns]
  have hkept : step ∈ first :: rest := by
    rw [hrest, ← List.cons_append] at hstep
    refine (List.mem_append.mp hstep).resolve_right fun hmem => ?_
    rcases Bool.or_eq_true_iff.mp (hidle step hmem) with heq | heq
    · obtain rfl : step = [] := by simpa using heq
      cases hnul
    · obtain rfl : step = ['.'] := by simpa using heq
      revert hnul
      decide
  have hmem : step ∈ (Path.ofSegments (first :: rest)).segments := by
    rw [hdrop] at hsegments
    obtain ⟨start, all, hall⟩ := List.exists_cons_of_ne_nil
      (Text.splitWhere_ne_nil (· == '/') (Path.ofSegments (first :: rest)).text.toList)
    have hall : (Path.ofSegments (first :: rest)).segments = start :: all := hall
    obtain ⟨inner, _, hinner, hsame, _⟩ := Path.exists_dropIdleEnd start all
    rw [hall, hinner] at hsegments
    rw [hall, hsame, ← List.cons_append, hsegments]
    exact List.mem_append_left _ hkept
  have hfails : ∀ followLast,
      tree.resolve (Path.ofSegments (first :: rest)) followLast = .error .nulInPath := by
    intro followLast
    have htext := Text.mem_of_mem_splitWhere hmem hnul
    rw [resolve, if_pos (by simpa using htext)]
  have hdirectory : tree.isDirectory (Path.ofSegments (first :: rest)) = false := by
    rw [isDirectory, entry?, canonical, hfails]
  rw [houter, Path.ancestors, makeNested, makeDirectory, hfails]
  simp [bind, Except.bind, hdirectory]

/-- Making the directory of a file with an open way to it: unless a name is too long, all
directories on the way are there in the end. -/
theorem makes_outer (hplain : ∀ location, tree.kindAt location ≠ some .link)
    (hnoNul : ∀ step ∈ path.frontSteps, '\x00' ∉ step)
    (hstart : tree.isDirectoryAt (tree.startOf path) = true)
    (hopen : tree.IsOpen (tree.startOf path) path.frontSteps) :
    Makes (tree.makeNested path.outer) (tree.startOf path) path.frontSteps := by
  have hruns := path.noSlash_of_mem_frontSteps
  cases hfront : path.frontSteps with
  | nil =>
    rw [Path.outer, hfront, makeNested]
    refine ⟨fun _ => ⟨rfl, fun spot hspot => ?_⟩, fun hlong => absurd ?_ hlong⟩
    · rwa [List.mem_singleton.mp hspot]
    · simp [AreShort]
  | cons first front =>
    rw [hfront] at hruns hnoNul hopen
    rw [Path.outer, hfront]
    rw [← startAt_of_frontSteps tree hfront] at hstart hopen ⊢
    exact makeNested_open hplain (fun step hstep => ⟨hruns step hstep, hnoNul step hstep⟩) hstart
      hopen

end FileTree

end CorpusFacts
