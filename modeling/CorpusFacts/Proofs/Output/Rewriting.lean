import CorpusFacts.Output.Write
import CorpusFacts.Proofs.Output.Surroundings

/-!
# Writing in a later tree

Writing a text makes the directories around its file first. It ends in one of three ways: the
directory of the file cannot be made, or it is made and the file cannot be written, or the file is
written. It ends alike in a tree and in a later one in which some of these directories have been
made, and perhaps the file has been written.
-/

namespace CorpusFacts

/-- What is dropped at the end of a text satisfies the condition. -/
theorem Text.exists_dropEndWhile (p : Char → Bool) (text : List Char) :
    ∃ rest, text = dropEndWhile p text ++ rest ∧ ∀ c ∈ rest, p c = true := by
  refine ⟨(text.reverse.takeWhile p).reverse, ?_, fun c hc => ?_⟩
  · rw [dropEndWhile, ← List.reverse_append, List.takeWhile_append_dropWhile, List.reverse_reverse]
  · exact List.all_eq_true.mp List.all_takeWhile c (List.mem_reverse.mp hc)

namespace FileTree

/-- How writing a text ends. -/
inductive WriteEnd (tree : FileTree) (path : Path) (text : String) :
    FileTree × Except OutputError Unit → Prop
  /-- The directory of the file cannot be made. -/
  | noDirectory {parent : FileTree} {directory : Path} {failure : FileFailure}
      (hparent : makeParent tree path = (parent, .error (.createDirectory directory failure))) :
      WriteEnd tree path text (parent, .error (.createDirectory directory failure))
  /-- The file cannot be written. -/
  | noFile {parent : FileTree} {failure : FileFailure}
      (hparent : makeParent tree path = (parent, .ok ()))
      (hwrite : parent.write path text.toUTF8 = .error failure) :
      WriteEnd tree path text (parent, .error (.write path failure))
  /-- The file is written. -/
  | written {last parent : FileTree} (hparent : makeParent tree path = (parent, .ok ()))
      (hwrite : parent.write path text.toUTF8 = .ok last) : WriteEnd tree path text (last, .ok ())

/-- Writing a text ends in one of three ways. -/
theorem writeText_end (tree : FileTree) (path : Path) (text : String) :
    WriteEnd tree path text (writeText tree path text) := by
  rw [writeText]
  cases hparent : makeParent tree path with
  | mk parent result =>
    cases result with
    | error error =>
      obtain ⟨directory, failure, rfl⟩ : ∃ directory failure,
          error = .createDirectory directory failure := by
        rw [makeParent] at hparent
        split at hparent
        · cases hparent
        · split at hparent <;> cases hparent
          exact ⟨_, _, rfl⟩
      exact .noDirectory hparent
    | ok =>
      cases hwrite : parent.write path text.toUTF8 with
      | error failure =>
        simp only [hwrite]
        exact .noFile hparent hwrite
      | ok last =>
        simp only [hwrite]
        exact .written hparent hwrite

/-- After a text was written, or could not be, the tree has the directory of its file, or it is what
writing the file left. -/
theorem writeText_fst (tree : FileTree) (path : Path) (text : String) :
    (writeText tree path text).1 = (makeParent tree path).1 ∨
      (makeParent tree path).1.write path text.toUTF8 = .ok (writeText tree path text).1 := by
  have hend := writeText_end tree path text
  generalize writeText tree path text = result at *
  cases hend with
  | noDirectory hparent => exact Or.inl (by rw [hparent])
  | noFile hparent _ => exact Or.inl (by rw [hparent])
  | written hparent hwrite => exact Or.inr (by rw [hparent]; exact hwrite)

variable {tree later : FileTree} {path : Path} {spots made written : List String → Prop}
  {spot location : List String} {steps more : List (List Char)} {step : List Char}
  {followLast : Bool} {content : ByteArray}
  {follow : List String → List (List Char) → Except FileFailure Place}

/-- A path of a file is resolved as it is to be written. -/
theorem writtenPlace_eq_resolve (tree : FileTree) (hname : path.NamesFile) :
    tree.writtenPlace path = tree.resolve path true := by
  have hkept : Text.dropEndWhile (· == '/') path.text.toList = path.text.toList := by
    obtain ⟨rest, htext, hslashes⟩ := Text.exists_dropEndWhile (· == '/') path.text.toList
    cases rest using List.reverseRecOn with
    | nil => rw [List.append_nil] at htext; exact htext.symm
    | append_singleton rest c =>
      obtain rfl : c = '/' := by simpa using hslashes c (by simp)
      have hlast : path.segments.getLast? = some [] := by
        rw [Path.segments, htext, ← List.append_assoc, Text.split, Text.splitWhere_append (by simp)]
        simp [Text.splitWhere]
      have hidle := hname [] (by rw [hlast]; rfl)
      cases hidle
  rw [writtenPlace, hkept, if_pos]
  simp [String.length_toList]

/-- An idle step at the end is one in a directory. -/
theorem isDirectoryAt_of_idleEnd (h : tree.IsPassable location (steps ++ [step]))
    (hidle : Path.isIdle step = true) :
    tree.isDirectoryAt (placeFrom location (steps ++ [step])) = true := by
  obtain ⟨hdirectory, _⟩ := (isPassable_append.mp h).2
  have hstep : placeFrom (placeFrom location steps) [step] = placeFrom location steps :=
    stepFrom_of_isIdle hidle
  rwa [placeFrom_append, hstep]

/-- A path by which a file was written is spelled as one of a file. -/
theorem AvoidsLinks.namesFile_of_write (hplain : tree.AvoidsLinks path)
    (h : tree.write path content = .ok later) : path.NamesFile := by
  obtain ⟨hgrows, hfile, _, hpassable⟩ := hplain.growsTo_of_write h
  intro step hstep
  by_contra hidle
  obtain ⟨front, hsegments⟩ := List.getLast?_eq_some_iff.mp hstep
  rw [hsegments] at hpassable
  have hdirectory := isDirectoryAt_of_idleEnd hpassable (by simpa using hidle)
  rw [← hsegments] at hdirectory
  obtain ⟨entries, hentries⟩ := exists_entries (hgrows.isDirectoryAt hdirectory)
  change later.root.at? (tree.placeOf path) = some (.directory entries) at hentries
  rw [hfile] at hentries
  cases hentries

/-- A path without the slashes at its end leads through locations that the path leads through. -/
theorem spotsOf_bare (tree : FileTree)
    (hne : Text.dropEndWhile (· == '/') path.text.toList ≠ []) :
    ∀ spot ∈ tree.spotsOf ⟨String.ofList (Text.dropEndWhile (· == '/') path.text.toList)⟩,
      spot ∈ tree.spotsOf path := by
  obtain ⟨rest, htext, hslashes⟩ := Text.exists_dropEndWhile (· == '/') path.text.toList
  generalize Text.dropEndWhile (· == '/') path.text.toList = bare at *
  obtain ⟨c, bare, rfl⟩ := List.exists_cons_of_ne_nil hne
  intro spot hspot
  have hstart : tree.startOf ⟨String.ofList (c :: bare)⟩ = tree.startOf path := by
    rw [startOf, startOf, Path.isAbsolute, Path.isAbsolute, htext, String.toList_ofList]
    rfl
  rw [spotsOf, hstart, Path.segments, String.toList_ofList] at hspot
  rw [spotsOf, Path.segments, htext]
  cases rest with
  | nil => rwa [List.append_nil]
  | cons d rest =>
    obtain rfl : d = '/' := by simpa using hslashes d (by simp)
    rw [Text.split, Text.splitWhere_append (by simp), mem_spotsFrom_append]
    exact Or.inl hspot

namespace AgreesOn

/-- A file on the way is to be written at the same place. -/
theorem writtenPlace_eq (h : tree.AgreesOn later spots)
    (hpath : ∀ spot ∈ tree.spotsOf path, spots spot) :
    later.writtenPlace path = tree.writtenPlace path := by
  simp only [writtenPlace]
  split
  · exact h.resolve_eq hpath true
  · split
    · rfl
    · rename_i hne
      rw [h.resolve_eq fun spot hspot =>
        hpath spot (spotsOf_bare tree (by simpa using hne) spot hspot)]

/-- A file on the way is written in both trees, or fails to be in both. -/
theorem write_eq (h : tree.AgreesOn later spots) (hpath : ∀ spot ∈ tree.spotsOf path, spots spot)
    (content : ByteArray) :
    (later.write path content).map (fun _ => ()) = (tree.write path content).map fun _ => () := by
  rw [write, write, h.writtenPlace_eq hpath]
  cases hfound : tree.writtenPlace path with
  | error failure => rfl
  | ok found =>
    cases found with
    | absent directory name asDirectory => cases asDirectory <;> rfl
    | existing location =>
      have havoids : tree.AvoidsLinks path := fun spot _ => h.plain spot
      obtain ⟨rfl, _⟩ := havoids.of_resolve_existing (resolve_of_writtenPlace hfound)
      have hkinds := h.kinds _ (hpath _ (placeFrom_mem_spotsFrom _ _))
      change tree.kindAt (tree.placeOf path) = later.kindAt (tree.placeOf path) at hkinds
      generalize tree.placeOf path = place at *
      have hfile : (∃ content, tree.root.at? place = some (.file content)) ↔
          ∃ content, later.root.at? place = some (.file content) := by
        rw [← kindAt_eq_file_iff, ← kindAt_eq_file_iff, hkinds]
      simp only [bind, Except.bind]
      cases place.getLast? with
      | none => split <;> split <;> simp_all
      | some name => split <;> split <;> simp_all [Except.map]

end AgreesOn

/-- Short steps between directories are taken, whatever follows them. -/
theorem resolveSteps_append_of_directories
    (hplain : ∀ location, tree.kindAt location ≠ some .link)
    (hway : ∀ spot ∈ spotsFrom location steps, tree.isDirectoryAt spot = true)
    (hshort : AreShort steps) :
    tree.resolveSteps followLast follow location (steps ++ more) =
      tree.resolveSteps followLast follow (placeFrom location steps) more := by
  induction steps generalizing location with
  | nil => rfl
  | cons step steps ih =>
    obtain ⟨hhere, hrest⟩ := List.forall_mem_cons.mp hway
    obtain ⟨hstep, hsteps⟩ := List.forall_mem_cons.mp hshort
    have hnext := at?_ne_none_of_isDirectoryAt (hrest _ (mem_spotsFrom_start _ _))
    rw [List.cons_append, resolveSteps_cons (hplain _), if_neg (by simp [hhere]),
      if_neg (Nat.not_lt.mpr hstep), if_neg hnext, ih hrest hsteps]
    rfl

/-- Writing a file behind directories that are all there comes to the same, no matter whether the
file is there already. -/
theorem exists_write_eq (hname : path.NamesFile) (hshort : AreShort path.frontSteps)
    (content : ByteArray) : ∃ result : Except FileFailure Unit, ∀ tree : FileTree,
      (∀ location, tree.kindAt location ≠ some .link) →
      (∀ spot ∈ tree.frontSpots path, tree.isDirectoryAt spot = true) →
      (tree.kindAt (tree.placeOf path) = none ∨ tree.kindAt (tree.placeOf path) = some .file) →
      (tree.write path content).map (fun _ => ()) = result := by
  obtain ⟨last, hsegments, hidle⟩ := hname.exists_last
  by_cases hnul : '\x00' ∈ path.text.toList
  · refine ⟨.error .nulInPath, fun tree _ _ _ => ?_⟩
    rw [write, writtenPlace_eq_resolve tree hname, resolve, if_pos (by simpa using hnul)]
    rfl
  have hresolvable : IsResolvable path := by
    refine ⟨fun hempty => ?_, hnul⟩
    have hlast := hname [] (by rw [Path.segments, hempty]; rfl)
    cases hlast
  refine ⟨if maxNameBytes < Text.byteLength last then .error .nameTooLong else .ok (),
    fun tree hplain hway hplace => ?_⟩
  have hdirectory : tree.isDirectoryAt (placeFrom (tree.startOf path) path.frontSteps) = true :=
    hway _ (placeFrom_mem_spotsFrom _ _)
  have hparent : last ≠ ['.', '.'] := by
    rintro rfl
    have haround : tree.isDirectoryAt (tree.placeOf path) = true := by
      rw [placeOf, hsegments, placeFrom_append]
      exact (isDirectoryAt_stepFrom hdirectory (Or.inr rfl)).1
    rw [isDirectoryAt_iff_kindAt] at haround
    rcases hplace with hplace | hplace <;> rw [haround] at hplace <;> cases hplace
  have hlast : tree.placeOf path =
      placeFrom (tree.startOf path) path.frontSteps ++ [String.ofList last] := by
    rw [placeOf, hsegments, placeFrom_append, ← stepFrom_of_name hidle hparent]
    rfl
  obtain ⟨follow, hfollow⟩ := exists_resolveSteps tree true hresolvable
  rw [write, writtenPlace_eq_resolve tree hname, hfollow, hsegments,
    resolveSteps_append_of_directories hplain hway hshort, resolveSteps_cons (hplain _),
    if_neg (by simp [hdirectory]), stepFrom_of_name hidle hparent, ← hlast]
  split
  · rfl
  rcases hplace with hnone | hfile
  · rw [if_pos (at?_eq_none_iff_kindAt.mpr hnone)]
    rfl
  · obtain ⟨old, hold⟩ := kindAt_eq_file_iff.mp hfile
    rw [if_neg (by simp [hold]), resolveSteps]
    simp only [bind, Except.bind, hold]
    rw [hlast, List.getLast?_concat]
    rfl

/-- The way to a file leads down only where directories are yet to be made. -/
def LeadsDown (tree : FileTree) (path : Path) : Prop :=
  ∀ spot ∈ tree.frontSpots path, tree.isDirectoryAt spot = true ∨
    (spot <+: tree.placeOf path ∧ spot ≠ tree.placeOf path)

/-- Nothing lies at a location below one of a file. -/
theorem kindAt_below_file {rest : List String} (hfile : tree.kindAt location = some .file)
    (hrest : rest ≠ []) : tree.kindAt (location ++ rest) = none := by
  obtain ⟨content, hcontent⟩ := kindAt_eq_file_iff.mp hfile
  obtain ⟨name, rest, rfl⟩ := List.exists_cons_of_ne_nil hrest
  rw [← at?_eq_none_iff_kindAt, Entry.at?_append, hcontent]
  rfl

/-- Nothing lies at a location below one where nothing lies. -/
theorem kindAt_below_none (hnone : tree.kindAt location = none) (rest : List String) :
    tree.kindAt (location ++ rest) = none := by
  rw [← at?_eq_none_iff_kindAt] at hnone ⊢
  rw [Entry.at?_append, hnone, Option.bind_none]

/-- How writing a text ends depends on how making the directory of the file ends, and then on how
writing the file does. -/
theorem writeText_snd (tree : FileTree) (path : Path) (text : String) :
    (writeText tree path text).2 = (makeParent tree path).2.bind fun _ =>
      (((makeParent tree path).1.write path text.toUTF8).map fun _ => ()).mapError
        (.write path) := by
  rw [writeText]
  obtain ⟨made, result⟩ := makeParent tree path
  cases result with
  | error error => rfl
  | ok =>
    simp only [Except.bind]
    cases made.write path text.toUTF8 <;> rfl

/-- If a file is on the way to a file that is to be written, a tree that has grown agrees with the
tree on the whole way. -/
theorem GrowsInKind.agreesOn_of_blocked (h : tree.GrowsInKind later made written)
    (hplain : ∀ location, tree.kindAt location ≠ some .link) (hdown : tree.LeadsDown path)
    (hblocked : ∃ spot ∈ tree.frontSpots path, tree.kindAt spot = some .file) :
    tree.AgreesOn later (· ∈ tree.spotsOf path) := by
  obtain ⟨block, hblock, hfile⟩ := hblocked
  have hblockDown : block <+: tree.placeOf path ∧ block ≠ tree.placeOf path := by
    refine (hdown block hblock).resolve_left fun hdirectory => ?_
    rw [isDirectoryAt_iff_kindAt, hfile] at hdirectory
    cases hdirectory
  have hlaterFile : later.kindAt block = some .file := by
    rw [h.kindAt_eq (by simp [hfile]), hfile]
  refine ⟨h.working, fun spot hspot => ?_, hplain, fun spot => h.kindAt_ne_link (hplain spot)⟩
  by_cases hnone : tree.kindAt spot = none
  · have hspotDown : spot <+: tree.placeOf path := by
      rcases (mem_spotsOf_iff tree path spot).mp hspot with hfront | rfl
      · rcases hdown spot hfront with hdirectory | ⟨hleads, _⟩
        · rw [isDirectoryAt_iff_kindAt, hnone] at hdirectory
          cases hdirectory
        · exact hleads
      · exact List.prefix_rfl
    -- a location around the file is there, so this one lies below it
    have hbelow : block <+: spot := by
      refine (List.prefix_or_prefix_of_prefix hblockDown.1 hspotDown).resolve_right
        fun haround => ?_
      obtain ⟨rest, rfl⟩ := haround
      rw [kindAt_below_none hnone rest] at hfile
      cases hfile
    obtain ⟨rest, rfl⟩ := hbelow
    have hrest : rest ≠ [] := by
      rintro rfl
      rw [List.append_nil, hfile] at hnone
      cases hnone
    rw [hnone, kindAt_below_file hlaterFile hrest]
  · rw [h.kindAt_eq hnone]

/-- Making the directory of a file leaves its place as it is. -/
theorem kindAt_placeOf_makeParent (hplain : ∀ location, tree.kindAt location ≠ some .link)
    (path : Path)
    (hapart : tree.placeOf path ∈ tree.frontSpots path →
      tree.isDirectoryAt (tree.placeOf path) = true) :
    (makeParent tree path).1.kindAt (tree.placeOf path) = tree.kindAt (tree.placeOf path) := by
  rcases (growsTo_makeParent_way hplain path).inKind.kinds (tree.placeOf path) with
    hsame | ⟨hfront, hnone, _⟩ | ⟨hwritten, _⟩
  · exact hsame
  · have hdirectory := hapart hfront
    rw [isDirectoryAt_iff_kindAt, hnone] at hdirectory
    cases hdirectory
  · exact hwritten.elim

/-- Once all directories of a file are there, writing it in a tree that has grown ends as it would
have ended before, if no directory was made at its place. -/
theorem GrowsInKind.write_eq {parent laterParent : FileTree}
    (h : tree.GrowsInKind later made written)
    (hplain : ∀ location, tree.kindAt location ≠ some .link)
    (hmade : ¬ made (tree.placeOf path)) (hname : written (tree.placeOf path) → path.NamesFile)
    (hshort : AreShort path.frontSteps)
    (hparent : tree.GrowsTo parent (· ∈ tree.frontSpots path) fun _ => False)
    (hlaterParent : later.GrowsTo laterParent (· ∈ later.frontSpots path) fun _ => False)
    (hplace : parent.kindAt (tree.placeOf path) = tree.kindAt (tree.placeOf path))
    (hlaterPlace : laterParent.kindAt (tree.placeOf path) = later.kindAt (tree.placeOf path))
    (hfront : ∀ spot ∈ parent.frontSpots path, parent.isDirectoryAt spot = true)
    (hlaterFront : ∀ spot ∈ laterParent.frontSpots path, laterParent.isDirectoryAt spot = true)
    (content : ByteArray) :
    (laterParent.write path content).map (fun _ => ()) =
      (parent.write path content).map fun _ => () := by
  have hparentPlain := fun location => hparent.kindAt_ne_link (hplain location)
  have hlaterPlain := fun location =>
    hlaterParent.kindAt_ne_link (h.kindAt_ne_link (hplain location))
  have hworking : laterParent.working = parent.working := by
    rw [hlaterParent.working, hparent.working, h.working]
  rcases h.kinds (tree.placeOf path) with hsame | ⟨hhere, _⟩ | ⟨hhere, hnone, hfile⟩
  · have hagrees : parent.AgreesOn laterParent (· ∈ parent.spotsOf path) := by
      refine ⟨hworking, fun spot hspot => ?_, hparentPlain, hlaterPlain⟩
      rcases (mem_spotsOf_iff parent path spot).mp hspot with hspot | rfl
      · have hlaterSpot : spot ∈ laterParent.frontSpots path := by
          rwa [frontSpots, FileTree.startOf, hworking]
        rw [isDirectoryAt_iff_kindAt.mp (hfront spot hspot),
          isDirectoryAt_iff_kindAt.mp (hlaterFront spot hlaterSpot)]
      · rw [hparent.placeOf, hplace, hlaterPlace, hsame]
    exact hagrees.write_eq (fun _ hspot => hspot) content
  · exact absurd hhere hmade
  · obtain ⟨result, hwrite⟩ := exists_write_eq (hname hhere) hshort content
    rw [hwrite parent hparentPlain hfront (Or.inl (by rw [hparent.placeOf, hplace, hnone])),
      hwrite laterParent hlaterPlain hlaterFront
        (Or.inr (by rw [hlaterParent.placeOf, h.placeOf, hlaterPlace, hfile]))]

/-- The way to a file is open if there is no file on it, and it stays open in a tree that has grown
without writing one there. -/
theorem GrowsInKind.isOpen_frontSteps (h : tree.GrowsInKind later made written)
    (hplain : ∀ location, tree.kindAt location ≠ some .link)
    (hfree : ∀ spot ∈ tree.frontSpots path, tree.kindAt spot ≠ some .file)
    (hwritten : ∀ spot ∈ tree.frontSpots path, tree.kindAt spot = none → ¬ written spot) :
    tree.IsOpen (tree.startOf path) path.frontSteps ∧
      later.IsOpen (later.startOf path) path.frontSteps := by
  have hopen : tree.IsOpen (tree.startOf path) path.frontSteps := by
    intro spot hspot
    rw [isDirectoryAt_iff_kindAt]
    have hkind := hfree spot hspot
    have hlink := hplain spot
    cases hat : tree.kindAt spot with
    | none => exact Or.inr rfl
    | some kind => cases kind <;> simp_all
  refine ⟨hopen, fun spot hspot => ?_⟩
  rw [h.startOf] at hspot
  rcases h.kinds spot with hsame | ⟨_, _, hnew⟩ | ⟨hhere, hnone, _⟩
  · exact (hopen spot hspot).imp h.isDirectoryAt fun hnone => hsame.trans hnone
  · exact Or.inl (isDirectoryAt_iff_kindAt.mpr hnew)
  · exact absurd hhere (hwritten spot hspot hnone)

/-- Writing a text by a way with a file on it fails in a tree that has grown as it would have failed
before. -/
theorem GrowsInKind.writeText_eq_of_blocked (h : tree.GrowsInKind later made written)
    (hplain : ∀ location, tree.kindAt location ≠ some .link) (hdown : tree.LeadsDown path)
    (hblocked : ∃ spot ∈ tree.frontSpots path, tree.kindAt spot = some .file) (text : String) :
    (writeText later path text).2 = (writeText tree path text).2 := by
  have hgrows := growsTo_makeParent_way hplain path
  have hagrees := h.agreesOn_of_blocked hplain hdown hblocked
  obtain ⟨hparent, hmadeAgrees⟩ := hagrees.makeParent path fun spot hspot =>
    (mem_spotsOf_iff tree path spot).mpr (Or.inl hspot)
  rw [writeText_snd, writeText_snd, hparent, hmadeAgrees.write_eq fun spot hspot => by
    rwa [spotsOf_congr hgrows.working] at hspot]

/-- Writing a text by a way without a file on it ends in a tree that has grown as it would have
ended before. -/
theorem GrowsInKind.writeText_eq_of_open (h : tree.GrowsInKind later made written)
    (hplain : ∀ location, tree.kindAt location ≠ some .link)
    (hstart : tree.isDirectoryAt (tree.startOf path) = true) (hdown : tree.LeadsDown path)
    (hfree : ∀ spot ∈ tree.frontSpots path, tree.kindAt spot ≠ some .file)
    (hmade : ¬ made (tree.placeOf path))
    (hwritten : ∀ spot ∈ tree.frontSpots path, tree.kindAt spot = none → ¬ written spot)
    (hname : written (tree.placeOf path) → path.NamesFile) (text : String) :
    (writeText later path text).2 = (writeText tree path text).2 := by
  have hlaterPlain := fun location => h.kindAt_ne_link (hplain location)
  have hgrows := growsTo_makeParent_way hplain path
  have hlaterGrows := growsTo_makeParent_way hlaterPlain path
  have hlaterFront : later.frontSpots path = tree.frontSpots path := by
    rw [frontSpots, frontSpots, h.startOf]
  obtain ⟨hopen, hlaterOpen⟩ := h.isOpen_frontSteps hplain hfree hwritten
  obtain ⟨wrap, hmakes⟩ := exists_makeParent path
  rw [writeText_snd, writeText_snd]
  by_cases hnul : ∃ step ∈ path.frontSteps, '\x00' ∈ step
  · rw [hmakes tree, hmakes later, makeNested_outer_of_nul tree hnul,
      makeNested_outer_of_nul later hnul]
    simp only [Except.mapError, Except.bind]
  have hnoNul : ∀ step ∈ path.frontSteps, '\x00' ∉ step := fun step hstep hmem =>
    hnul ⟨step, hstep, hmem⟩
  have hends := makes_outer hplain hnoNul hstart hopen
  have hlaterEnds := makes_outer hlaterPlain hnoNul
    (by rw [h.startOf]; exact h.isDirectoryAt hstart) hlaterOpen
  by_cases hshort : AreShort path.frontSteps
  · obtain ⟨hok, hway⟩ := hends.short hshort
    obtain ⟨hlaterOk, hlaterWay⟩ := hlaterEnds.short hshort
    -- the place of the file is left to the writing
    have hapart : tree.placeOf path ∈ tree.frontSpots path →
        tree.isDirectoryAt (tree.placeOf path) = true :=
      fun hfront => (hdown _ hfront).resolve_right fun hbelow => hbelow.2 rfl
    have hplace := kindAt_placeOf_makeParent hplain path hapart
    have hlaterPlace := kindAt_placeOf_makeParent hlaterPlain path (by
      rw [hlaterFront, h.placeOf]
      exact fun hfront => h.isDirectoryAt (hapart hfront))
    rw [h.placeOf] at hlaterPlace
    have hwrite := h.write_eq hplain hmade hname hshort hgrows hlaterGrows hplace hlaterPlace
      (by rw [frontSpots, hgrows.startOf, hmakes]; exact hway)
      (by rw [frontSpots, hlaterGrows.startOf, hmakes]; exact hlaterWay) text.toUTF8
    have hresult : (makeParent tree path).2 = .ok () := by rw [hmakes, hok]; rfl
    have hlaterResult : (makeParent later path).2 = .ok () := by rw [hmakes, hlaterOk]; rfl
    rw [hresult, hlaterResult]
    simp only [Except.bind, hwrite]
  · rw [hmakes tree, hmakes later, hends.long hshort, hlaterEnds.long hshort]
    simp only [Except.mapError, Except.bind]

/-- Writing a text ends in a tree that has grown as it would have ended before, if the way to the
file leads down where directories are to be made, no directory was made at its place, and no file
was written on the way to it. -/
theorem GrowsInKind.writeText_eq (h : tree.GrowsInKind later made written)
    (hplain : ∀ location, tree.kindAt location ≠ some .link)
    (hstart : tree.isDirectoryAt (tree.startOf path) = true) (hdown : tree.LeadsDown path)
    (hmade : ¬ made (tree.placeOf path))
    (hwritten : ∀ spot ∈ tree.frontSpots path, tree.kindAt spot = none → ¬ written spot)
    (hname : written (tree.placeOf path) → path.NamesFile) (text : String) :
    (writeText later path text).2 = (writeText tree path text).2 := by
  by_cases hblocked : ∃ spot ∈ tree.frontSpots path, tree.kindAt spot = some .file
  · exact h.writeText_eq_of_blocked hplain hdown hblocked text
  · exact h.writeText_eq_of_open hplain hstart hdown
      (fun spot hspot hfile => hblocked ⟨spot, hspot, hfile⟩) hmade hwritten hname text

end FileTree

end CorpusFacts
