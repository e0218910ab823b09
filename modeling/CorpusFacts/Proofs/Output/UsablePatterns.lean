import CorpusFacts.Proofs.Files.FreshWays
import CorpusFacts.Proofs.Output.Descent
import CorpusFacts.Project.ModuleList

/-!
# Patterns that name a file

A pattern is checked by its components, which do not tell whether a slash or a dot follows the last
one; but a file is written by the spelling of its path. So of the patterns that pass the check those
can be used that end in a name: into an output directory that is empty, or can be made, each of them
writes its file, and no other pattern does.
-/

namespace CorpusFacts

/-- A character of neither part is in no joined path, unless it is the slash between them. -/
theorem Path.notMem_join {base : Path} {inner : String} {c : Char} (hbase : c ∉ base.text.toList)
    (hinner : c ∉ inner.toList) (hslash : c ≠ '/') : c ∉ (base.join inner).text.toList := by
  rw [join]
  split
  · exact hinner
  · split
    · exact hinner
    · simp [String.toList_append, hbase, hinner]
    · simp [String.toList_append, hbase, hinner, hslash]

namespace FileTree

variable {tree : FileTree} {path : Path} {location : List String}
  {before behind : List (List Char)} {content : ByteArray}

/-- Behind a directory nothing is in the way of the directories around a file. -/
theorem exists_makeParent_of_fresh {front : List (List Char)} (hfront : path.frontSteps = before ++ front)
    (hruns : Path.AreRuns path.frontSteps)
    (hleads : Leads tree true maxLinks (tree.startOf path) before location)
    (hdirectory : tree.isDirectoryAt location = true) (hparent : ['.', '.'] ∉ front)
    (hshort : AreShort front) (hfresh : tree.IsFresh location front) :
    ∃ made, makeParent tree path = (made, .ok ()) ∧ Opens tree made location front := by
  obtain ⟨wrap, hmakes⟩ := exists_makeParent path
  have hnested : ∃ made, tree.makeNested path.outer = (made, .ok ()) ∧
      Opens tree made location front := by
    cases hsteps : path.frontSteps with
    | nil =>
      obtain ⟨rfl, rfl⟩ := List.append_eq_nil_iff.mp (hfront.symm.trans hsteps)
      rw [Path.outer, hsteps]
      exact ⟨tree, rfl, opens_here hdirectory (by simp) rfl⟩
    | cons first rest =>
      rw [← startAt_of_frontSteps tree hsteps] at hleads
      rw [hsteps] at hruns hfront
      rw [Path.outer, hsteps]
      exact exists_makeNested hruns hfront hleads hdirectory hparent hshort hfresh
  obtain ⟨made, hmade, hopens⟩ := hnested
  exact ⟨made, by rw [hmakes, hmade]; rfl, hopens⟩

/-- A path is spelled as one of a file if nothing follows its last name. -/
theorem namesFile_iff {front idle : List (List Char)} {last : List Char}
    (hsegments : path.segments = front ++ last :: idle) (hlast : Path.isIdle last = false)
    (hidle : ∀ step ∈ idle, Path.isIdle step = true) : path.NamesFile ↔ idle = [] := by
  rw [Path.NamesFile, hsegments, List.getLast?_append, List.getLast?_cons]
  cases idle using List.reverseRecOn with
  | nil => simpa using hlast
  | append_singleton idle step => simpa using hidle step (by simp)

/-- A file is written where a name is new in a directory that its path leads to. -/
theorem write_new {front : List (List Char)} {last : List Char} (hresolvable : IsResolvable path)
    (hsegments : path.segments = front ++ [last])
    (hleads : Leads tree true maxLinks (tree.startOf path) front location)
    (hdirectory : tree.isDirectoryAt location = true) (hname : IsNameStep last)
    (hnone : tree.root.at? (location ++ [String.ofList last]) = none) :
    ∃ later, tree.write path content = .ok later ∧
      tree.GrowsTo later (fun _ => False) (· = location ++ [String.ofList last]) ∧
      later.canonical path = .ok (location ++ [String.ofList last]) ∧
      later.read path = .ok content := by
  have hfile : path.NamesFile := (namesFile_iff hsegments hname.notIdle (by simp)).mpr rfl
  obtain ⟨follow, hresolve⟩ :=
    exists_resolve_of_leads hresolvable hsegments hleads (List.cons_ne_nil _ _) true
  rw [resolveSteps_new hdirectory hname hnone] at hresolve
  have hgrows := growsTo_put_file hdirectory (Or.inl hnone) content
  refine ⟨tree.put location (String.ofList last) (Entry.file content), ?_, hgrows, ?_⟩
  · rw [write, writtenPlace_eq_resolve tree hfile, hresolve]
    rfl
  · have hplace : (tree.put location (String.ofList last) (.file content)).root.at?
        (location ++ [String.ofList last]) = some (.file content) := by
      rw [at?_eq_file_iff, faceAt_put_inside hdirectory]
      rfl
    obtain ⟨left, hleft⟩ := (hgrows.leads hleads).append
    have hcanonical : (tree.put location (String.ofList last) (.file content)).canonical path =
        .ok (location ++ [String.ofList last]) := by
      rw [canonical_eq_ok_iff, hgrows.startOf, hsegments]
      exact ⟨hresolvable, hleft (by simp)
        (.enters (hgrows.isDirectoryAt hdirectory) hname hplace rfl .here)⟩
    refine ⟨hcanonical, ?_⟩
    rw [read, hcanonical]
    simp only [bind, Except.bind, hplace]

/-- No file is written where a path goes on behind a new name: what is written lies where the path
leads, and that is no place for a file. -/
theorem write_behind_new {front idle : List (List Char)} {last : List Char} {later : FileTree}
    (hresolvable : IsResolvable path) (hsegments : path.segments = front ++ last :: idle)
    (hidle : idle ≠ []) (hleads : Leads tree true maxLinks (tree.startOf path) front location)
    (hdirectory : tree.isDirectoryAt location = true) (hname : IsNameStep last)
    (hnone : tree.root.at? (location ++ [String.ofList last]) = none) :
    tree.write path content ≠ .ok later := by
  intro hwrite
  obtain ⟨follow, hresolve⟩ :=
    exists_resolve_of_leads hresolvable hsegments hleads (List.cons_ne_nil _ _) true
  rw [resolveSteps_new hdirectory hname hnone] at hresolve
  obtain ⟨_, -, -, ⟨directory, name, hfound, -⟩ | hfound⟩ := growsTo_of_write hwrite
  · rw [hresolve] at hfound
    split at hfound
    · simp [hidle] at hfound
    · cases hfound
  · rw [hresolve] at hfound
    split at hfound <;> cases hfound

/-- A file is written behind a directory, along with the directories around it, if nothing is in its
way and its path is spelled as one of a file. -/
theorem writeText_of_fresh (text : String) (hsegments : path.segments = before ++ behind)
    (hnoNul : '\x00' ∉ path.text.toList)
    (hleads : Leads tree true maxLinks (tree.startOf path) before location)
    (hdirectory : tree.isDirectoryAt location = true) (hparent : ['.', '.'] ∉ behind)
    (hshort : AreShort behind) (hfresh : tree.IsFresh location behind)
    (hname : ∃ step ∈ behind, Path.isIdle step = false) :
    ((writeText tree path text).2 = .ok () ↔ path.NamesFile) ∧
    ((writeText tree path text).2 = .ok () →
      tree.GrowsTo (writeText tree path text).1 (fun _ => True) (fun _ => True) ∧
      (writeText tree path text).1.canonical path = .ok (placeFrom location behind) ∧
      (writeText tree path text).1.read path = .ok text.toUTF8) := by
  obtain ⟨front, last, idle, rfl, hlast, hidle⟩ := Path.exists_last_of_not_idle hname
  obtain ⟨hparents, hrest⟩ := not_or.mp (List.mem_append.not.mp hparent)
  have hstep : IsNameStep last := ⟨hlast, Ne.symm (not_or.mp (List.mem_cons.not.mp hrest)).1,
    hshort last (by simp)⟩
  rw [← List.append_assoc] at hsegments
  rw [List.append_cons] at hfresh
  have hruns := Path.areRuns_segments hnoNul
  have hfront := Path.frontSteps_eq hsegments hlast hidle
  obtain ⟨made, hmade, hopens⟩ := exists_makeParent_of_fresh hfront
    (fun step hmem => hruns step (by
      rw [hsegments, ← hfront]
      exact List.mem_append_left _ hmem)) hleads hdirectory hparents
    (fun step hmem => hshort step (List.mem_append_left _ hmem)) hfresh.of_append.of_append
  have hplace := hopens.way _ (placeFrom_mem_spotsFrom _ _)
  have hnone := (hopens.at?_new hfresh.of_append hstep hparents).1
  have hmadeLeads : Leads made true maxLinks (made.startOf path) (before ++ front)
      (placeFrom location front) := by
    rw [hopens.grows.startOf]
    exact (hopens.grows.leads hleads).extend hopens.way
      fun step hmem => hshort step (List.mem_append_left _ hmem)
  have hresolvable : IsResolvable path := by
    refine ⟨fun hempty => ?_, hnoNul⟩
    have hlone : path.segments = [[]] := by rw [Path.segments, hempty]; rfl
    rw [hsegments] at hlone
    have hmem : last ∈ ([[]] : List (List Char)) := hlone ▸ by simp
    rw [List.mem_singleton.mp hmem] at hlast
    exact absurd hlast (by decide)
  rw [namesFile_iff hsegments hlast hidle]
  by_cases hfile : idle = []
  · subst hfile
    obtain ⟨later, hwrite, hgrows, hcanonical, hread⟩ :
        ∃ later, made.write path text.toUTF8 = .ok later ∧ _ ∧ _ ∧ _ :=
      write_new hresolvable hsegments hmadeLeads hplace hstep hnone
    have hwritten : writeText tree path text = (later, .ok ()) := by
      rw [writeText, hmade]
      simp only [hwrite]
    rw [hwritten]
    refine ⟨iff_of_true rfl rfl, fun _ => ⟨?_, ?_, hread⟩⟩
    · exact (hopens.grows.mono (fun _ _ => trivial) fun _ _ => trivial).trans
        (hgrows.mono (fun _ _ => trivial) fun _ _ => trivial)
    · rw [hcanonical, placeFrom_append, placeFrom, placeFrom, List.foldl_cons, List.foldl_nil,
        stepFrom_of_name hstep.notIdle hstep.notParent]
  · have hfails : (writeText tree path text).2 ≠ .ok () := by
      intro hok
      rw [writeText_snd, hmade] at hok
      cases hwrite : made.write path text.toUTF8 with
      | error failure =>
        rw [hwrite] at hok
        cases hok
      | ok later =>
        exact write_behind_new hresolvable hsegments hfile hmadeLeads hplace hstep hnone hwrite
    exact ⟨iff_of_false hfails hfile, fun hok => absurd hok hfails⟩

/-- A directory that is empty, or that is not there and can be made. -/
inductive IsFree (tree : FileTree) (directory : Path) : Prop
  /-- It is there, and nothing is in it. -/
  | empty (hempty : tree.entries directory = .ok []) : IsFree tree directory
  /-- Its path leads to some directory, which does not have the next name on the path. Behind this
  name the path does not lead back. -/
  | new {front later : List (List Char)} {step : List Char} {location : List String}
      (hsegments : directory.segments = front ++ step :: later)
      (hnoNul : '\x00' ∉ directory.text.toList)
      (hleads : Leads tree true maxLinks (tree.startOf directory) front location)
      (hdirectory : tree.isDirectoryAt location = true) (hname : IsNameStep step)
      (hnone : tree.root.at? (location ++ [String.ofList step]) = none)
      (hlater : ['.', '.'] ∉ later) : IsFree tree directory

/-- What has something in it is a directory. -/
theorem isDirectoryAt_of_below {entry : Entry} {rest : List String}
    (h : tree.root.at? (location ++ rest) = some entry) (hrest : rest ≠ []) :
    tree.isDirectoryAt location = true := by
  obtain ⟨name, rest, rfl⟩ := List.exists_cons_of_ne_nil hrest
  rw [List.append_cons, Entry.at?_append] at h
  obtain ⟨inner, hinner, -⟩ := Option.bind_eq_some_iff.mp h
  exact isDirectoryAt_of_at? hinner

/-- Nothing is in the way of steps that lead down from an empty directory. -/
theorem isFresh_of_empty {steps : List (List Char)}
    (hempty : tree.root.at? location = some (.directory [])) (hparent : ['.', '.'] ∉ steps) :
    tree.IsFresh location steps := by
  intro spot hspot
  obtain ⟨rest, rfl⟩ := start_prefix_of_mem_spotsFrom hparent hspot
  cases rest with
  | nil => exact Or.inl (List.append_nil _)
  | cons name rest =>
    right
    rw [Entry.at?_append, hempty, Option.bind_some]
    exact at?_below_eq_none (fun _ => rfl) name rest

/-- Nothing is in the way of steps that lead down from a name that is not there. -/
theorem isFresh_of_new {step : List Char} {steps : List (List Char)} (hname : IsNameStep step)
    (hnone : tree.root.at? (location ++ [String.ofList step]) = none)
    (hparent : ['.', '.'] ∉ steps) : tree.IsFresh location (step :: steps) := by
  intro spot hspot
  rw [spotsFrom, stepFrom_of_name hname.notIdle hname.notParent, List.mem_cons] at hspot
  rcases hspot with rfl | hspot
  · exact Or.inl rfl
  · obtain ⟨rest, rfl⟩ := start_prefix_of_mem_spotsFrom hparent hspot
    right
    rw [Entry.at?_append, hnone, Option.bind_none]

/-- A way into a free directory: its first steps lead to a directory, and the steps behind them lead
down through names that nothing has. -/
structure WayInto (tree : FileTree) (directory : Path) (before behind : List (List Char))
    (location : List String) : Prop where
  /-- The first steps lead to a location. -/
  leads : Leads tree true maxLinks (tree.startOf directory) before location
  /-- There is a directory at the location. -/
  isDirectory : tree.isDirectoryAt location = true
  /-- The steps behind it lead down. -/
  noParent : ['.', '.'] ∉ behind
  /-- Nothing is in their way, nor in the way of steps that lead further down. -/
  fresh : ∀ steps, ['.', '.'] ∉ steps → tree.IsFresh location (behind ++ steps)
  /-- The path leads all the way once there are directories on it. -/
  opens : ∀ later, tree.GrowsTo later (fun _ => True) (fun _ => True) → AreShort behind →
    (∀ spot ∈ spotsFrom location behind, later.isDirectoryAt spot = true) →
    later.canonical directory = .ok (placeFrom location behind)

/-- A path leads all the way behind its first steps once there are directories on it. -/
theorem canonical_of_directories {directory : Path} {later : FileTree}
    (hresolvable : IsResolvable directory)
    (hsegments : directory.segments = before ++ behind ∨
      directory.segments = before ++ behind ++ [[]])
    (hleads : Leads tree true maxLinks (tree.startOf directory) before location)
    (hgrows : tree.GrowsTo later (fun _ => True) (fun _ => True)) (hshort : AreShort behind)
    (hway : ∀ spot ∈ spotsFrom location behind, later.isDirectoryAt spot = true) :
    later.canonical directory = .ok (placeFrom location behind) := by
  have hend := (hgrows.leads hleads).extend hway hshort
  rw [canonical_eq_ok_iff, hgrows.startOf]
  refine ⟨hresolvable, ?_⟩
  rcases hsegments with heq | heq
  · rwa [heq]
  · obtain ⟨left, hleft⟩ := hend.append
    rw [heq]
    exact hleft (by simp) (.stays (hway _ (placeFrom_mem_spotsFrom _ _)) (by decide) .here)

/-- There is a way into a free directory, and what is joined to its path goes on from there. -/
theorem IsFree.exists_way {directory : Path} (h : tree.IsFree directory)
    (hnonempty : directory.text ≠ "") : ∃ before behind location,
      tree.WayInto directory before behind location ∧ '\x00' ∉ directory.text.toList ∧
      ∀ inner : String, inner.toList.head? ≠ some '/' →
        (directory.join inner).segments = before ++ behind ++ (⟨inner⟩ : Path).segments := by
  obtain ⟨steps, hsteps, -, hjoin⟩ := Path.exists_segments_join hnonempty
  cases h with
  | empty hempty =>
    obtain ⟨location, hcanonical, hat⟩ := entries_eq_ok_iff.mp hempty
    obtain ⟨hresolvable, hleads⟩ := canonical_eq_ok_iff.mp hcanonical
    have hfront := hleads.of_slash_end hsteps
    refine ⟨steps, [], location, ⟨hfront, by rw [isDirectoryAt, hat]; rfl, by simp,
      fun more hmore => isFresh_of_empty hat hmore, fun later hgrows hshort hway => ?_⟩,
      hresolvable.noNul, fun inner hinner => by rw [hjoin inner hinner, List.append_nil]⟩
    exact canonical_of_directories hresolvable (by rwa [List.append_nil]) hfront hgrows hshort hway
  | @new front later step location hsegments hnoNul hleads hdirectory hname hnone hlater =>
    have hbehind : ∃ rest, steps = front ++ step :: rest ∧ ['.', '.'] ∉ step :: rest := by
      have hfirst := Ne.symm hname.notParent
      rcases hsteps with heq | heq
      · exact ⟨later, heq.symm.trans hsegments, by simp [hfirst, hlater]⟩
      · rw [heq] at hsegments
        obtain ⟨rest, last, hrest⟩ : ∃ rest last, step :: later = rest ++ [last] :=
          ⟨_, _, (List.dropLast_append_getLast (List.cons_ne_nil _ _)).symm⟩
        rw [hrest, ← List.append_assoc] at hsegments
        obtain ⟨rfl, hlast⟩ := List.append_inj' hsegments rfl
        cases rest with
        | nil =>
          obtain ⟨rfl, -⟩ := List.cons.inj hrest
          rw [← List.singleton_inj.mp hlast] at hname
          exact absurd hname.notIdle (by decide)
        | cons first rest =>
          rw [List.cons_append] at hrest
          obtain ⟨rfl, rfl⟩ := List.cons.inj hrest
          have hdots := (not_or.mp (List.mem_append.not.mp hlater)).1
          exact ⟨rest, rfl, by simp [hfirst, hdots]⟩
    obtain ⟨rest, rfl, hrest⟩ := hbehind
    refine ⟨front, step :: rest, location, ⟨hleads, hdirectory, hrest, fun more hmore => ?_,
      fun later => canonical_of_directories ⟨hnonempty, hnoNul⟩ hsteps hleads⟩, hnoNul, hjoin⟩
    refine isFresh_of_new hname hnone ?_
    simp only [List.mem_cons, not_or] at hrest
    simp [hrest.2, hmore]

end FileTree

namespace ArtifactNaming

variable {naming : ArtifactNaming} {tree : FileTree} {project : String}

/-- The output directory; an empty path stands for the working directory. -/
def outputDirectory (naming : ArtifactNaming) : Path :=
  if naming.directory.text = "" then ⟨"."⟩ else naming.directory

/-- The way to an output file goes on from a way into the output directory. -/
theorem exists_way (hfree : tree.IsFree naming.outputDirectory)
    (hpattern : patternFault? naming.pattern = none) (hanalysis : IsPlainName naming.analysis)
    (hproject : IsPlainName project) : ∃ before behind location,
      tree.WayInto naming.outputDirectory before behind location ∧
      '\x00' ∉ naming.directory.text.toList ∧
      (naming.path project).segments =
        before ++ behind ++ (⟨naming.innerName project⟩ : Path).segments ∧
      tree.startOf (naming.path project) = tree.startOf naming.outputDirectory := by
  obtain ⟨_, hrelative, _, _⟩ := patternFault?_eq_none_iff.mp hpattern
  have hinner := head?_innerName hanalysis hproject hrelative
  rw [path_eq_join hanalysis hproject hrelative]
  by_cases hempty : naming.directory.text = ""
  · have hdirectory : naming.outputDirectory = ⟨"."⟩ := if_pos hempty
    rw [hdirectory] at hfree ⊢
    have hsegments : (⟨"."⟩ : Path).segments = [['.']] := by decide
    have hstart : ∀ tree : FileTree, tree.startOf ⟨"."⟩ = tree.working := fun _ => if_neg (by decide)
    -- Nothing but the working directory can be free here, and it is empty.
    have hworking : tree.root.at? tree.working = some (.directory []) := by
      cases hfree with
      | empty hentries =>
        obtain ⟨location, hcanonical, hat⟩ := FileTree.entries_eq_ok_iff.mp hentries
        obtain ⟨-, hleads⟩ := FileTree.canonical_eq_ok_iff.mp hcanonical
        rw [hsegments, hstart] at hleads
        cases hleads with
        | stays _ _ hrest =>
          cases hrest
          exact hat
        | enters _ hname => exact absurd hname.notIdle (by decide)
        | follows _ hname => exact absurd hname.notIdle (by decide)
        | stops _ hname => exact absurd hname.notIdle (by decide)
      | @new front later step _ hsteps _ _ _ hname =>
        have hmem : step ∈ [['.']] := hsegments ▸ hsteps ▸ by simp
        rw [List.mem_singleton.mp hmem] at hname
        exact absurd hname.notIdle (by decide)
    have hdot : tree.isDirectoryAt tree.working = true := by
      rw [FileTree.isDirectoryAt, hworking]
      rfl
    refine ⟨[], [], tree.working, ⟨?_, hdot, by simp,
      fun steps hsteps => FileTree.isFresh_of_empty hworking hsteps, fun later hgrows _ hway => ?_⟩,
      by simp [hempty], by rw [Path.join_of_empty hempty]; rfl, ?_⟩
    · rw [hstart]
      exact .here
    · rw [FileTree.canonical_eq_ok_iff, hsegments, hstart, hgrows.working]
      exact ⟨⟨by decide, by decide⟩, .stays (hway _ (List.mem_singleton_self _)) (by decide) .here⟩
    · rw [Path.join_of_empty hempty, hstart]
      exact if_neg (by simpa [Path.isAbsolute] using hinner)
  · have hdirectory : naming.outputDirectory = naming.directory := if_neg hempty
    rw [hdirectory] at hfree ⊢
    obtain ⟨before, behind, location, hway, hnul, hjoin⟩ := hfree.exists_way hempty
    refine ⟨before, behind, location, hway, hnul, hjoin _ hinner, ?_⟩
    rw [FileTree.startOf, FileTree.startOf, Path.isAbsolute_join hinner hempty]

/-- A pattern is spelled as the name of a file if the path behind the output directory is. -/
theorem namesFile_path_iff (hfree : tree.IsFree naming.outputDirectory)
    (hpattern : patternFault? naming.pattern = none) (hanalysis : IsPlainName naming.analysis)
    (hproject : IsPlainName project) :
    (naming.path project).NamesFile ↔ (⟨naming.pattern⟩ : Path).NamesFile := by
  obtain ⟨before, behind, _, _, _, hsegments, _⟩ :=
    exists_way hfree hpattern hanalysis hproject
  have hne : (⟨naming.pattern⟩ : Path).segments ≠ [] := Text.splitWhere_ne_nil _ _
  have hlast : (naming.path project).segments.getLast? =
      ((⟨naming.pattern⟩ : Path).segments.getLast?).map (naming.fill project) := by
    rw [hsegments, segments_innerName hanalysis hproject, ← List.getLast?_map, ← List.append_assoc]
    exact List.getLast?_append_of_ne_nil _ (by simpa using hne)
  have hidle : ∀ step, Path.isIdle (naming.fill project step) = Path.isIdle step := by
    intro step
    rw [Bool.eq_iff_iff]
    simp only [Path.isIdle, Bool.or_eq_true, beq_iff_eq]
    exact or_congr (fill_eq_dots_iff hanalysis hproject (Or.inl rfl))
      (fill_eq_dots_iff hanalysis hproject (Or.inr (Or.inl rfl)))
  rw [Path.NamesFile, Path.NamesFile, hlast]
  simp [hidle]

/-- Every character of a filled pattern is one of the pattern or of what is filled in. -/
theorem mem_of_mem_fileName {c : Char} (h : c ∈ (naming.fileName project).toList) :
    c ∈ naming.format.extension.toList ∨ c ∈ naming.analysis.toList ∨ c ∈ project.toList ∨
      c ∈ naming.pattern.toList := by
  rw [toList_fileName, fill] at h
  exact (Text.mem_of_mem_replace h).imp_right fun h =>
    (Text.mem_of_mem_replace h).imp_right Text.mem_of_mem_replace

/-- The path of an output file has no NUL character if its parts have none. -/
theorem noNul_path (hdirectory : '\x00' ∉ naming.directory.text.toList)
    (hpattern : '\x00' ∉ naming.pattern.toList) (hanalysis : naming.analysis ∈ analysisNames)
    (hproject : '\x00' ∉ project.toList) : '\x00' ∉ (naming.path project).text.toList := by
  have hextension : '\x00' ∉ naming.format.extension.toList := by
    cases naming.format <;> decide
  have hanalyses : ∀ analysis ∈ analysisNames, '\x00' ∉ analysis.toList := by decide
  have hname : '\x00' ∉ (naming.fileName project).toList := fun hnul =>
    (mem_of_mem_fileName hnul).elim hextension fun hnul =>
      hnul.elim (hanalyses _ hanalysis) fun hnul => hnul.elim hproject hpattern
  rw [path]
  split
  · exact Path.notMem_join hdirectory hname (by decide)
  · exact Path.notMem_join (Path.notMem_join hdirectory hproject (by decide)) hname (by decide)

/-- An accepted pattern can be used exactly if it ends in a name. Records are then written for every
project, into every output directory that is empty or can be made, unless a name is too long; the
file lies below the output directory and holds the records. Behind any other accepted pattern no
file is ever written. -/
theorem accepted_pattern_usable_iff {ρ : Type} [Record ρ] (naming : ArtifactNaming)
    (project : String) (tree : FileTree) (records : List ρ)
    (hpattern : patternFault? naming.pattern = none) (hpatternNul : '\x00' ∉ naming.pattern.toList)
    (hanalysis : naming.analysis ∈ analysisNames) (hproject : IsPlainName project)
    (hprojectNul : '\x00' ∉ project.toList) (hfree : tree.IsFree naming.outputDirectory)
    (hshort : FileTree.AreShort (naming.path project).segments) :
    ((writeRecords tree (naming.path project) naming.format records).2 = .ok () ↔
      (⟨naming.pattern⟩ : Path).NamesFile) ∧
    ∀ later, writeRecords tree (naming.path project) naming.format records = (later, .ok ()) →
      ∃ place names, names ≠ [] ∧ later.canonical naming.outputDirectory = .ok place ∧
        later.canonical (naming.path project) = .ok (place ++ names) ∧
        later.read (naming.path project) =
          .ok (renderRecords naming.format records).toUTF8 := by
  have hplain := isPlainName_of_mem_analysisNames hanalysis
  obtain ⟨before, behind, location, hway, hnul, hsegments, hstart⟩ :=
    exists_way hfree hpattern hplain hproject
  have hinnerDots := dots_notMem_segments_innerName hpattern hplain hproject
  rw [List.append_assoc] at hsegments
  have hbehindShort : FileTree.AreShort behind := fun step hstep => hshort step (by
    rw [hsegments]
    exact List.mem_append_right _ (List.mem_append_left _ hstep))
  obtain ⟨hwrites, hwritten⟩ := FileTree.writeText_of_fresh (renderRecords naming.format records)
    hsegments (noNul_path hnul hpatternNul hanalysis hprojectNul) (hstart ▸ hway.leads)
    hway.isDirectory (by simp [hway.noParent, hinnerDots])
    (fun step hstep => hshort step (by
      rw [hsegments]
      exact List.mem_append_right _ hstep))
    (hway.fresh _ hinnerDots)
    (by
      obtain ⟨step, hstep, hidle⟩ := exists_step_innerName hplain hproject
      exact ⟨step, List.mem_append_right _ hstep, hidle⟩)
  rw [namesFile_path_iff hfree hpattern hplain hproject] at hwrites
  refine ⟨hwrites, fun later hlater => ?_⟩
  rw [writeRecords] at hlater
  rw [hlater] at hwritten
  obtain ⟨hgrows, hcanonical, hread⟩ := hwritten rfl
  rw [FileTree.placeFrom_append, FileTree.placeFrom_of_noParent _ hinnerDots] at hcanonical
  have hnames : ((⟨naming.innerName project⟩ : Path).segments.filter fun step =>
      !Path.isIdle step).map String.ofList ≠ [] := by
    obtain ⟨step, hstep, hidle⟩ := exists_step_innerName hplain hproject
    rw [Ne, List.map_eq_nil_iff, List.filter_eq_nil_iff]
    exact fun hall => hall step hstep (by simp [hidle])
  refine ⟨_, _, hnames, hway.opens later hgrows hbehindShort fun spot hspot => ?_, hcanonical,
    hread⟩
  -- Every location on the way has the file below it.
  obtain ⟨entry, hentry, -⟩ := FileTree.exists_plain_of_canonical hcanonical
  obtain ⟨rest, hrest⟩ := FileTree.prefix_of_mem_spotsFrom hway.noParent hspot
  rw [← hrest, List.append_assoc] at hentry
  exact FileTree.isDirectoryAt_of_below hentry (List.append_ne_nil_of_right_ne_nil rest hnames)

/-- A tree with a directory and a link to it. -/
def linkedTree : FileTree :=
  ⟨.directory [("link", .link "real"), ("real", .directory [])], []⟩

/-- A directory that is not there yet, behind a link, is free. -/
theorem isFree_behind_link : linkedTree.IsFree ⟨"link/new/out"⟩ :=
  have hsegments : (⟨"link/new/out"⟩ : Path).segments =
      ["link".toList] ++ "new".toList :: ["out".toList] := by decide
  have hleads : FileTree.Leads linkedTree true FileTree.maxLinks (linkedTree.startOf ⟨"link/new/out"⟩)
      ["link".toList] ["real"] := FileTree.resolveFrom_eq_existing_iff.mp rfl
  .new hsegments (by decide) hleads rfl ⟨by decide, by decide, by decide⟩ rfl (by decide)

/-- A pattern with idle steps and two placeholders is used behind a link, where neither the output
directory nor the directories below it are there yet. -/
theorem accepted_pattern_usable_behind_link :
    patternFault? "./\x7banalysis\x7d//\x7bproject\x7d.\x7bext\x7d" = none ∧
      (⟨"./\x7banalysis\x7d//\x7bproject\x7d.\x7bext\x7d"⟩ : Path).NamesFile ∧
      (writeRecords linkedTree ⟨"link/new/out/./gradle_modules//p.csv"⟩ .csv
        [(⟨"a"⟩ : ModuleRecord)]).2 = .ok () := by
  have hfile : (⟨"./\x7banalysis\x7d//\x7bproject\x7d.\x7bext\x7d"⟩ : Path).NamesFile := by
    rw [Path.NamesFile]
    decide
  have husable := accepted_pattern_usable_iff
    ⟨⟨"link/new/out"⟩, "./\x7banalysis\x7d//\x7bproject\x7d.\x7bext\x7d", "gradle_modules", .csv⟩
    "p" linkedTree [(⟨"a"⟩ : ModuleRecord)] (by decide) (by decide) (by decide) (by decide)
    (by decide) isFree_behind_link (by rw [FileTree.AreShort]; decide)
  exact ⟨by decide, hfile, husable.1.mpr hfile⟩

/-- A pattern that ends in a slash is accepted, and then no project has an output file. -/
theorem slash_behind_pattern_fails :
    patternFault? "\x7bproject\x7d/" = none ∧ linkedTree.IsFree ⟨"real"⟩ ∧
      (writeRecords linkedTree
        ((⟨⟨"real"⟩, "\x7bproject\x7d/", "gradle_modules", .lines⟩ : ArtifactNaming).path "p") .lines
        ([] : List ModuleRecord)).2 = .error (.write ⟨"real/p/"⟩ .isADirectory) := by
  refine ⟨by decide, .empty rfl, by decide +kernel⟩

end ArtifactNaming

end CorpusFacts
