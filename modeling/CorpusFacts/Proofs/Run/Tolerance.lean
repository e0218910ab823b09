import CorpusFacts.Gradle.Plugins
import CorpusFacts.Imports.Imports
import CorpusFacts.Project.Metrics
import CorpusFacts.Proofs.Project.LostSource
import CorpusFacts.Proofs.Run.Configured

/-!
# Files that cannot be parsed

A source that cannot be parsed is skipped with a warning, and otherwise it is as if it were not
there. A build script that cannot be parsed lets its project fail if it is one of the root; in a
module it is skipped as well.
-/

namespace CorpusFacts

variable {tree later : FileTree} {place : List String} {path other : Path}

/-! ## Parsing under another path -/

/-- What comes of two steps, if anything, comes of the second with what comes of the first. -/
theorem toOption_bind {ε α β : Type} (first : Except ε α) (next : α → Except ε β) :
    (first >>= next).toOption = first.toOption.bind fun a => (next a).toOption := by
  cases first <;> rfl

/-- The text of a file does not depend on its path. -/
theorem Language.decode_toOption (language : Language) (path other : Path) (bytes : ByteArray) :
    (language.decode other bytes).toOption = (language.decode path bytes).toOption := by
  rw [decode, decode]
  split
  · rfl
  · split <;> rfl

/-- The tree of a text does not depend on the path of its file. -/
theorem Language.tree_toOption (language : Language) (path other : Path) (source : List Char) :
    (language.tree other source).toOption = (language.tree path source).toOption := by
  cases language <;> simp only [tree] <;> split <;> rfl

namespace SourceUnit

/-- The tree of some bytes is the one of their text. -/
theorem root_ofBytes {language : Language} (h : Language.ofPath? path = some language)
    (bytes : ByteArray) :
    (ofBytes path bytes).toOption.map (·.root) =
      (language.decode path bytes).toOption.bind fun text =>
        (language.tree path (Text.dropByteOrderMark text)).toOption := by
  simp only [ofBytes, ofText, h, toOption_bind, Option.map_bind]
  refine congrArg _ (funext fun text => ?_)
  simp only [Function.comp]
  cases (language.tree path (Text.dropByteOrderMark text)).toOption <;> rfl

/-- A file has the same tree, or none, under every path with its name. -/
theorem root_ofFile_congr (hname : other.fileName? = path.fileName?)
    (hread : tree.read other = tree.read path)
    (relativePath otherRelative module otherModule : String) :
    (ofFile tree other otherRelative otherModule).toOption.map (·.root) =
      (ofFile tree path relativePath module).toOption.map (·.root) := by
  have hlanguage : Language.ofPath? other = Language.ofPath? path := by
    rw [Language.ofPath?, Language.ofPath?, Path.extension?_congr hname]
  rw [ofFile, ofFile, hlanguage, hread]
  cases hpath : Language.ofPath? path with
  | none => rfl
  | some language =>
    cases tree.read path with
    | error failure => rfl
    | ok bytes =>
      have hsame : (ofBytes other bytes).toOption.map (·.root) =
          (ofBytes path bytes).toOption.map (·.root) := by
        rw [root_ofBytes hpath, root_ofBytes (hlanguage.trans hpath), language.decode_toOption path]
        simp only [language.tree_toOption path other]
      simp only [toOption_bind]
      generalize ofBytes other bytes = parsedOther at hsame ⊢
      generalize ofBytes path bytes = parsed at hsame ⊢
      cases parsedOther <;> cases parsed <;> exact hsame

end SourceUnit

namespace AnalysisUnit

/-- The file, parsed. -/
def parse (unit : AnalysisUnit) (tree : FileTree) : Except ParseError SourceUnit :=
  SourceUnit.ofFile tree unit.path unit.relativePath unit.module

/-- The warning for the file when it is skipped. -/
def skipLine (unit : AnalysisUnit) (error : ParseError) : String :=
  "skipped " ++ unit.relativePath ++ ": " ++ error.text

/-- The warning for the file, if it cannot be parsed. -/
def warning? (tree : FileTree) (unit : AnalysisUnit) : Option String :=
  match unit.parse tree with
  | .ok _ => none
  | .error error => some (unit.skipLine error)

/-- There is a warning for a file if and only if it cannot be parsed, and it names the reason. -/
theorem warning?_eq_some_iff {unit : AnalysisUnit} {line : String} :
    unit.warning? tree = some line ↔
      ∃ error, unit.parse tree = .error error ∧ unit.skipLine error = line := by
  rw [warning?]
  cases unit.parse tree <;> simp

end AnalysisUnit

/-- A file that cannot be parsed cannot be parsed under another path with its name either. -/
theorem AnalysisUnit.exists_error_of_parse {unit copy : AnalysisUnit} {error : ParseError}
    (hname : copy.path.fileName? = unit.path.fileName?)
    (hcanonical : tree.canonical copy.path = tree.canonical unit.path)
    (h : unit.parse tree = .error error) : ∃ other, copy.parse tree = .error other := by
  have hread : tree.read copy.path = tree.read unit.path := by
    rw [FileTree.read, FileTree.read, hcanonical]
  have hroot := SourceUnit.root_ofFile_congr hname hread unit.relativePath copy.relativePath
    unit.module copy.module
  rw [← parse, ← parse, h] at hroot
  cases hcopy : copy.parse tree with
  | error other => exact ⟨other, rfl⟩
  | ok source =>
    rw [hcopy] at hroot
    cases hroot

/-! ## Reading files -/

namespace Executor

variable {π ρ : Type} {executor : Executor π ρ} {units : List AnalysisUnit} {unit : AnalysisUnit}
  {project prepared : Project} {extensions : List String}

/-- What is found in a file, if it can be parsed. -/
def found (executor : Executor π ρ) (tree : FileTree) (unit : AnalysisUnit) : Findings π :=
  match unit.parse tree with
  | .ok source => executor.extraction.collect source
  | .error _ => .empty

/-- Every file that must be parsed can be. -/
def ParsesMandatory (tree : FileTree) (units : List AnalysisUnit) : Prop :=
  ∀ unit ∈ units, unit.isMandatory = true → ∃ source, unit.parse tree = .ok source

/-- A file that is read adds its findings, or the line for skipping it. -/
theorem readUnit_eq (h : unit.isMandatory = true → ∃ source, unit.parse tree = .ok source)
    (reading : Reading π) :
    executor.readUnit tree reading unit = .ok ⟨reading.findings ++ executor.found tree unit,
      reading.skipped ++ (unit.warning? tree).toList⟩ := by
  rw [readUnit, found, AnalysisUnit.warning?, ← AnalysisUnit.parse]
  cases hparse : unit.parse tree with
  | ok source => simp
  | error error =>
    have hoptional : unit.isMandatory = false := by
      rw [← Bool.not_eq_true]
      intro hmandatory
      obtain ⟨source, hsource⟩ := h hmandatory
      rw [hparse] at hsource
      cases hsource
    simp [hoptional, AnalysisUnit.skipLine]

/-- Files are read one after the other if none of those that must be parsed fails. -/
theorem foldlM_readUnit (h : ParsesMandatory tree units) (reading : Reading π) :
    units.foldlM (executor.readUnit tree) reading =
      .ok ⟨reading.findings ++ .join (units.map (executor.found tree)),
        reading.skipped ++ units.filterMap (·.warning? tree)⟩ := by
  induction units generalizing reading with
  | nil =>
    rw [List.foldlM_nil, List.map_nil, List.filterMap_nil, List.append_nil]
    change Except.ok reading = .ok ⟨reading.findings ++ .empty, reading.skipped⟩
    rw [Findings.append_empty]
  | cons unit units ih =>
    obtain ⟨hunit, hrest⟩ := List.forall_mem_cons.mp h
    rw [List.foldlM_cons, readUnit_eq hunit]
    simp only [bind, Except.bind, ih hrest, Findings.append_assoc, List.append_assoc]
    refine congrArg Except.ok (congrArg (Reading.mk _) (congrArg _ ?_))
    cases hwarning : unit.warning? tree with
    | none => rw [List.filterMap_cons_none hwarning]; rfl
    | some line => rw [List.filterMap_cons_some hwarning]; rfl

/-- A file that must be parsed and cannot be ends the reading. -/
theorem exists_error_of_foldlM_readUnit (executor : Executor π ρ) {error : ParseError}
    (hunit : unit ∈ units) (hmandatory : unit.isMandatory = true)
    (hfails : unit.parse tree = .error error) (reading : Reading π) :
    ∃ error, units.foldlM (executor.readUnit tree) reading = .error (.unparsed error) := by
  induction units generalizing reading with
  | nil => cases hunit
  | cons first units ih =>
    rw [List.foldlM_cons]
    cases hstep : executor.readUnit tree reading first with
    | error other =>
      simp only [readUnit] at hstep
      split at hstep
      · cases hstep
      · split at hstep <;> cases hstep
        exact ⟨_, rfl⟩
    | ok next =>
      rcases List.mem_cons.mp hunit with rfl | hunit
      · rw [readUnit, ← AnalysisUnit.parse, hfails] at hstep
        simp [hmandatory] at hstep
      · exact ih hunit next

/-- What an analysis makes of files that are read. -/
def factsOf (executor : Executor π ρ) (tree : FileTree) (prepared : Project)
    (units : List AnalysisUnit) : Except ProjectError (ProjectFacts ρ) :=
  let findings := Findings.join (units.map (executor.found tree))
  ((executor.extraction.aggregate prepared findings.values).mapError ProjectError.crashed).map
    fun records => ⟨records, units.length,
      units.filterMap (·.warning? tree) ++ findings.problems.map (·.text)⟩

/-- The facts of a project are those of its files if none that must be parsed fails. -/
theorem analyze_eq (hprepared : executor.prepare tree project = .ok prepared)
    (hunits : executor.finder.units tree prepared executor.extraction.scope = .ok units)
    (h : ParsesMandatory tree units) :
    executor.analyze tree project = executor.factsOf tree prepared units := by
  rw [analyze, hprepared, factsOf]
  simp only [bind, Except.bind, hunits, foldlM_readUnit h, Findings.empty_append, List.nil_append]
  cases executor.extraction.aggregate prepared _ <;> rfl

/-! ## Skipping a source -/

/-- Analyzing some more files that are skipped ends with the same error, or with the same records
and a warning more for each of these files. -/
inductive Skips (lines : List String) :
    Except ProjectError (ProjectFacts ρ) → Except ProjectError (ProjectFacts ρ) → Prop
  /-- The analysis fails alike. -/
  | fails (error : ProjectError) : Skips lines (.error error) (.error error)
  /-- The analysis succeeds alike. -/
  | succeeds {records : List ρ} {units : Nat} {warnings fewer : List String}
      (hkept : fewer.Sublist warnings) (hmore : warnings.Perm (lines ++ fewer)) :
      Skips lines (.ok ⟨records, units + lines.length, warnings⟩) (.ok ⟨records, units, fewer⟩)

section PassedOver

variable {p : AnalysisUnit → Bool}

/-- Nothing is found in files that cannot be parsed. -/
theorem join_found_filter (executor : Executor π ρ)
    (hfails : ∀ unit ∈ units, p unit = false → ∃ error, unit.parse tree = .error error)
    (hkeeps : ∀ unit ∈ units, p unit = true → unit.parse later = unit.parse tree) :
    Findings.join ((units.filter p).map (executor.found later)) =
      Findings.join (units.map (executor.found tree)) := by
  have hkept : (units.filter p).map (executor.found later) =
      (units.filter p).map (executor.found tree) := by
    refine List.map_congr_left fun unit hunit => ?_
    obtain ⟨hmem, hp⟩ := List.mem_filter.mp hunit
    rw [found, found, hkeeps unit hmem hp]
  rw [hkept]
  refine Findings.join_filter fun unit hunit hp => ?_
  obtain ⟨error, herror⟩ := hfails unit hunit hp
  rw [found, herror]

/-- There is a warning for each file that cannot be parsed. -/
theorem length_filterMap_warning?
    (hfails : ∀ unit ∈ units, p unit = false → ∃ error, unit.parse tree = .error error) :
    ((units.filter (!p ·)).filterMap (·.warning? tree)).length =
      (units.filter (!p ·)).length := by
  rw [List.length_filterMap_eq_countP, List.countP_eq_length]
  intro unit hunit
  obtain ⟨hmem, hp⟩ := List.mem_filter.mp hunit
  obtain ⟨error, herror⟩ := hfails unit hmem (by simpa using hp)
  rw [AnalysisUnit.warning?, herror]
  rfl

/-- Files that cannot be parsed add nothing but warnings to what an analysis makes of the others. -/
theorem skips_factsOf (executor : Executor π ρ) (prepared : Project)
    (hfails : ∀ unit ∈ units, p unit = false → ∃ error, unit.parse tree = .error error)
    (hkeeps : ∀ unit ∈ units, p unit = true → unit.parse later = unit.parse tree) :
    Skips ((units.filter (!p ·)).filterMap (·.warning? tree)) (executor.factsOf tree prepared units)
      (executor.factsOf later prepared (units.filter p)) := by
  have hwarnings : (units.filter p).filterMap (·.warning? later) =
      (units.filter p).filterMap (·.warning? tree) := by
    refine List.filterMap_congr fun unit hunit => ?_
    obtain ⟨hmem, hp⟩ := List.mem_filter.mp hunit
    rw [AnalysisUnit.warning?, AnalysisUnit.warning?, hkeeps unit hmem hp]
  have hsplit : (units.filter (!p ·) ++ units.filter p).Perm units :=
    List.perm_append_comm.trans (List.filter_append_perm p units)
  have hlength : (units.filter p).length +
      ((units.filter (!p ·)).filterMap (·.warning? tree)).length = units.length := by
    rw [length_filterMap_warning? hfails, ← hsplit.length_eq, List.length_append, Nat.add_comm]
  rw [factsOf, factsOf, join_found_filter executor hfails hkeeps, hwarnings]
  cases executor.extraction.aggregate prepared _ with
  | error crash => exact .fails _
  | ok records =>
    rw [← hlength]
    refine .succeeds ((List.filter_sublist.filterMap _).append_right _) ?_
    rw [← List.append_assoc, ← List.filterMap_append]
    exact (hsplit.filterMap _).symm.append_right _

end PassedOver

/-- The directory of the build of a project is a directory, and its boundary stays one. -/
theorem isDirectory_resolveRoot (hsound : tree.root.IsSound)
    (hresolver : executor.resolver = none ∨ executor.resolver = some buildRoot?)
    (hroot : tree.isDirectory project.root = true) :
    tree.isDirectory (executor.resolveRoot tree project).root = true ∧
      (executor.resolveRoot tree project).boundary = project.boundary := by
  rw [resolveRoot]
  split
  · exact ⟨hroot, rfl⟩
  · rename_i root hfound
    rcases hresolver with hnone | hsome
    · rw [hnone] at hfound
      cases hfound
    · rw [hsome, Option.bind_some] at hfound
      exact ⟨isDirectory_of_buildRoot? hsound hfound, rfl⟩

/-- The sources of a project are listed for an analysis that needs its modules. -/
structure AnalyzesSources (executor : Executor π ρ) (tree : FileTree) (project prepared : Project)
    (extensions : List String) (units : List AnalysisUnit) : Prop where
  /-- The tree is sound. -/
  sound : tree.root.IsSound
  /-- Builds are looked for in nested directories, if at all. -/
  resolver : executor.resolver = none ∨ executor.resolver = some buildRoot?
  /-- The modules of the project are needed. -/
  needsModules : executor.extraction.needsModules = true
  /-- Sources with some extensions are read. -/
  scope : executor.extraction.scope = .sources extensions
  /-- The project is a directory. -/
  root : tree.isDirectory project.root = true
  /-- Its boundary is a directory. -/
  boundary : tree.isDirectory project.boundary = true
  /-- The project is prepared. -/
  prepares : executor.prepare tree project = .ok prepared
  /-- Its sources are listed. -/
  lists : executor.finder.units tree prepared (.sources extensions) = .ok units

namespace AnalyzesSources

/-- The root and the modules of the project are directories. -/
theorem isDirectory (h : executor.AnalyzesSources tree project prepared extensions units) :
    ∀ root ∈ prepared.moduleRoots, tree.isDirectory root.2 = true := by
  have hexpanded := h.prepares
  rw [prepare, if_pos h.needsModules] at hexpanded
  obtain ⟨_, _, hmodules⟩ := ProjectFinder.moduleRoots_of_expandModules hexpanded
  obtain ⟨_, _, _, _, _, hshape, _⟩ := ProjectFinder.distinguishes_of_expandModules hexpanded
  rw [Project.moduleRoots, List.forall_mem_cons, List.forall_mem_map]
  refine ⟨?_, hmodules⟩
  rw [hshape]
  exact (isDirectory_resolveRoot h.sound h.resolver h.root).1

/-- Each of the sources is a file with its name at the end of its path. -/
theorem exists_place (h : executor.AnalyzesSources tree project prepared extensions units)
    (hunit : unit ∈ units) :
    ∃ place name, tree.canonical unit.path = .ok place ∧ tree.kindAt place = some .file ∧
      place.getLast? = some name ∧ unit.path.fileName? = some name.toList ∧
      ProjectFinder.extensionOf unit.path ∈ extensions ∧ unit.isMandatory = false :=
  ProjectFinder.of_mem_sources h.sound h.isDirectory h.lists hunit

/-- The facts of the project are those of its sources. -/
theorem analyze_eq (h : executor.AnalyzesSources tree project prepared extensions units) :
    executor.analyze tree project = executor.factsOf tree prepared units := by
  refine Executor.analyze_eq h.prepares (h.scope ▸ h.lists) fun unit hunit hmandatory => ?_
  obtain ⟨_, _, _, _, _, _, _, hoptional⟩ := h.exists_place hunit
  rw [hoptional] at hmandatory
  cases hmandatory

/-- A source that is neither a script nor a marker can be lost. -/
theorem losesSource (h : executor.AnalyzesSources tree project prepared extensions units)
    (hloses : tree.LosesFile later place) (hunit : unit ∈ units)
    (hplace : tree.canonical unit.path = .ok place)
    (hlister : executor.finder.lister = Gradle.listedModules)
    (hextensions : "kts" ∉ extensions ∧ "gradle" ∉ extensions)
    (hmarkers : ∀ marker ∈ executor.finder.markers, IsPlainName marker)
    (hunmarked : ∀ name ∈ place.getLast?, name ∉ executor.finder.markers) :
    LosesSource executor.finder tree later place := by
  obtain ⟨found, name, hfound, _, hlast, hfileName, hextension, _⟩ := h.exists_place hunit
  obtain rfl := Except.ok.inj (hplace.symm.trans hfound)
  have hkotlin : ProjectFinder.extensionOf unit.path ≠ "kts" :=
    fun heq => hextensions.1 (heq ▸ hextension)
  have hgroovy : ProjectFinder.extensionOf unit.path ≠ "gradle" :=
    fun heq => hextensions.2 (heq ▸ hextension)
  refine ⟨hloses, fun marker hmarker => ⟨hmarkers marker hmarker, fun heq => ?_⟩,
    fun script hscript heq => ?_, hlister⟩
  · exact hunmarked marker heq hmarker
  · exact ProjectFinder.not_script_of_fileName? hfileName hkotlin hgroovy hscript
      (Option.some.inj (hlast.symm.trans heq))

/-- The project is prepared as before when the tree loses a source. -/
theorem prepare_eq (h : executor.AnalyzesSources tree project prepared extensions units)
    (hlost : LosesSource executor.finder tree later place) :
    executor.prepare later project = executor.prepare tree project := by
  obtain ⟨hresolved, hkept⟩ := isDirectory_resolveRoot h.sound h.resolver h.root
  have hsame : executor.resolveRoot later project = executor.resolveRoot tree project := by
    rw [resolveRoot, resolveRoot]
    rcases h.resolver with hnone | hsome
    · rw [hnone]
      rfl
    · simp only [hsome, Option.bind_some, hlost.buildRoot?_eq]
  rw [prepare, prepare, if_pos h.needsModules, if_pos h.needsModules, hsame]
  exact hlost.expandModules_eq hresolved (hkept ▸ h.boundary)

/-- In a tree that has lost a source, the other ones are analyzed. -/
theorem of_losesSource (h : executor.AnalyzesSources tree project prepared extensions units)
    (hlost : LosesSource executor.finder tree later place) :
    executor.AnalyzesSources later project prepared extensions
      (units.filter fun unit => tree.canonical unit.path ≠ .ok place) where
  sound := hlost.laterSound
  resolver := h.resolver
  needsModules := h.needsModules
  scope := h.scope
  root := (hlost.isDirectory_eq _).trans h.root
  boundary := (hlost.isDirectory_eq _).trans h.boundary
  prepares := (h.prepare_eq hlost).trans h.prepares
  lists := ProjectFinder.units_eq_filter hlost h.isDirectory h.lists

/-- A source other than the one that is lost is parsed as before. -/
theorem parse_eq (h : executor.AnalyzesSources tree project prepared extensions units)
    (hlost : LosesSource executor.finder tree later place) (hunit : unit ∈ units)
    (hne : tree.canonical unit.path ≠ .ok place) : unit.parse later = unit.parse tree := by
  obtain ⟨location, _, hlocation, hfile, _⟩ := h.exists_place hunit
  obtain ⟨content, hcontent⟩ := FileTree.kindAt_eq_file_iff.mp hfile
  have hisFile := FileTree.isFile_iff.mpr ⟨location, content, hlocation, hcontent⟩
  exact SourceUnit.ofFile_eq (hlost.showsSame hisFile hne).read_eq _ _

/-- A source that cannot be parsed cannot be parsed wherever else it is listed. -/
theorem exists_error_of_parse {copy : AnalysisUnit} {error : ParseError}
    (h : executor.AnalyzesSources tree project prepared extensions units) (hunit : unit ∈ units)
    (hcopy : copy ∈ units) (hsame : tree.canonical copy.path = tree.canonical unit.path)
    (herror : unit.parse tree = .error error) : ∃ other, copy.parse tree = .error other := by
  obtain ⟨place, name, hplace, _, hlast, hname, _⟩ := h.exists_place hunit
  obtain ⟨copyPlace, copyName, hcopyPlace, _, hcopyLast, hcopyName, _⟩ := h.exists_place hcopy
  obtain rfl := Except.ok.inj (hcopyPlace.symm.trans (hsame.trans hplace))
  obtain rfl := Option.some.inj (hlast.symm.trans hcopyLast)
  exact AnalysisUnit.exists_error_of_parse (hcopyName.trans hname.symm) hsame herror

end AnalyzesSources

/-- A source that cannot be parsed changes nothing but the warnings. Wherever its project lists it
as a source, once or more, and it has not the name of a marker, it can be removed, and the analysis
without it has the same error, or the same records, a unit less for each time that it is listed, and
all warnings but one for each of these. -/
def ToleratesUnparsed (executor : Executor π ρ) : Prop :=
  ∀ (tree : FileTree) (project prepared : Project) (units : List AnalysisUnit)
    (unit : AnalysisUnit) (error : ParseError) (place : List String), tree.root.IsSound →
    tree.IsLinkless → tree.isDirectory project.root = true →
    tree.isDirectory project.boundary = true → executor.prepare tree project = .ok prepared →
    executor.finder.units tree prepared executor.extraction.scope = .ok units → unit ∈ units →
    tree.canonical unit.path = .ok place → unit.parse tree = .error error →
    (∀ name ∈ place.getLast?, name ∉ executor.finder.markers) →
    ∃ (later : FileTree) (errors : AnalysisUnit → ParseError), tree.remove unit.path = .ok later ∧
      (∀ copy ∈ units, tree.canonical copy.path = .ok place →
        copy.parse tree = .error (errors copy)) ∧
      Skips ((units.filter fun copy => tree.canonical copy.path = .ok place).map fun copy =>
          copy.skipLine (errors copy))
        (executor.analyzeInTime tree project) (executor.analyzeInTime later project)

/-- An analysis of sources other than scripts tolerates those that cannot be parsed. -/
theorem toleratesUnparsed_of_sources (hscope : executor.extraction.scope = .sources extensions)
    (hneeds : executor.extraction.needsModules = true)
    (hextensions : "kts" ∉ extensions ∧ "gradle" ∉ extensions)
    (hresolver : executor.resolver = none ∨ executor.resolver = some buildRoot?)
    (hlister : executor.finder.lister = Gradle.listedModules)
    (hmarkers : ∀ marker ∈ executor.finder.markers, IsPlainName marker) :
    executor.ToleratesUnparsed := by
  intro tree project prepared units unit error place hsound hlinkless hroot hboundary hprepared
    hunits hunit hplace herror hunmarked
  have h : executor.AnalyzesSources tree project prepared extensions units :=
    ⟨hsound, hresolver, hneeds, hscope, hroot, hboundary, hprepared, hscope ▸ hunits⟩
  obtain ⟨found, _, hfound, hfile, _⟩ := h.exists_place hunit
  obtain rfl := Except.ok.inj (hplace.symm.trans hfound)
  obtain ⟨later, hremove, hloses⟩ := FileTree.exists_remove hsound hlinkless hplace hfile
  have hlost := h.losesSource hloses hunit hplace hlister hextensions hmarkers hunmarked
  have hfails : ∀ copy ∈ units, tree.canonical copy.path = .ok place →
      ∃ error, copy.parse tree = .error error := fun copy hcopy hsame =>
    h.exists_error_of_parse hunit hcopy (hsame.trans hplace.symm) herror
  have hnonempty : Nonempty ParseError := ⟨error⟩
  choose! errors herrors using hfails
  refine ⟨later, errors, hremove, herrors, ?_⟩
  have hlines : (units.filter fun copy => !decide (tree.canonical copy.path ≠ .ok place)).filterMap
        (·.warning? tree) =
      (units.filter fun copy => tree.canonical copy.path = .ok place).map fun copy =>
        copy.skipLine (errors copy) := by
    simp only [ne_eq, decide_not, Bool.not_not, ← List.filterMap_eq_map]
    refine List.filterMap_congr fun copy hcopy => ?_
    obtain ⟨hmem, hcanonical⟩ := List.mem_filter.mp hcopy
    rw [AnalysisUnit.warning?, herrors copy hmem (of_decide_eq_true hcanonical)]
    rfl
  rw [analyzeInTime, analyzeInTime, ← hlines]
  split
  · exact .fails _
  · rw [h.analyze_eq, (h.of_losesSource hlost).analyze_eq]
    refine skips_factsOf executor prepared (fun copy hcopy hp => ?_) fun copy hcopy hp => ?_
    · exact ⟨_, herrors copy hcopy (not_not.mp (of_decide_eq_false hp))⟩
    · exact h.parse_eq hlost hcopy (of_decide_eq_true hp)

/-! ## Scripts -/

/-- The file of a name in the root or a module of a project; one in the root must be parsed. -/
def scriptUnit (root : String × Path) (name : String) : AnalysisUnit :=
  ⟨root.2.join name, joinRelative root.1 name, root.1, root.1 == rootModule⟩

/-- The files with some names in the root and the modules of a project are listed, or there are none
of them although one is required. -/
theorem descriptors_cases (finder : ProjectFinder) (tree : FileTree) (prepared : Project)
    (names : List String) (required : Bool) :
    (∃ units, finder.units tree prepared (.descriptors names true required) = .ok units ∧
      ∀ unit, unit ∈ units ↔ ∃ root ∈ prepared.moduleRoots, ∃ name ∈ names,
        tree.isFile (root.2.join name) = true ∧ scriptUnit root name = unit) ∨
    finder.units tree prepared (.descriptors names true required) =
        .error (.missingDescriptor prepared.root names) ∧
      ∀ root ∈ prepared.moduleRoots, ∀ name ∈ names, tree.isFile (root.2.join name) = false := by
  let units := prepared.moduleRoots.flatMap fun root =>
    ProjectFinder.moduleDescriptors tree names root.1 root.2
  have hmem : ∀ unit, unit ∈ units ↔ ∃ root ∈ prepared.moduleRoots, ∃ name ∈ names,
      tree.isFile (root.2.join name) = true ∧ scriptUnit root name = unit := by
    intro unit
    simp only [units, ProjectFinder.moduleDescriptors, List.mem_flatMap, List.mem_map,
      List.mem_filter, and_assoc, scriptUnit]
  have hunits : finder.units tree prepared (.descriptors names true required) =
      if required && units.isEmpty then .error (.missingDescriptor prepared.root names)
      else .ok units := rfl
  rw [hunits]
  split
  · rename_i hmissing
    have hempty : units = [] := List.isEmpty_iff.mp (Bool.and_eq_true_iff.mp hmissing).2
    refine Or.inr ⟨rfl, fun root hroot name hname => ?_⟩
    rw [← Bool.not_eq_true]
    intro hfile
    have hscript := (hmem _).mpr ⟨root, hroot, name, hname, hfile, rfl⟩
    rw [hempty] at hscript
    cases hscript
  · exact Or.inl ⟨units, rfl, hmem⟩

/-- A script with one of some names in the root of a project cannot be parsed. -/
def RootScriptFails (tree : FileTree) (prepared : Project) (names : List String) : Prop :=
  ∃ name ∈ names, tree.isFile (prepared.root.join name) = true ∧
    ∃ error, (scriptUnit (rootModule, prepared.root) name).parse tree = .error error

/-- Whether a script in the root cannot be parsed is decided by an attempt to parse each. -/
instance (tree : FileTree) (prepared : Project) (names : List String) :
    Decidable (RootScriptFails tree prepared names) :=
  decidable_of_iff (∃ name ∈ names, tree.isFile (prepared.root.join name) = true ∧
      ((scriptUnit (rootModule, prepared.root) name).warning? tree).isSome = true) <| by
    simp only [RootScriptFails, Option.isSome_iff_exists, AnalysisUnit.warning?_eq_some_iff,
      exists_comm (α := String), exists_eq_right']

/-- Scripts with some names must be parsed in the root of a project and need not be in its modules.
A prepared project fails for a script that cannot be parsed if and only if there is one in its root.
Otherwise it succeeds in spite of a script in a module that cannot be parsed, and warns of it. -/
structure MandatesRootScripts (executor : Executor π ρ) (names : List String) : Prop where
  /-- Scripts in the root decide on a failure. -/
  fails_iff : ∀ (tree : FileTree) (project prepared : Project),
    executor.prepare tree project = .ok prepared →
    ((∃ error, executor.analyze tree project = .error (.unparsed error)) ↔
      RootScriptFails tree prepared names)
  /-- Scripts in modules are skipped. -/
  skips : ∀ (tree : FileTree) (project prepared : Project),
    executor.prepare tree project = .ok prepared → ¬ RootScriptFails tree prepared names →
    ∀ module ∈ prepared.modules, ∀ name ∈ names, tree.isFile (module.root.join name) = true →
    ∀ error, (scriptUnit (module.relative, module.root) name).parse tree = .error error →
      ∃ facts, executor.analyze tree project = .ok facts ∧
        (scriptUnit (module.relative, module.root) name).skipLine error ∈ facts.warnings

section Descriptors

variable {names : List String} {required : Bool}

/-- A script in the root that cannot be parsed lets a project fail. -/
theorem analyze_of_rootScriptFails
    (hscope : executor.extraction.scope = .descriptors names true required)
    (hprepared : executor.prepare tree project = .ok prepared)
    (h : RootScriptFails tree prepared names) :
    ∃ error, executor.analyze tree project = .error (.unparsed error) := by
  obtain ⟨name, hname, hfile, error, hfails⟩ := h
  have hroot : (rootModule, prepared.root) ∈ prepared.moduleRoots := List.mem_cons_self ..
  rcases descriptors_cases executor.finder tree prepared names required with
    ⟨units, hunits, hmem⟩ | ⟨_, hnone⟩
  · have hunit := (hmem _).mpr ⟨_, hroot, name, hname, hfile, rfl⟩
    obtain ⟨error, herror⟩ :=
      executor.exists_error_of_foldlM_readUnit hunit rfl hfails ⟨.empty, []⟩
    refine ⟨error, ?_⟩
    rw [analyze, hprepared, hscope]
    simp only [bind, Except.bind, hunits, herror]
  · rw [hnone _ hroot name hname] at hfile
    cases hfile

/-- Without such a script, a project is made of its scripts, or it has none of them. -/
theorem analyze_of_not_rootScriptFails
    (hscope : executor.extraction.scope = .descriptors names true required)
    (hneeds : executor.extraction.needsModules = true)
    (hprepared : executor.prepare tree project = .ok prepared)
    (h : ¬ RootScriptFails tree prepared names) :
    (∃ units, executor.analyze tree project = executor.factsOf tree prepared units ∧
      ∀ root ∈ prepared.moduleRoots, ∀ name ∈ names, tree.isFile (root.2.join name) = true →
        scriptUnit root name ∈ units) ∨
    executor.analyze tree project = .error (.missingDescriptor prepared.root names) ∧
      ∀ root ∈ prepared.moduleRoots, ∀ name ∈ names, tree.isFile (root.2.join name) = false := by
  have hexpanded := hprepared
  rw [prepare, if_pos hneeds] at hexpanded
  have hmodules := ProjectFinder.relative_ne_root_of_expandModules hexpanded
  refine (descriptors_cases executor.finder tree prepared names required).imp ?_ ?_
  · rintro ⟨units, hunits, hmem⟩
    refine ⟨units, analyze_eq hprepared (hscope ▸ hunits) fun unit hunit hmandatory => ?_,
      fun root hroot name hname hfile => (hmem _).mpr ⟨root, hroot, name, hname, hfile, rfl⟩⟩
    obtain ⟨root, hroot, name, hname, hfile, rfl⟩ := (hmem unit).mp hunit
    cases hparse : (scriptUnit root name).parse tree with
    | ok source => exact ⟨source, rfl⟩
    | error error =>
      -- only a script in the root must be parsed
      have hrootModule : root.1 = rootModule := by simpa [scriptUnit] using hmandatory
      rcases List.mem_cons.mp hroot with rfl | hroot
      · exact absurd ⟨name, hname, hfile, error, hparse⟩ h
      · obtain ⟨module, hmodule, rfl⟩ := List.mem_map.mp hroot
        exact absurd hrootModule (hmodules module hmodule)
  · rintro ⟨hunits, hnone⟩
    refine ⟨?_, hnone⟩
    rw [analyze, hprepared, hscope]
    simp only [bind, Except.bind, hunits]

/-- An analysis of scripts in the root and the modules that makes records of whatever it finds needs
those in the root only. -/
theorem mandatesRootScripts_of_descriptors
    (hscope : executor.extraction.scope = .descriptors names true required)
    (hneeds : executor.extraction.needsModules = true)
    (haggregates : ∀ project findings, ∃ records,
      executor.extraction.aggregate project findings = .ok records) :
    executor.MandatesRootScripts names := by
  have hfacts : ∀ (tree : FileTree) (prepared : Project) (units : List AnalysisUnit),
      ∃ facts, executor.factsOf tree prepared units = .ok facts ∧
        ∀ line ∈ units.filterMap (·.warning? tree), line ∈ facts.warnings := by
    intro tree prepared units
    obtain ⟨records, hrecords⟩ := haggregates prepared
      (Findings.join (units.map (executor.found tree))).values
    rw [factsOf, hrecords]
    exact ⟨_, rfl, fun line hline => List.mem_append_left _ hline⟩
  refine ⟨fun tree project prepared hprepared => ⟨fun hfails => ?_,
    analyze_of_rootScriptFails hscope hprepared⟩, ?_⟩
  · by_contra hroot
    obtain ⟨error, herror⟩ := hfails
    rcases analyze_of_not_rootScriptFails hscope hneeds hprepared hroot with
      ⟨units, hunits, _⟩ | ⟨hmissing, _⟩
    · obtain ⟨facts, hok, _⟩ := hfacts tree prepared units
      rw [hunits, hok] at herror
      cases herror
    · rw [hmissing] at herror
      cases herror
  · intro tree project prepared hprepared hroot module hmodule name hname hfile error hparse
    have hmem : (module.relative, module.root) ∈ prepared.moduleRoots :=
      List.mem_cons_of_mem _ (List.mem_map_of_mem hmodule)
    rcases analyze_of_not_rootScriptFails hscope hneeds hprepared hroot with
      ⟨units, hunits, hscripts⟩ | ⟨_, hnone⟩
    · obtain ⟨facts, hok, hwarnings⟩ := hfacts tree prepared units
      refine ⟨facts, hunits.trans hok, hwarnings _ (List.mem_filterMap.mpr
        ⟨_, hscripts _ hmem name hname hfile, ?_⟩)⟩
      rw [AnalysisUnit.warning?, hparse]
    · rw [hnone _ hmem name hname] at hfile
      cases hfile

end Descriptors

/-- Only root scripts that cannot be parsed let a project fail. The analyses of imports and of
metrics skip a source that cannot be parsed: it changes nothing but the warnings. Those of
dependencies and of plugins fail for a build script in the root that cannot be parsed, and skip one
in a module. -/
theorem tolerates_unparsed (languages : List Imports.ImportLanguage)
    (policy : Imports.ImportPolicy) (config : RunConfig)
    (hmarkers : ∀ marker ∈ config.markers, IsPlainName marker) :
    (∀ executor, IsConfigured (Imports.imports languages policy) config executor →
      executor.ToleratesUnparsed) ∧
    (∀ executor, IsConfigured metrics config executor → executor.ToleratesUnparsed) ∧
    (∀ executor, IsConfigured Gradle.dependencies config executor →
      executor.MandatesRootScripts Gradle.buildScripts) ∧
    ∀ executor, IsConfigured Gradle.plugins config executor →
      executor.MandatesRootScripts Gradle.buildScripts := by
  refine ⟨fun executor h => ?_, fun executor h => ?_, fun executor h => ?_, fun executor h => ?_⟩
  · obtain ⟨hextraction, hconfigured, hlister, _, _, _, hresolver⟩ := h.spec
    have hextensions : ∀ extension ∈ languages.map (·.extension),
        extension ≠ "kts" ∧ extension ≠ "gradle" := by
      rw [List.forall_mem_map]
      rintro (_ | _ | _) _ <;> decide
    exact toleratesUnparsed_of_sources (by rw [hextraction]; rfl) (by rw [hextraction]; rfl)
      ⟨fun hmem => (hextensions _ hmem).1 rfl, fun hmem => (hextensions _ hmem).2 rfl⟩ hresolver
      hlister (hconfigured ▸ hmarkers)
  · obtain ⟨hextraction, hconfigured, hlister, _, _, _, hresolver⟩ := h.spec
    exact toleratesUnparsed_of_sources (by rw [hextraction]; rfl) (by rw [hextraction]; rfl)
      (by decide) hresolver hlister (hconfigured ▸ hmarkers)
  · obtain ⟨hextraction, _⟩ := h.spec
    exact mandatesRootScripts_of_descriptors (by rw [hextraction]; rfl) (by rw [hextraction]; rfl)
      fun project findings => by rw [hextraction]; exact ⟨_, rfl⟩
  · obtain ⟨hextraction, _⟩ := h.spec
    exact mandatesRootScripts_of_descriptors (by rw [hextraction]; rfl) (by rw [hextraction]; rfl)
      fun project findings => by rw [hextraction]; exact ⟨_, rfl⟩

/-- The executor of an extraction by the default configuration. -/
def byDefault (extraction : Extraction π ρ) : Executor π ρ :=
  ⟨extraction, ⟨RunConfig.defaultMarkers, ⟨[]⟩, Gradle.listedModules⟩,
    ⟨⟨"out"⟩, defaultPattern, extraction.name, extraction.defaultFormat⟩, none, none⟩

/-- It is configured. -/
theorem isConfigured_byDefault (extraction : Extraction π ρ) :
    IsConfigured extraction { RunConfig.default with outputDirectory := "out" }
      (byDefault extraction) :=
  .plain rfl

/-- A project with a broken script in a module, and a broken source in one that is included by a
detour. -/
def brokenFiles (script : String) : FileTree :=
  ⟨.directory [("p", .directory [("b", .directory [("build.gradle", .file "'".toUTF8)]),
    ("build.gradle", .file script.toUTF8), ("c", .directory [("C.kt", .file "\"".toUTF8)]),
    ("settings.gradle", .file "include 'b', '../p/c'".toUTF8)])], []⟩

/-- The project of `brokenFiles`, prepared. -/
def brokenProject : Project :=
  ⟨"p", ⟨"p"⟩, ⟨"p"⟩, [⟨"b", ⟨"p/b"⟩⟩, ⟨"../p/c", ⟨"p/../p/c"⟩⟩], none⟩

/-- The broken source is skipped twice, and the broken script in the module once; a broken script in
the root is not. -/
theorem tolerates_unparsed_example :
    (∃ later, (brokenFiles "").remove ⟨"p/c/C.kt"⟩ = .ok later ∧
      Skips ["skipped c/C.kt: p/c/C.kt:1: unterminated string literal",
          "skipped ../p/c/C.kt: p/../p/c/C.kt:1: unterminated string literal"]
        ((byDefault metrics).analyzeInTime (brokenFiles "") (.ofRoot "p" ⟨"p"⟩))
        ((byDefault metrics).analyzeInTime later (.ofRoot "p" ⟨"p"⟩))) ∧
      (∃ facts, (byDefault Gradle.dependencies).analyze (brokenFiles "") (.ofRoot "p" ⟨"p"⟩) =
          .ok facts ∧
        "skipped b/build.gradle: p/b/build.gradle:1: unterminated string literal" ∈
          facts.warnings) ∧
      ∃ error, (byDefault Gradle.plugins).analyze (brokenFiles "'") (.ofRoot "p" ⟨"p"⟩) =
        .error (.unparsed error) := by
  obtain ⟨_, hmetrics, hdependencies, hplugins⟩ := tolerates_unparsed [] ⟨false, false⟩
    { RunConfig.default with outputDirectory := "out" } (by decide)
  refine ⟨?_, ?_, ?_⟩
  · let source : AnalysisUnit := ⟨⟨"p/c/C.kt"⟩, "c/C.kt", ".", false⟩
    let copy : AnalysisUnit := ⟨⟨"p/../p/c/C.kt"⟩, "../p/c/C.kt", "../p/c", false⟩
    have hsource : source.warning? (brokenFiles "") =
        some "skipped c/C.kt: p/c/C.kt:1: unterminated string literal" := by decide +kernel
    have hcopy : copy.warning? (brokenFiles "") =
        some "skipped ../p/c/C.kt: p/../p/c/C.kt:1: unterminated string literal" := by
      decide +kernel
    obtain ⟨error, herror, _⟩ := AnalysisUnit.warning?_eq_some_iff.mp hsource
    obtain ⟨later, errors, hremove, herrors, hskips⟩ := hmetrics _ (isConfigured_byDefault _)
      (brokenFiles "") (.ofRoot "p" ⟨"p"⟩) brokenProject [source, copy] source error
      ["p", "c", "C.kt"] (by decide +kernel)
      ⟨FileTree.kindAt_ne_link_of_checkPlain (by decide +kernel), rfl⟩ (by decide +kernel)
      (by decide +kernel) (by decide +kernel) (by decide +kernel) (by decide) (by decide +kernel)
      herror (by decide)
    have hcopies : [source, copy].filter (fun unit =>
        (brokenFiles "").canonical unit.path = .ok ["p", "c", "C.kt"]) = [source, copy] := by
      decide +kernel
    rw [AnalysisUnit.warning?, herrors source (by decide) (by decide +kernel)] at hsource
    rw [AnalysisUnit.warning?, herrors copy (by decide) (by decide +kernel)] at hcopy
    refine ⟨later, hremove, ?_⟩
    rw [hcopies, List.map_cons, List.map_singleton, Option.some.inj hsource,
      Option.some.inj hcopy] at hskips
    exact hskips
  · have hscript : (scriptUnit ("b", ⟨"p/b"⟩) "build.gradle").warning? (brokenFiles "") =
        some "skipped b/build.gradle: p/b/build.gradle:1: unterminated string literal" := by
      decide +kernel
    obtain ⟨error, herror, hline⟩ := AnalysisUnit.warning?_eq_some_iff.mp hscript
    obtain ⟨facts, hfacts, hwarning⟩ := (hdependencies _ (isConfigured_byDefault _)).skips
      (brokenFiles "") (.ofRoot "p" ⟨"p"⟩) brokenProject (by decide +kernel) (by decide +kernel)
      ⟨"b", ⟨"p/b"⟩⟩ (by decide) "build.gradle" (by decide) (by decide +kernel) error herror
    exact ⟨facts, hfacts, hline ▸ hwarning⟩
  · exact ((hplugins _ (isConfigured_byDefault _)).fails_iff (brokenFiles "'")
      (.ofRoot "p" ⟨"p"⟩) brokenProject (by decide +kernel)).mpr (by decide +kernel)

end Executor

end CorpusFacts
