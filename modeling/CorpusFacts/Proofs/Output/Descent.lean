import CorpusFacts.Proofs.Files.Ways
import CorpusFacts.Proofs.Output.Rewriting
import CorpusFacts.Proofs.Output.Sharing

/-!
# The ways to output files

Behind the output directory the way to an output file leads down, one directory at a time, to a file
that has a name. The output files of all projects lie equally deep, so that none lies on the way to
another one.
-/

namespace CorpusFacts

/-! ## Where output files lie

Behind the output directory the path of an output file leads down only, one directory for each step
that names something. So the output files of two projects lie at the same place only if their paths
are the same.
-/

/-- Steps that do not lead to a directory around stand for the names of those that are not idle. -/
theorem Path.filterMap_innerComponent {steps : List (List Char)} (h : ['.', '.'] ∉ steps) :
    steps.filterMap innerComponent =
      (steps.filter fun step => !isIdle step).map Component.name := by
  induction steps with
  | nil => rfl
  | cons step steps ih =>
    obtain ⟨hparent, hrest⟩ := not_or.mp (List.mem_cons.not.mp h)
    rw [List.filterMap_cons, innerComponent_eq, if_neg (Ne.symm hparent), ih hrest]
    cases hidle : isIdle step with
    | true => rw [List.filter_cons_of_neg (by simp [hidle])]; rfl
    | false => rw [List.filter_cons_of_pos (by simp [hidle]), List.map_cons]; rfl

namespace ArtifactNaming

variable {naming : ArtifactNaming} {tree : FileTree} {first second project : String}

/-- An output file lies below the output directory, one name for each step that is not idle. -/
theorem placeOf_path (tree : FileTree) (hpattern : patternFault? naming.pattern = none)
    (hanalysis : IsPlainName naming.analysis) (hproject : IsPlainName project) :
    tree.placeOf (naming.path project) = tree.placeOf naming.directory ++
      ((⟨naming.innerName project⟩ : Path).segments.filter fun step =>
        !Path.isIdle step).map String.ofList := by
  obtain ⟨_, hrelative, _, _⟩ := patternFault?_eq_none_iff.mp hpattern
  rw [path_eq_join hanalysis hproject hrelative,
    FileTree.placeOf_join tree _ (head?_innerName hanalysis hproject hrelative),
    FileTree.placeFrom_of_noParent _ (dots_notMem_segments_innerName hpattern hanalysis hproject)]

/-- Output files that lie at the same place have the same path. -/
theorem path_eq_of_placeOf_eq (hpattern : patternFault? naming.pattern = none)
    (hanalysis : IsPlainName naming.analysis) (hfirst : IsPlainName first)
    (hsecond : IsPlainName second)
    (h : tree.placeOf (naming.path first) = tree.placeOf (naming.path second)) :
    naming.path first = naming.path second := by
  obtain ⟨_, hrelative, _, _⟩ := patternFault?_eq_none_iff.mp hpattern
  rw [placeOf_path tree hpattern hanalysis hfirst,
    placeOf_path tree hpattern hanalysis hsecond] at h
  have hnames := List.map_injective_iff.mpr (fun _ _ => String.ofList_injective)
    (List.append_cancel_left h)
  have hcomponents : (⟨naming.innerName first⟩ : Path).segments.filterMap Path.innerComponent =
      (⟨naming.innerName second⟩ : Path).segments.filterMap Path.innerComponent := by
    rw [Path.filterMap_innerComponent (dots_notMem_segments_innerName hpattern hanalysis hfirst),
      Path.filterMap_innerComponent (dots_notMem_segments_innerName hpattern hanalysis hsecond),
      hnames]
  have hsegments := (areAligned_innerName hanalysis hfirst hsecond).eq_of_filterMap hcomponents
  rw [path_eq_join hanalysis hfirst hrelative, path_eq_join hanalysis hsecond hrelative,
    Path.mk.inj (Path.eq_of_segments hsegments)]

end ArtifactNaming

/-! ## Ways down -/

namespace Path

variable {steps first second : List (List Char)}

/-- Steps of which not all are idle go up to a last one that is not. -/
theorem exists_last_of_not_idle (h : ∃ step ∈ steps, isIdle step = false) :
    ∃ front last idle, steps = front ++ last :: idle ∧ isIdle last = false ∧
      ∀ step ∈ idle, isIdle step = true := by
  induction steps using List.reverseRecOn with
  | nil => simp at h
  | append_singleton steps step ih =>
    cases hidle : isIdle step with
    | false => exact ⟨steps, step, [], rfl, hidle, by simp⟩
    | true =>
      obtain ⟨other, hother, hplain⟩ := h
      have hmem : other ∈ steps := by
        refine (List.mem_append.mp hother).resolve_right fun hlast => ?_
        rw [List.mem_singleton.mp hlast, hidle] at hplain
        cases hplain
      obtain ⟨front, last, idle, rfl, hlast, hall⟩ := ih ⟨other, hmem, hplain⟩
      refine ⟨front, last, idle ++ [step], by simp, hlast, fun next hnext => ?_⟩
      rcases List.mem_append.mp hnext with hnext | hnext
      · exact hall next hnext
      · rwa [List.mem_singleton.mp hnext]

/-- Aligned steps have as many that are not idle. -/
theorem AreAligned.length_filter (h : AreAligned first second) :
    (first.filter fun step => !isIdle step).length =
      (second.filter fun step => !isIdle step).length := by
  induction h with
  | nil => rfl
  | @cons step other first second hstep _ ih =>
    by_cases hdots : IsDots step ∨ IsDots other
    · obtain rfl := hstep hdots
      rw [List.filter_cons, List.filter_cons]
      split <;> simp [ih]
    · obtain ⟨hplain, hother⟩ := not_or.mp hdots
      have hnot : ∀ {step : List Char}, ¬ IsDots step → isIdle step = false := by
        intro step hstep
        simp only [IsDots, not_or] at hstep
        simp [isIdle, hstep.1, hstep.2.1]
      rw [List.filter_cons_of_pos (by simp [hnot hplain]),
        List.filter_cons_of_pos (by simp [hnot hother]), List.length_cons, List.length_cons, ih]

end Path

namespace ArtifactNaming

variable {naming : ArtifactNaming} {tree : FileTree} {first second project : String}

/-- A path behind the output directory has a step that is not idle. -/
theorem exists_step_innerName (hanalysis : IsPlainName naming.analysis)
    (hproject : IsPlainName project) :
    ∃ step ∈ (⟨naming.innerName project⟩ : Path).segments, Path.isIdle step = false := by
  rw [segments_innerName hanalysis hproject]
  split
  · rename_i hoccurs
    by_contra hall
    push Not at hall
    have hidle : ∀ step ∈ (⟨naming.pattern⟩ : Path).segments, step = [] ∨ step = ['.'] := by
      intro step hstep
      have hfilled := hall _ (List.mem_map_of_mem hstep)
      simp only [Path.isIdle, ne_eq, Bool.not_eq_false, Bool.or_eq_true, beq_iff_eq] at hfilled
      exact hfilled.imp (fill_eq_dots_iff hanalysis hproject (Or.inl rfl)).mp
        (fill_eq_dots_iff hanalysis hproject (Or.inr (Or.inl rfl))).mp
    have hbrace : '\x7b' ∈ naming.pattern.toList :=
      (Text.occursIn_eq_true_iff.mp hoccurs).subset (by decide)
    rw [← Text.intercalate_split '/' naming.pattern.toList] at hbrace
    rcases Text.of_mem_intercalate hbrace with heq | ⟨step, hstep, hmem⟩
    · exact absurd heq (by decide)
    · rcases hidle step hstep with rfl | rfl
      · cases hmem
      · exact absurd hmem (by decide)
  · refine ⟨project.toList, List.mem_append_left _ (List.mem_singleton_self _), ?_⟩
    have hdots := hproject.notDots
    simp only [IsDots, not_or] at hdots
    simp [Path.isIdle, hdots.1, hdots.2.1]

/-- All output files lie equally deep. -/
theorem length_placeOf_path (hpattern : patternFault? naming.pattern = none)
    (hanalysis : IsPlainName naming.analysis) (hfirst : IsPlainName first)
    (hsecond : IsPlainName second) :
    (tree.placeOf (naming.path first)).length = (tree.placeOf (naming.path second)).length := by
  rw [placeOf_path tree hpattern hanalysis hfirst, placeOf_path tree hpattern hanalysis hsecond,
    List.length_append, List.length_append, List.length_map, List.length_map,
    (areAligned_innerName hanalysis hfirst hsecond).length_filter]

/-- The way to an output file leads down where directories are to be made if the way to the output
directory does. -/
theorem leadsDown_path (hpattern : patternFault? naming.pattern = none)
    (hanalysis : IsPlainName naming.analysis) (hproject : IsPlainName project)
    (hdirectory : ∀ spot ∈ tree.spotsOf naming.directory,
      tree.isDirectoryAt spot = true ∨ spot <+: tree.placeOf naming.directory) :
    tree.LeadsDown (naming.path project) := by
  obtain ⟨_, hrelative, _, _⟩ := patternFault?_eq_none_iff.mp hpattern
  have hdots := dots_notMem_segments_innerName hpattern hanalysis hproject
  obtain ⟨front, last, idle, hinner, hlast, hidle⟩ :=
    Path.exists_last_of_not_idle (exists_step_innerName hanalysis hproject)
  rw [hinner] at hdots
  obtain ⟨hfrontDots, hrest⟩ := not_or.mp (List.mem_append.not.mp hdots)
  obtain ⟨hlastDots, hidleDots⟩ := not_or.mp (List.mem_cons.not.mp hrest)
  obtain ⟨steps, hplace, hspots, hjoin⟩ := FileTree.exists_steps_join tree naming.directory
  obtain ⟨hstart, hsegments⟩ := hjoin _ (head?_innerName hanalysis hproject hrelative)
  rw [← path_eq_join hanalysis hproject hrelative] at hstart hsegments
  rw [hinner, ← List.append_assoc] at hsegments
  -- the file lies in the directory that the front steps lead to
  have hfile : tree.placeOf (naming.path project) =
      FileTree.placeFrom (tree.placeOf naming.directory) front ++ [String.ofList last] := by
    have hend : ∀ location, FileTree.placeFrom location idle = location := by
      intro location
      rw [FileTree.placeFrom_of_noParent _ hidleDots, List.filter_eq_nil_iff.mpr]
      · simp
      · exact fun step hstep => by simp [hidle step hstep]
    rw [FileTree.placeOf, hsegments, hstart, FileTree.placeFrom_append, FileTree.placeFrom_append,
      ← hplace, ← FileTree.stepFrom_of_name hlast (Ne.symm hlastDots)]
    exact hend _
  intro spot hspot
  rw [FileTree.frontSpots, Path.frontSteps_eq hsegments hlast hidle, hstart,
    FileTree.mem_spotsFrom_append, ← hplace] at hspot
  have hbelow : spot <+: FileTree.placeFrom (tree.placeOf naming.directory) front →
      spot <+: tree.placeOf (naming.path project) ∧ spot ≠ tree.placeOf (naming.path project) := by
    intro hleads
    have hlength := hleads.length_le
    rw [hfile]
    refine ⟨hleads.trans (List.prefix_append _ _), fun heq => ?_⟩
    rw [heq, List.length_append, List.length_singleton] at hlength
    omega
  rcases hspot with hspot | hspot
  · refine (hdirectory spot (hspots spot hspot)).imp_right fun hleads => hbelow ?_
    rw [FileTree.placeFrom_of_noParent _ hfrontDots]
    exact hleads.trans (List.prefix_append _ _)
  · exact Or.inr (hbelow (FileTree.prefix_of_mem_spotsFrom hfrontDots hspot))

/-- The way to an output file leads to the output directory and then down. -/
theorem of_mem_spotsOf_path {spot : List String} (hpattern : patternFault? naming.pattern = none)
    (hanalysis : IsPlainName naming.analysis) (hproject : IsPlainName project)
    (hspot : spot ∈ tree.spotsOf (naming.path project)) :
    spot ∈ tree.spotsOf naming.directory ∨ tree.placeOf naming.directory <+: spot := by
  obtain ⟨_, hrelative, _, _⟩ := patternFault?_eq_none_iff.mp hpattern
  rw [path_eq_join hanalysis hproject hrelative] at hspot
  exact (FileTree.mem_spotsOf_join tree _ (head?_innerName hanalysis hproject hrelative)
    hspot).imp_right (FileTree.start_prefix_of_mem_spotsFrom
      (dots_notMem_segments_innerName hpattern hanalysis hproject))

end ArtifactNaming

end CorpusFacts
