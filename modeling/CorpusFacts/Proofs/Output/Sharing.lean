import CorpusFacts.Proofs.Output.Filling
import Mathlib.Data.List.Forall2

/-!
# Projects with the same output file

A pattern is made of characters and placeholders. Two projects have the same output file only where
the pattern has the name of the project and the file names are the same; that cannot be as long as
no opening brace is filled in. A name with a placeholder in it is filled in again, so that it can
end up in the file of another project.
-/

namespace CorpusFacts

/-- A piece of a pattern: a character that stands for itself, or a placeholder. -/
inductive Slot where
  /-- A character. -/
  | char (c : Char)
  /-- The placeholder of the project. -/
  | project
  /-- The placeholder of the analysis. -/
  | analysis
  /-- The placeholder of the extension. -/
  | extension
  deriving DecidableEq

namespace Slot

/-- What a piece of a pattern becomes with texts for the placeholders. -/
def filled (project analysis extension : List Char) : Slot → List Char
  | char c => [c]
  | .project => project
  | .analysis => analysis
  | .extension => extension


variable {slots : List Slot} {project other analysis extension name text : List Char}

/-- The name of a placeholder between braces is the placeholder. -/
theorem exists_placeholder (h : name ∈ placeholderNames) :
    ∃ slot : Slot, (∀ c, slot ≠ char c) ∧
      slot.filled projectPlaceholder analysisPlaceholder extensionPlaceholder =
        '\x7b' :: (name ++ ['\x7d']) := by
  rcases List.mem_cons.mp h with rfl | h
  · exact ⟨.project, by simp, by decide⟩
  · rcases List.mem_cons.mp h with rfl | h
    · exact ⟨.analysis, by simp, by decide⟩
    · obtain rfl := List.mem_singleton.mp h
      exact ⟨.extension, by simp, by decide⟩

/-- The name of a placeholder ends at a closing brace. -/
theorem exists_of_placeholderFault?_some
    (h : placeholderFault? (some name) text = none) :
    ∃ body rest, text = body ++ '\x7d' :: rest ∧ name.reverse ++ body ∈ placeholderNames ∧
      placeholderFault? none rest = none := by
  induction text generalizing name with
  | nil => simp [placeholderFault?] at h
  | cons c text ih =>
    rw [placeholderFault?] at h
    split at h
    · obtain ⟨body, rest, rfl, hname, hrest⟩ := ih h
      exact ⟨c :: body, rest, rfl, by simpa using hname, hrest⟩
    · rename_i hc
      obtain rfl : c = '\x7d' := by simpa using hc
      split at h
      · rename_i hname
        exact ⟨[], text, rfl, by simpa using hname, h⟩
      · cases h

/-- A pattern without a fault in its placeholders is made of them and of characters other than
opening braces. -/
theorem exists_of_placeholderFault? (h : placeholderFault? none text = none) :
    ∃ slots : List Slot, (∀ c, char c ∈ slots → c ≠ '\x7b') ∧
      text = slots.flatMap
        (filled projectPlaceholder analysisPlaceholder extensionPlaceholder) := by
  induction hlength : text.length using Nat.strong_induction_on generalizing text with
  | _ length ih =>
    cases text with
    | nil => exact ⟨[], by simp, rfl⟩
    | cons c text =>
      rw [placeholderFault?] at h
      split at h
      · rename_i hc
        obtain rfl : c = '\x7b' := by simpa using hc
        obtain ⟨body, rest, rfl, hname, hrest⟩ := exists_of_placeholderFault?_some h
        obtain ⟨slots, hslots, rfl⟩ := ih rest.length (by simp [← hlength]; omega) hrest rfl
        obtain ⟨slot, hslot, hfilled⟩ := exists_placeholder hname
        refine ⟨slot :: slots, fun c hc => ?_, ?_⟩
        · exact hslots c ((List.mem_cons.mp hc).resolve_left fun heq => hslot c heq.symm)
        · rw [List.flatMap_cons, hfilled]
          simp
      · rename_i hc
        obtain ⟨slots, hslots, rfl⟩ := ih text.length (by simp [← hlength]) h rfl
        refine ⟨char c :: slots, fun d hd => ?_, rfl⟩
        rcases List.mem_cons.mp hd with heq | hd
        · obtain rfl := Slot.char.inj heq
          simpa using hc
        · exact hslots d hd

/-- Replacing works piece by piece if it does in each piece. -/
theorem replace_flatMap {part new : List Char} {before after : Slot → List Char}
    (h : ∀ slot ∈ slots, ∀ rest, Text.replace part new (before slot ++ rest) =
      after slot ++ Text.replace part new rest) :
    Text.replace part new (slots.flatMap before) = slots.flatMap after := by
  induction slots with
  | nil => exact Text.replace_nil part new
  | cons slot slots ih =>
    obtain ⟨hslot, hslots⟩ := List.forall_mem_cons.mp h
    rw [List.flatMap_cons, List.flatMap_cons, hslot, ih hslots]

/-- A placeholder does not start in a text without opening braces. -/
theorem replace_plain_append {part plain : List Char} (hpart : part.head? = some '\x7b')
    (hplain : '\x7b' ∉ plain) (new rest : List Char) :
    Text.replace part new (plain ++ rest) = plain ++ Text.replace part new rest :=
  Text.replace_append_of_notMem hpart hplain new rest

/-- A placeholder does not start in another one. -/
theorem replace_other_append (part placeholder : List Char) {new rest : List Char}
    (hpart : part.head? = some '\x7b') (hplaceholder : placeholder = '\x7b' :: placeholder.tail)
    (htail : '\x7b' ∉ placeholder.tail) (hstart : ¬ part <+: placeholder)
    (hlonger : ¬ placeholder <+: part) :
    Text.replace part new (placeholder ++ rest) = placeholder ++ Text.replace part new rest := by
  have hnot : ¬ part <+: '\x7b' :: (placeholder.tail ++ rest) := by
    rw [← List.cons_append, ← hplaceholder]
    intro h
    rcases List.prefix_or_prefix_of_prefix h (List.prefix_append placeholder rest) with hle | hle
    · exact hstart hle
    · exact hlonger hle
  rw [hplaceholder, List.cons_append, Text.replace_cons_of_not_start hnot,
    Text.replace_append_of_notMem hpart htail, List.cons_append]

/-- Replacing the placeholder of the project fills in the project. -/
theorem replace_project (hslots : ∀ c, char c ∈ slots → c ≠ '\x7b') (new : List Char) :
    Text.replace projectPlaceholder new
        (slots.flatMap (filled projectPlaceholder analysisPlaceholder extensionPlaceholder)) =
      slots.flatMap (filled new analysisPlaceholder extensionPlaceholder) := by
  refine replace_flatMap fun slot hslot rest => ?_
  cases slot with
  | char c =>
    exact replace_plain_append (by decide) (by simpa [filled] using (hslots c hslot).symm) new rest
  | project => exact Text.replace_append_self (by decide) new rest
  | analysis =>
    exact replace_other_append projectPlaceholder analysisPlaceholder (by decide)
      (by decide) (by decide) (by decide) (by decide)
  | extension =>
    exact replace_other_append projectPlaceholder extensionPlaceholder (by decide)
      (by decide) (by decide) (by decide) (by decide)

/-- Replacing the placeholder of the analysis fills in the analysis where the project has no opening
brace. -/
theorem replace_analysis (hslots : ∀ c, char c ∈ slots → c ≠ '\x7b') (hproject : '\x7b' ∉ project)
    (new : List Char) :
    Text.replace analysisPlaceholder new
        (slots.flatMap (filled project analysisPlaceholder extensionPlaceholder)) =
      slots.flatMap (filled project new extensionPlaceholder) := by
  refine replace_flatMap fun slot hslot rest => ?_
  cases slot with
  | char c =>
    exact replace_plain_append (by decide) (by simpa [filled] using (hslots c hslot).symm) new rest
  | project => exact replace_plain_append (by decide) hproject new rest
  | analysis => exact Text.replace_append_self (by decide) new rest
  | extension =>
    exact replace_other_append analysisPlaceholder extensionPlaceholder (by decide)
      (by decide) (by decide) (by decide) (by decide)

/-- Replacing the placeholder of the extension fills in the extension where neither the project nor
the analysis has an opening brace. -/
theorem replace_extension (hslots : ∀ c, char c ∈ slots → c ≠ '\x7b') (hproject : '\x7b' ∉ project)
    (hanalysis : '\x7b' ∉ analysis) (new : List Char) :
    Text.replace extensionPlaceholder new
        (slots.flatMap (filled project analysis extensionPlaceholder)) =
      slots.flatMap (filled project analysis new) := by
  refine replace_flatMap fun slot hslot rest => ?_
  cases slot with
  | char c =>
    exact replace_plain_append (by decide) (by simpa [filled] using (hslots c hslot).symm) new rest
  | project => exact replace_plain_append (by decide) hproject new rest
  | analysis => exact replace_plain_append (by decide) hanalysis new rest
  | extension => exact Text.replace_append_self (by decide) new rest

/-- The length of what is filled in grows with the project, once for each of its placeholders. -/
theorem length_flatMap_filled (slots : List Slot) (project analysis extension : List Char) :
    (slots.flatMap (filled project analysis extension)).length =
      (slots.flatMap (filled [] analysis extension)).length +
        slots.count .project * project.length := by
  induction slots with
  | nil => simp
  | cons slot slots ih =>
    rw [List.flatMap_cons, List.flatMap_cons, List.length_append, List.length_append, ih]
    cases slot with
    | project =>
      rw [List.count_cons_self, Nat.add_mul]
      simp only [filled, List.length_nil]
      omega
    | char c => simp [filled, Nat.add_assoc]
    | analysis => simp [filled, Nat.add_assoc]
    | extension => simp [filled, Nat.add_assoc]

/-- Where the project is filled in, different projects make different texts. -/
theorem filled_injective (hproject : Slot.project ∈ slots)
    (h : slots.flatMap (filled project analysis extension) =
      slots.flatMap (filled other analysis extension)) : project = other := by
  have hlength : project.length = other.length := by
    have hsum := congrArg List.length h
    rw [length_flatMap_filled slots project, length_flatMap_filled slots other] at hsum
    have hcount : 0 < slots.count .project := List.count_pos_iff.mpr hproject
    exact Nat.eq_of_mul_eq_mul_left hcount (by omega)
  induction slots with
  | nil => cases hproject
  | cons slot slots ih =>
    rw [List.flatMap_cons, List.flatMap_cons] at h
    cases slot with
    | project => exact (List.append_inj h hlength).1
    | char c => exact ih (by simpa using hproject) (List.append_cancel_left h)
    | analysis => exact ih (by simpa using hproject) (List.append_cancel_left h)
    | extension => exact ih (by simpa using hproject) (List.append_cancel_left h)

/-- A pattern in which the placeholder of the project occurs has it for a piece. -/
theorem project_mem_of_occursIn (hslots : ∀ c, char c ∈ slots → c ≠ '\x7b')
    (h : Text.occursIn projectPlaceholder (slots.flatMap
      (filled projectPlaceholder analysisPlaceholder extensionPlaceholder)) = true) :
    Slot.project ∈ slots := by
  by_contra hnone
  -- a text longer than the pattern would be left behind in it
  let pattern := slots.flatMap (filled projectPlaceholder analysisPlaceholder extensionPlaceholder)
  have hsame : ∀ new : List Char,
      slots.flatMap (filled new analysisPlaceholder extensionPlaceholder) = pattern := by
    intro new
    refine List.flatMap_congr fun slot hslot => ?_
    cases slot with
    | project => exact absurd hslot hnone
    | char c => rfl
    | analysis => rfl
    | extension => rfl
  have hinfix := Text.infix_replace (by decide) ('\x7b' :: pattern)
    (Text.occursIn_eq_true_iff.mp h)
  rw [replace_project hslots, hsame] at hinfix
  have := hinfix.length_le
  simp at this

end Slot

namespace Path

/-- Steps name nothing at the same places, and are the same there. -/
def AreAligned (first second : List (List Char)) : Prop :=
  List.Forall₂ (fun step other => IsDots step ∨ IsDots other → step = other) first second

/-- Aligned steps with the same components are the same. -/
theorem AreAligned.eq_of_filterMap {first second : List (List Char)}
    (haligned : AreAligned first second)
    (h : first.filterMap innerComponent = second.filterMap innerComponent) : first = second := by
  induction haligned with
  | nil => rfl
  | @cons step other first second hstep _ ih =>
    by_cases hdots : IsDots step ∨ IsDots other
    · obtain rfl := hstep hdots
      rw [ih]
      cases hcomponent : innerComponent step with
      | none => simpa [List.filterMap_cons, hcomponent] using h
      | some component => simpa [List.filterMap_cons, hcomponent] using h
    · obtain ⟨hplain, hother⟩ := not_or.mp hdots
      simp only [List.filterMap_cons, innerComponent_of_not_dots hplain,
        innerComponent_of_not_dots hother, List.cons.injEq, Component.name.injEq] at h
      rw [h.1, ih h.2]

/-- Aligned steps at the start of paths with the same components are the same. -/
theorem AreAligned.eq_of_componentsOf {first second : List (List Char)}
    (haligned : AreAligned first second) (h : componentsOf first = componentsOf second) :
    first = second := by
  cases haligned with
  | nil => rfl
  | @cons step other first second hstep hrest =>
    have hmore : first.isEmpty = second.isEmpty := by
      have hlength := hrest.length_eq
      cases first <;> cases second <;> simp_all
    rw [componentsOf, componentsOf, hmore] at h
    by_cases hdots : IsDots step ∨ IsDots other
    · obtain rfl := hstep hdots
      rw [AreAligned.eq_of_filterMap hrest (List.append_cancel_left h)]
    · obtain ⟨hplain, hother⟩ := not_or.mp hdots
      rw [firstComponent_of_not_dots hplain, firstComponent_of_not_dots hother] at h
      obtain ⟨hname, hnames⟩ := List.cons.inj h
      rw [Component.name.inj hname, AreAligned.eq_of_filterMap hrest hnames]

/-- Aligned texts that are joined to a path make the same path only if they are the same. -/
theorem AreAligned.eq_of_sameAs_join {base : Path} {first second : String}
    (haligned : AreAligned (⟨first⟩ : Path).segments (⟨second⟩ : Path).segments)
    (hfirst : first.toList.head? ≠ some '/') (hsecond : second.toList.head? ≠ some '/')
    (h : (base.join first).sameAs (base.join second) = true) : first = second := by
  have hcomponents : (base.join first).components = (base.join second).components := by
    simpa [sameAs] using h
  have hsegments : (⟨first⟩ : Path).segments = (⟨second⟩ : Path).segments := by
    by_cases hbase : base.text = ""
    · rw [join_of_empty hbase, join_of_empty hbase] at hcomponents
      exact haligned.eq_of_componentsOf hcomponents
    · obtain ⟨front, hfront⟩ := exists_components_join hbase
      rw [hfront first hfirst, hfront second hsecond] at hcomponents
      exact haligned.eq_of_filterMap (List.append_cancel_left hcomponents)
  exact Path.mk.inj (eq_of_segments hsegments)

end Path

namespace ArtifactNaming

variable {naming : ArtifactNaming} {first second project : String}

/-- Where no opening brace is filled in, the file name is the pattern with all placeholders filled
in at once. -/
theorem exists_slots (hpattern : patternFault? naming.pattern = none)
    (hanalysis : '\x7b' ∉ naming.analysis.toList) :
    ∃ slots : List Slot,
      (Text.occursIn projectPlaceholder naming.pattern.toList = true → Slot.project ∈ slots) ∧
      ∀ project : String, '\x7b' ∉ project.toList →
        (naming.fileName project).toList = slots.flatMap
          (Slot.filled project.toList naming.analysis.toList naming.format.extension.toList) := by
  obtain ⟨_, _, _, hplaceholders⟩ := patternFault?_eq_none_iff.mp hpattern
  obtain ⟨slots, hslots, htext⟩ := Slot.exists_of_placeholderFault? hplaceholders
  refine ⟨slots, fun hoccurs => ?_, fun project hproject => ?_⟩
  · rw [htext] at hoccurs
    exact Slot.project_mem_of_occursIn hslots hoccurs
  · rw [toList_fileName, fill, htext, Slot.replace_project hslots,
      Slot.replace_analysis hslots hproject, Slot.replace_extension hslots hproject hanalysis]

/-- Where the pattern does not have the name of the project, the file name does not depend on it. -/
theorem fileName_eq_of_not_occursIn
    (h : Text.occursIn projectPlaceholder naming.pattern.toList = false) :
    naming.fileName first = naming.fileName second := by
  have hinfix : ¬ projectPlaceholder <:+: naming.pattern.toList := by
    rw [← Text.occursIn_eq_true_iff, h]
    simp
  rw [← String.toList_inj, toList_fileName, toList_fileName, fill, fill,
    Text.replace_of_not_infix hinfix, Text.replace_of_not_infix hinfix]

/-- The paths of two output files behind the output directory name nothing at the same places. -/
theorem areAligned_innerName (hanalysis : IsPlainName naming.analysis)
    (hfirst : IsPlainName first) (hsecond : IsPlainName second) :
    Path.AreAligned (⟨naming.innerName first⟩ : Path).segments
      (⟨naming.innerName second⟩ : Path).segments := by
  rw [segments_innerName hanalysis hfirst, segments_innerName hanalysis hsecond]
  refine List.rel_append ?_ ?_
  · split
    · exact .nil
    · refine .cons (fun hdots => ?_) .nil
      exact absurd hdots (not_or.mpr ⟨hfirst.notDots, hsecond.notDots⟩)
  · rw [List.forall₂_map_left_iff, List.forall₂_map_right_iff, List.forall₂_same]
    rintro step _ (hdots | hdots)
    · have hstep := (fill_eq_dots_iff hanalysis hfirst hdots).mp rfl
      exact ((fill_eq_dots_iff hanalysis hsecond hdots).mpr hstep).symm
    · have hstep := (fill_eq_dots_iff hanalysis hsecond hdots).mp rfl
      exact (fill_eq_dots_iff hanalysis hfirst hdots).mpr hstep

/-- Two projects have the same path behind the output directory if and only if they are the same, or
the pattern has the name of the project and the file names are the same. -/
theorem innerName_eq_iff (naming : ArtifactNaming) (first second : String) :
    naming.innerName first = naming.innerName second ↔ first = second ∨
      (Text.occursIn projectPlaceholder naming.pattern.toList = true ∧
        naming.fileName first = naming.fileName second) := by
  rw [innerName, innerName]
  cases hoccurs : Text.occursIn projectPlaceholder naming.pattern.toList with
  | true =>
    rw [if_pos rfl, if_pos rfl]
    constructor
    · exact fun h => Or.inr ⟨rfl, h⟩
    · rintro (rfl | ⟨_, h⟩)
      · rfl
      · exact h
  | false =>
    have hsame : naming.fileName first = naming.fileName second :=
      fileName_eq_of_not_occursIn hoccurs
    rw [if_neg Bool.false_ne_true, if_neg Bool.false_ne_true]
    constructor
    · intro h
      rw [hsame] at h
      have htext := congrArg String.toList h
      simp only [String.toList_append] at htext
      exact Or.inl
        (String.toList_inj.mp (List.append_cancel_right (List.append_cancel_right htext)))
    · rintro (rfl | ⟨htrue, _⟩)
      · rfl
      · cases htrue

/-- Two projects share an output file if and only if they are the same, or the pattern has the name
of the project and the file names come out the same. That happens to different projects only where
an opening brace is filled in: with one, a name is searched for placeholders again. -/
theorem sameAs_path_iff (naming : ArtifactNaming) (first second : String)
    (hpattern : patternFault? naming.pattern = none) (hanalysis : IsPlainName naming.analysis)
    (hfirst : IsPlainName first) (hsecond : IsPlainName second) :
    ((naming.path first).sameAs (naming.path second) = true ↔ first = second ∨
      (Text.occursIn projectPlaceholder naming.pattern.toList = true ∧
        naming.fileName first = naming.fileName second)) ∧
    ('\x7b' ∉ naming.analysis.toList → '\x7b' ∉ first.toList → '\x7b' ∉ second.toList →
      first ≠ second → (naming.path first).sameAs (naming.path second) = false) := by
  obtain ⟨_, hrelative, _, _⟩ := patternFault?_eq_none_iff.mp hpattern
  have hiff : (naming.path first).sameAs (naming.path second) = true ↔ first = second ∨
      (Text.occursIn projectPlaceholder naming.pattern.toList = true ∧
        naming.fileName first = naming.fileName second) := by
    rw [path_eq_join hanalysis hfirst hrelative, path_eq_join hanalysis hsecond hrelative,
      ← innerName_eq_iff naming first second]
    constructor
    · exact (areAligned_innerName hanalysis hfirst hsecond).eq_of_sameAs_join
        (head?_innerName hanalysis hfirst hrelative) (head?_innerName hanalysis hsecond hrelative)
    · intro h
      rw [h, Path.sameAs, beq_self_eq_true]
  refine ⟨hiff, fun hanalysisBrace hfirstBrace hsecondBrace hne => ?_⟩
  obtain ⟨slots, hproject, hfileName⟩ := exists_slots hpattern hanalysisBrace
  rw [← Bool.not_eq_true, hiff, not_or]
  refine ⟨hne, fun ⟨hoccurs, hsame⟩ => hne ?_⟩
  have htext := congrArg String.toList hsame
  rw [hfileName first hfirstBrace, hfileName second hsecondBrace] at htext
  exact String.toList_inj.mp (Slot.filled_injective (hproject hoccurs) htext)

/-- Names of output files by the default pattern. -/
def defaultNaming : ArtifactNaming := ⟨⟨"out"⟩, defaultPattern, "gradle_plugins", .csv⟩

/-- Two projects with names that differ by a dot have different output files. -/
theorem dotted_names_apart :
    patternFault? defaultNaming.pattern = none ∧ IsPlainName defaultNaming.analysis ∧
      IsPlainName "a" ∧ IsPlainName "a." ∧
      (defaultNaming.path "a").sameAs (defaultNaming.path "a.") = false := by
  have hpattern : patternFault? defaultNaming.pattern = none := by decide +kernel
  have hanalysis : IsPlainName defaultNaming.analysis := by decide
  have hfirst : IsPlainName "a" := by decide
  have hsecond : IsPlainName "a." := by decide
  obtain ⟨_, hapart⟩ := sameAs_path_iff defaultNaming "a" "a." hpattern hanalysis hfirst hsecond
  exact ⟨hpattern, hanalysis, hfirst, hsecond,
    hapart (by decide) (by decide) (by decide) (by decide)⟩

/-- A project with the name of a placeholder shares the output file of the project with the name
that is filled in for it. -/
theorem placeholder_name_shares :
    ¬ ∀ (naming : ArtifactNaming) (first second : String), patternFault? naming.pattern = none →
      IsPlainName first → IsPlainName second → first ≠ second →
      (naming.path first).sameAs (naming.path second) = false := by
  intro hall
  have hpattern : patternFault? defaultNaming.pattern = none := by decide +kernel
  have hshared : (defaultNaming.path "\x7banalysis\x7d").sameAs
      (defaultNaming.path "gradle_plugins") = true := by decide +kernel
  have hapart := hall defaultNaming "\x7banalysis\x7d" "gradle_plugins" hpattern (by decide)
    (by decide) (by decide)
  rw [hapart] at hshared
  cases hshared

end ArtifactNaming

end CorpusFacts
