import CorpusFacts.Imports.Imports
import CorpusFacts.Proofs.Analysis.Distinct
import CorpusFacts.Proofs.Text.Splitting

/-!
# The names that imports are folded into

Imported names are kept in the order in which they are found. A name is left out if its segments
start with all segments of a package of the project, and, where each name is wanted once, if it was
kept before. Packages count wherever they are found; what was kept before depends on the order. So
another order of the findings gives the same names in another order.
-/

namespace CorpusFacts.Imports

/-- The segments of a name, which dots separate. -/
def segments (name : String) : List (List Char) :=
  Text.split '.' name.toList

/-- A name lies in a package if its segments start with all segments of the package. -/
theorem liesIn_iff {package name : String} :
    liesIn package name = true ↔ segments package <+: segments name := by
  rw [segments, segments, Text.split_isPrefix_iff, liesIn, Bool.or_eq_true, beq_iff_eq,
    List.isPrefixOf_iff_prefix, String.toList_inj, eq_comm]

/-- A package does not hold a name that goes on behind it with anything but a dot. -/
theorem liesIn_append_of_ne {package : String} {c : Char} (hc : c ≠ '.') (rest : List Char) :
    liesIn package (package ++ String.ofList (c :: rest)) = false := by
  rw [← Bool.not_eq_true, liesIn_iff, segments, segments, String.toList_append,
    String.toList_ofList, Text.split_isPrefix_iff, List.prefix_append_right_inj,
    List.cons_prefix_cons]
  rintro (hsame | ⟨hdot, -⟩)
  · exact List.cons_ne_nil c rest (List.self_eq_append_right.mp hsame)
  · exact hc hdot.symm

/-- The names that lie in packages that some file of a project declares, where such names are left
out. -/
def IsOwn (policy : ImportPolicy) (findings : List (Finding ImportFact)) (name : String) : Prop :=
  policy.excludesProjectPackages = true ∧
    ∃ finding ∈ findings, ∃ package, finding.value = .package package ∧
      segments package <+: segments name

/-- How names are kept one after the other, given those kept before: names of the project are passed
over, and so are those kept before if each is wanted once. -/
inductive Keeps (isOwn : String → Prop) (isDistinct : Bool) :
    (before found kept : List String) → Prop
  /-- Nothing is left. -/
  | nil {before : List String} : Keeps isOwn isDistinct before [] []
  /-- A name of the project. -/
  | own {before found kept : List String} {name : String} (hown : isOwn name)
      (hrest : Keeps isOwn isDistinct before found kept) :
      Keeps isOwn isDistinct before (name :: found) kept
  /-- A name that was kept before. -/
  | again {before found kept : List String} {name : String} (hdistinct : isDistinct = true)
      (hmem : name ∈ before) (hrest : Keeps isOwn isDistinct before found kept) :
      Keeps isOwn isDistinct before (name :: found) kept
  /-- Any other name. -/
  | keep {before found kept : List String} {name : String} (hforeign : ¬ isOwn name)
      (hnew : isDistinct = true → name ∉ before)
      (hrest : Keeps isOwn isDistinct (name :: before) found kept) :
      Keeps isOwn isDistinct before (name :: found) (name :: kept)

namespace Keeps

variable {isOwn : String → Prop} {isDistinct : Bool} {before found kept others : List String}

/-- Which names are kept is determined. -/
theorem unique (hkept : Keeps isOwn isDistinct before found kept)
    (hothers : Keeps isOwn isDistinct before found others) : kept = others := by
  induction hkept generalizing others with
  | nil => cases hothers; rfl
  | own hown _ ih =>
    cases hothers with
    | own _ hrest => exact ih hrest
    | again _ _ hrest => exact ih hrest
    | keep hforeign _ _ => exact absurd hown hforeign
  | again hdistinct hmem _ ih =>
    cases hothers with
    | own _ hrest => exact ih hrest
    | again _ _ hrest => exact ih hrest
    | keep _ hnew _ => exact absurd hmem (hnew hdistinct)
  | keep hforeign hnew _ ih =>
    cases hothers with
    | own hown _ => exact absurd hown hforeign
    | again hdistinct hmem _ => exact absurd hmem (hnew hdistinct)
    | keep _ _ hrest => rw [ih hrest]

/-- Where names may be kept again, those of the project are filtered out. -/
theorem all {owns : String → Bool} (before found : List String) :
    Keeps (owns · = true) false before found (found.filter (!owns ·)) := by
  induction found generalizing before with
  | nil => exact .nil
  | cons name found ih =>
    cases hown : owns name with
    | true =>
      rw [List.filter_cons_of_neg (by simp [hown])]
      exact .own hown (ih before)
    | false =>
      rw [List.filter_cons_of_pos (by simp [hown])]
      exact .keep (by simp [hown]) (fun h => nomatch h) (ih _)

/-- Where each name is kept once, these are the first occurrences of the others, without those kept
before. -/
theorem once {owns : String → Bool} (before found : List String) :
    Keeps (owns · = true) true before found
      ((firstOccurrences (found.filter (!owns ·))).filter (· ∉ before)) := by
  induction found generalizing before with
  | nil => exact .nil
  | cons name found ih =>
    cases hown : owns name with
    | true =>
      rw [List.filter_cons_of_neg (by simp [hown])]
      exact .own hown (ih before)
    | false =>
      rw [List.filter_cons_of_pos (by simp [hown]), firstOccurrences]
      by_cases hmem : name ∈ before
      · rw [List.filter_cons_of_neg (by simpa using hmem), List.filter_filter]
        -- Nothing kept before is the name, so that dropping it again changes nothing.
        have hsame : ∀ other : String, (decide (other ∉ before) && decide (other ≠ name)) =
            decide (other ∉ before) := by
          intro other
          rw [← Bool.decide_and, decide_eq_decide, and_iff_left_iff_imp]
          rintro hother rfl
          exact hother hmem
        simp only [hsame]
        exact .again rfl hmem (ih before)
      · rw [List.filter_cons_of_pos (by simpa using hmem), List.filter_filter]
        have hmore : ∀ other : String, (decide (other ∉ before) && decide (other ≠ name)) =
            decide (other ∉ name :: before) := by
          intro other
          rw [← Bool.decide_and, decide_eq_decide, List.mem_cons, not_or, and_comm]
        simp only [hmore]
        exact .keep (by simp [hown]) (fun _ => hmem) (ih _)

end Keeps

/-- The names of the records that findings are folded into. -/
def keptNames (policy : ImportPolicy) (findings : List (Finding ImportFact)) : List String :=
  ((importAggregator policy).aggregate findings).map (·.name)

variable {policy : ImportPolicy} {findings others : List (Finding ImportFact)}

/-- Whether a name is taken for one of the project. -/
def owns (policy : ImportPolicy) (findings : List (Finding ImportFact)) (name : String) : Bool :=
  (if policy.excludesProjectPackages then packages findings else []).any (liesIn · name)

theorem mem_packages_iff {package : String} :
    package ∈ packages findings ↔ ∃ finding ∈ findings, finding.value = .package package := by
  rw [packages, List.mem_filterMap]
  refine exists_congr fun finding => and_congr_right fun _ => ?_
  cases finding.value <;> simp

theorem owns_iff {name : String} :
    owns policy findings name = true ↔ IsOwn policy findings name := by
  rw [owns, IsOwn]
  cases policy.excludesProjectPackages with
  | false => simp
  | true =>
    simp only [if_true, List.any_eq_true, mem_packages_iff, liesIn_iff, true_and]
    constructor
    · rintro ⟨package, ⟨finding, hfinding, hvalue⟩, hprefix⟩
      exact ⟨finding, hfinding, package, hvalue, hprefix⟩
    · rintro ⟨finding, hfinding, package, hvalue, hprefix⟩
      exact ⟨package, ⟨finding, hfinding, hvalue⟩, hprefix⟩

theorem keptNames_eq : keptNames policy findings =
    if policy.isDistinct then
      firstOccurrences ((names findings).filter (!owns policy findings ·))
    else (names findings).filter (!owns policy findings ·) := by
  rw [keptNames, importAggregator, List.map_map]
  exact List.map_id _

/-- The records of some findings are those that the names found are kept as, one by one. -/
theorem keeps_keptNames (policy : ImportPolicy) (findings : List (Finding ImportFact)) :
    Keeps (IsOwn policy findings) policy.isDistinct [] (names findings)
      (keptNames policy findings) := by
  have howns : (owns policy findings · = true) = IsOwn policy findings :=
    funext fun _ => propext owns_iff
  rw [keptNames_eq, ← howns]
  cases policy.isDistinct with
  | false => exact .all [] _
  | true => simpa using @Keeps.once (owns policy findings) [] (names findings)

/-- Which names are those of the project does not depend on the order of the findings. -/
theorem owns_perm (h : findings.Perm others) (name : String) :
    owns policy findings name = owns policy others name := by
  rw [Bool.eq_iff_iff, owns_iff, owns_iff, IsOwn, IsOwn]
  exact and_congr_right fun _ => exists_congr fun _ => and_congr_left fun _ => h.mem_iff

/-- Findings in another order give the same names in another order. -/
theorem keptNames_perm (h : findings.Perm others) :
    (keptNames policy findings).Perm (keptNames policy others) := by
  have hnames : (names findings).Perm (names others) := h.flatMap_right _
  rw [keptNames_eq, keptNames_eq]
  simp only [owns_perm h]
  split
  · exact firstOccurrences_perm (hnames.filter _)
  · exact hnames.filter _

/-- How often a name is kept: never if it is one of the project, and at most once if each name is
wanted once. -/
theorem count_keptNames (name : String) : (keptNames policy findings).count name =
    if owns policy findings name then 0
    else if policy.isDistinct then if name ∈ names findings then 1 else 0
    else (names findings).count name := by
  rw [keptNames_eq]
  cases hown : owns policy findings name with
  | true =>
    rw [if_pos rfl, List.count_eq_zero]
    split <;> simp [hown]
  | false =>
    rw [if_neg Bool.false_ne_true]
    split
    · simp only [(nodup_firstOccurrences _).count, mem_firstOccurrences, List.mem_filter, hown,
        Bool.not_false, and_true]
    · exact List.count_filter (by simp [hown])

/-- A package takes away no name that goes on behind it with anything but a dot. -/
theorem owns_of_package {before after : List (Finding ImportFact)} {finding : Finding ImportFact}
    {package : String} {c : Char} (hpackage : finding.value = .package package) (hc : c ≠ '.')
    (rest : List Char) :
    owns policy (before ++ finding :: after) (package ++ String.ofList (c :: rest)) =
      owns policy (before ++ after) (package ++ String.ofList (c :: rest)) := by
  have hmore : packages (before ++ finding :: after) =
      packages before ++ package :: packages after := by
    simp [packages, hpackage]
  have hless : packages (before ++ after) = packages before ++ packages after := by
    simp [packages]
  rw [owns, owns, hmore, hless]
  split
  · rw [List.any_append, List.any_cons, liesIn_append_of_ne hc, Bool.false_or, List.any_append]
  · rfl

/-- The names that findings are folded into are exactly those that are kept one by one: all names
imported, in their order, without those of the project and without those kept before, as far as the
policy asks for it. Another order of the findings changes their order only, and a package takes away
none of the names that go on behind it with anything but a dot. -/
theorem keptNames_spec (policy : ImportPolicy) (findings : List (Finding ImportFact)) :
    (∀ kept, Keeps (IsOwn policy findings) policy.isDistinct [] (names findings) kept ↔
      kept = keptNames policy findings) ∧
    (∀ others, others.Perm findings →
      (keptNames policy others).Perm (keptNames policy findings) ∧
        (policy.isDistinct = true → (keptNames policy others).Nodup)) ∧
    ∀ before finding after, findings = before ++ finding :: after →
      ∀ package, finding.value = .package package →
      ∀ (c : Char) (rest : List Char), c ≠ '.' →
        (keptNames policy findings).count (package ++ String.ofList (c :: rest)) =
          (keptNames policy (before ++ after)).count (package ++ String.ofList (c :: rest)) := by
  refine ⟨fun kept => ⟨fun h => h.unique (keeps_keptNames policy findings), ?_⟩, ?_, ?_⟩
  · rintro rfl
    exact keeps_keptNames policy findings
  · refine fun others h => ⟨keptNames_perm h, fun hdistinct => ?_⟩
    rw [keptNames_eq, if_pos hdistinct]
    exact nodup_firstOccurrences _
  · rintro before finding after rfl package hpackage c rest hc
    have hnames : names (before ++ finding :: after) = names (before ++ after) := by
      simp [names, hpackage]
    rw [count_keptNames, count_keptNames, owns_of_package hpackage hc, hnames]

/-- The package of a project takes away what is imported from it in another file, and leaves a name
that only starts with the same letters. -/
theorem keptNames_spec_example :
    let finding := Finding.mk "import-directive" "A.kt" "." 1
    let first := finding (.imports ["com.examples.Other"])
    let declared := finding (.package "com.example")
    let second := finding (.imports ["com.example.core.Util", "okio.Buffer", "okio.Buffer"])
    keptNames ⟨true, true⟩ [first, declared, second] = ["com.examples.Other", "okio.Buffer"] ∧
      (keptNames ⟨true, true⟩ [first, declared, second]).count "com.examples.Other" =
        (keptNames ⟨true, true⟩ [first, second]).count "com.examples.Other" := by
  intro finding first declared second
  have hspec := keptNames_spec ⟨true, true⟩ [first, declared, second]
  refine ⟨((hspec.1 _).mp ?_).symm, ?_⟩
  · have hown : IsOwn ⟨true, true⟩ [first, declared, second] "com.example.core.Util" :=
      owns_iff.mp (by decide +kernel)
    have hother : ¬ IsOwn ⟨true, true⟩ [first, declared, second] "com.examples.Other" :=
      owns_iff.not.mp (by decide +kernel)
    have hbuffer : ¬ IsOwn ⟨true, true⟩ [first, declared, second] "okio.Buffer" :=
      owns_iff.not.mp (by decide +kernel)
    refine .keep hother (fun _ => by simp) (.own hown (.keep hbuffer (fun _ => ?_) ?_))
    · decide
    · exact .again rfl (by simp) .nil
  · exact hspec.2.2 [first] declared [second] rfl "com.example" rfl 's' ".Other".toList
      (by decide)

end CorpusFacts.Imports
