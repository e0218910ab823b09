import CorpusFacts.Gradle.Dependencies
import CorpusFacts.Project.Tags
import CorpusFacts.Proofs.Analysis.Distinct
import Mathlib.Data.Prod.Lex
import Mathlib.Data.String.Basic
import Mathlib.Order.WithBot

/-!
# Results that forget the order of findings

The dependencies of a project and its tags are made from the set of what is found. In whatever order
the files of a project are read, and however often a fact is found, the records are the same.
-/

/-! ## The order of dependency records

Records are compared field by field. This is the lexicographic order of their fields, in which a
record without a version comes before those with one, and it tells any two records apart.
-/

namespace CorpusFacts.Gradle.DependencyRecord

theorem compareVersion_eq (first second : Option String) :
    compareVersion first second = Ord.compare (α := WithBot String) first second := by
  cases first with
  | none => cases second <;> rfl
  | some first =>
    cases second with
    | none => rfl
    | some second =>
      change Ord.compare first second = Ord.compare (first : WithBot String) second
      obtain h | rfl | h := lt_trichotomy first second
      · rw [compare_lt_iff_lt.2 h, compare_lt_iff_lt.2 (WithBot.coe_lt_coe.2 h)]
      · rw [compare_eq_iff_eq.2 rfl, compare_eq_iff_eq.2 rfl]
      · rw [compare_gt_iff_gt.2 h, compare_gt_iff_gt.2 (WithBot.coe_lt_coe.2 h)]

/-- The fields of a record in the order in which they count; no version is below every version. -/
def sortKey (record : DependencyRecord) :
    String ×ₗ String ×ₗ String ×ₗ String ×ₗ WithBot String ×ₗ Bool :=
  toLex (record.module, toLex (record.configuration, toLex (record.group, toLex (record.artifact,
    toLex ((record.version : WithBot String), record.isForAllProjects)))))

theorem sortKey_injective : sortKey.Injective := by
  rintro ⟨⟩ ⟨⟩ h
  cases h
  rfl

/-- Records are ordered as their fields are lexicographically. -/
theorem compare_eq (first second : DependencyRecord) :
    compare first second = Ord.compare first.sortKey second.sortKey := by
  simp only [compare, compareVersion_eq, sortKey, Prod.Lex.compare_def, compareLex, compareOn,
    ofLex_toLex]

theorem compare_eq_lt_iff {first second : DependencyRecord} :
    compare first second = .lt ↔ first.sortKey < second.sortKey := by
  rw [compare_eq, compare_lt_iff_lt]

instance : Std.TransCmp compare where
  eq_swap {_ _} := by
    rw [compare_eq, compare_eq]
    exact Std.OrientedCmp.eq_swap
  isLE_trans {_ _ _} h₁ h₂ := by
    rw [compare_eq] at *
    exact Std.TransCmp.isLE_trans h₁ h₂

instance : Std.LawfulEqCmp compare where
  eq_of_compare {_ _} h := sortKey_injective (compare_eq_iff_eq.1 (compare_eq _ _ ▸ h))

end CorpusFacts.Gradle.DependencyRecord

namespace CorpusFacts

/-- Facts without regard to their order and number are all that tags are told from. -/
theorem classify_congr {first second : List TagFact} (h : ∀ fact, fact ∈ first ↔ fact ∈ second) :
    classify first = classify second := by
  have hany : first.any (·.showsAndroid) = second.any (·.showsAndroid) := by
    rw [Bool.eq_iff_iff, List.any_eq_true, List.any_eq_true]
    exact exists_congr fun fact => and_congr_left fun _ => h fact
  rw [classify, classify, hany]

/-- A project has one tag. -/
theorem exists_classify_eq (facts : List TagFact) : ∃ tag, classify facts = [tag] := by
  unfold classify
  split
  · exact ⟨.android, rfl⟩
  · exact ⟨.other, rfl⟩

theorem classify_eq_android_iff {facts : List TagFact} :
    classify facts = [.android] ↔ ∃ fact ∈ facts, fact.showsAndroid := by
  unfold classify
  split <;> simp_all

/-- What shows that a project is built for Android is not undone by more facts. -/
theorem classify_eq_android_of_subset {first second : List TagFact} (h : first ⊆ second)
    (hfirst : classify first = [.android]) : classify second = [.android] := by
  obtain ⟨fact, hmem, hshows⟩ := classify_eq_android_iff.1 hfirst
  exact classify_eq_android_iff.2 ⟨fact, h hmem, hshows⟩

theorem Gradle.mem_aggregate_dependencies {findings : List (Finding DependencyRecord)}
    {record : DependencyRecord} :
    record ∈ dependencyAggregator.aggregate findings ↔ ∃ found ∈ findings, found.value = record := by
  simp [dependencyAggregator, Aggregator.set]

theorem Gradle.pairwise_aggregate_dependencies (findings : List (Finding DependencyRecord)) :
    (dependencyAggregator.aggregate findings).Pairwise (·.sortKey < ·.sortKey) :=
  (ascending_sortDistinct _).imp DependencyRecord.compare_eq_lt_iff.1

/-- In whatever order dependencies are found, their records are the same ones, strictly ascending by
their fields and exactly those that are found. In whatever order the facts on a project are found,
the project has the same single tag; that is so as well when facts are repeated, and a project that
is tagged as built for Android stays so when facts are added. -/
theorem unordered_aggregates (project : Project) {S T : List (Finding Gradle.DependencyRecord)}
    {F G : List (Finding TagFact)} (hST : S.Perm T) (hFG : F.Perm G) :
    (∃ records, Gradle.dependencies.aggregate project S = .ok records ∧
      Gradle.dependencies.aggregate project T = .ok records ∧
      records.Pairwise (·.sortKey < ·.sortKey) ∧
      ∀ record, record ∈ records ↔ ∃ found ∈ S, found.value = record) ∧
    ∃ tag, tags.aggregate project F = .ok [⟨[tag]⟩] ∧ tags.aggregate project G = .ok [⟨[tag]⟩] ∧
      (∀ again, (∀ fact, (∃ found ∈ again, found.value = fact) ↔ ∃ found ∈ F, found.value = fact) →
        tags.aggregate project again = .ok [⟨[tag]⟩]) ∧
      (tag = .android → ∀ more, (∀ found ∈ F, ∃ kept ∈ more, kept.value = found.value) →
        tags.aggregate project more = .ok [⟨[.android]⟩]) := by
  constructor
  · have hsame : Gradle.dependencyAggregator.aggregate T =
        Gradle.dependencyAggregator.aggregate S :=
      sortDistinct_eq_iff.2 fun _ => ((hST.map _).mem_iff).symm
    exact ⟨_, rfl, congrArg Except.ok hsame, Gradle.pairwise_aggregate_dependencies S,
      fun _ => Gradle.mem_aggregate_dependencies⟩
  · obtain ⟨tag, htag⟩ := exists_classify_eq (F.map (·.value))
    have hcongr : ∀ {again : List (Finding TagFact)},
        (∀ fact, fact ∈ again.map (·.value) ↔ fact ∈ F.map (·.value)) →
          tags.aggregate project again = .ok [⟨[tag]⟩] := fun h => by
      simp only [tags, classify_congr h, htag]
    refine ⟨tag, hcongr fun _ => Iff.rfl, hcongr fun _ => (hFG.map _).mem_iff.symm,
      fun again hagain => hcongr (by simpa using hagain), fun hand more hmore => ?_⟩
    have hsub : F.map (·.value) ⊆ more.map (·.value) := by
      simpa [List.subset_def] using hmore
    simp only [tags, classify_eq_android_of_subset hsub (hand ▸ htag)]

/-- A dependency that is found twice, once without its version, and a plugin of Android builds: the
records come in the same order, and the tag is the same, when both lists are turned round. -/
theorem turned_aggregates :
    let bare : Gradle.DependencyRecord := ⟨".", "api", "g", "a", none, false⟩
    let fixed : Gradle.DependencyRecord := { bare with version := some "1" }
    let S : List (Finding Gradle.DependencyRecord) :=
      [⟨"gradle-dependency", "build.gradle", ".", 2, fixed⟩,
        ⟨"gradle-dependency", "build.gradle", ".", 3, bare⟩]
    let F : List (Finding TagFact) :=
      [⟨"gradle-dependency", "build.gradle", ".", 2, .dependency fixed⟩,
        ⟨"gradle-plugin", "build.gradle", ".", 1, .plugin ⟨".", "android", none, [], true, false⟩⟩]
    S.Perm S.reverse ∧ F.Perm F.reverse ∧
      Gradle.dependencies.aggregate (.ofRoot "p" ⟨"p"⟩) S.reverse = .ok [bare, fixed] ∧
      tags.aggregate (.ofRoot "p" ⟨"p"⟩) F.reverse = .ok [⟨[.android]⟩] := by
  intro bare fixed S F
  have hS := S.reverse_perm.symm
  have hF := F.reverse_perm.symm
  obtain ⟨⟨records, hrecords, hturned, -⟩, tag, htag, hturnedTag, -⟩ :=
    unordered_aggregates (.ofRoot "p" ⟨"p"⟩) hS hF
  refine ⟨hS, hF, hturned.trans ?_, hturnedTag.trans ?_⟩
  · exact hrecords.symm.trans (by decide +kernel)
  · exact htag.symm.trans (by decide +kernel)

end CorpusFacts
