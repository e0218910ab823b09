import CorpusFacts.Proofs.Gradle.PluginBlocks
import Mathlib.Data.List.Nodup

/-!
# Plugins that are merged

Records of one module and one identifier are merged into one: the first of them gives all fields but
one, and the merged record holds for all projects if any of them does. This determines the merged
records. So nothing changes when they are merged again, and the order of the records found decides
neither which plugins there are nor which of them hold for all projects.

A module and an identifier are never lost. The arguments are those of the first record, and only the
plugins of the Kotlin library, which share an identifier, have any.
-/

namespace CorpusFacts.Gradle

variable {found merged : List PluginRecord} {record first : PluginRecord}

/-- A record is the first one of its key. -/
def IsFirst (found : List PluginRecord) (record : PluginRecord) : Prop :=
  ∃ before after, found = before ++ record :: after ∧ ∀ other ∈ before, other.key ≠ record.key

theorem isFirst_cons {other : PluginRecord} :
    IsFirst (other :: found) record ↔
      record = other ∨ IsFirst found record ∧ record.key ≠ other.key := by
  constructor
  · rintro ⟨before, after, hfound, hbefore⟩
    cases before with
    | nil => exact .inl (List.cons.inj hfound).1.symm
    | cons first before =>
      obtain ⟨rfl, rfl⟩ := List.cons.inj hfound
      obtain ⟨hfirst, hbefore⟩ := List.forall_mem_cons.mp hbefore
      exact .inr ⟨⟨before, after, rfl, hbefore⟩, hfirst.symm⟩
  · rintro (rfl | ⟨⟨before, after, rfl, hbefore⟩, hother⟩)
    · exact ⟨[], found, rfl, by simp⟩
    · exact ⟨other :: before, after, rfl, List.forall_mem_cons.mpr ⟨hother.symm, hbefore⟩⟩

theorem IsFirst.mem (h : IsFirst found record) : record ∈ found := by
  obtain ⟨before, after, rfl, -⟩ := h
  simp

/-- There is only one first record of a key. -/
theorem IsFirst.eq (hrecord : IsFirst found record) (hfirst : IsFirst found first)
    (hkey : first.key = record.key) : first = record := by
  induction found with
  | nil => cases hrecord.mem
  | cons other found ih =>
    rcases isFirst_cons.mp hrecord with rfl | ⟨hrecord, hother⟩
    · exact (isFirst_cons.mp hfirst).resolve_right fun h => h.2 hkey
    · rcases isFirst_cons.mp hfirst with rfl | ⟨hfirst, -⟩
      · exact absurd hkey.symm hother
      · exact ih hrecord hfirst

/-- A key that occurs has a first record. -/
theorem exists_isFirst (h : record ∈ found) :
    ∃ first, IsFirst found first ∧ first.key = record.key := by
  have hsome : (found.find? (·.key == record.key)).isSome := by
    rw [List.find?_isSome]
    exact ⟨record, h, beq_self_eq_true _⟩
  obtain ⟨first, hfind⟩ := Option.isSome_iff_exists.mp hsome
  obtain ⟨hkey, before, after, hfound, hbefore⟩ := List.find?_eq_some_iff_append.mp hfind
  obtain hkey : first.key = record.key := by simpa using hkey
  refine ⟨first, ⟨before, after, hfound, fun other hother => ?_⟩, hkey⟩
  rw [hkey]
  simpa using hbefore other hother

/-- A record is still the first of its key when more records follow. -/
theorem IsFirst.append (h : IsFirst found record) (more : List PluginRecord) :
    IsFirst (found ++ more) record := by
  obtain ⟨before, after, rfl, hbefore⟩ := h
  exact ⟨before, after ++ more, by simp, hbefore⟩

/-- Where a record comes first, in the keys of some records. -/
def position (found : List PluginRecord) (record : PluginRecord) : Nat :=
  (found.map (·.key)).idxOf record.key

/-- Records are merged: there is one for each key, in the order in which the keys occur first, with
the fields of the first record of the key; it holds for all projects if any record of the key
does. -/
structure MergedFrom (found merged : List PluginRecord) : Prop where
  /-- The keys are those that occur. -/
  keys : ∀ key, key ∈ merged.map (·.key) ↔ key ∈ found.map (·.key)
  /-- They come as they occur first, so none of them comes twice. -/
  ordered : merged.Pairwise fun record next => position found record < position found next
  /-- All other fields are those of the first record. -/
  fields : ∀ record ∈ merged, ∃ first, IsFirst found first ∧ first.key = record.key ∧
    record.version = first.version ∧ record.args = first.args ∧ record.isApplied = first.isApplied
  /-- All records of a key count for this one. -/
  forAllProjects : ∀ record ∈ merged, record.isForAllProjects = true ↔
    ∃ other ∈ found, other.key = record.key ∧ other.isForAllProjects = true

namespace MergedFrom

/-- The keys of merged records are distinct. -/
theorem nodup (h : MergedFrom found merged) : (merged.map (·.key)).Nodup := by
  refine List.pairwise_map.mpr (h.ordered.imp fun hlt hkey => ?_)
  rw [position, position, hkey] at hlt
  exact Nat.lt_irrefl _ hlt

/-- Records that are merged from the same ones are the same. -/
theorem subset {other : List PluginRecord} (h : MergedFrom found merged)
    (hother : MergedFrom found other) : merged ⊆ other := by
  intro record hrecord
  have hkey : record.key ∈ other.map (·.key) :=
    (hother.keys _).mpr ((h.keys _).mp (List.mem_map_of_mem hrecord))
  obtain ⟨same, hsame, hkey⟩ := List.mem_map.mp hkey
  obtain ⟨first, hfirst, hfirstKey, hversion, hargs, happlied⟩ := h.fields record hrecord
  obtain ⟨next, hnext, hnextKey, hversion', hargs', happlied'⟩ := hother.fields same hsame
  obtain rfl : next = first := hfirst.eq hnext (by rw [hnextKey, hkey, hfirstKey])
  have hflag : record.isForAllProjects = same.isForAllProjects := by
    rw [Bool.eq_iff_iff, h.forAllProjects record hrecord, hother.forAllProjects same hsame, hkey]
  have heq : record = same := by
    obtain ⟨hmodule, hid⟩ := Prod.mk.inj hkey
    cases record
    cases same
    simp_all
  exact heq ▸ hsame

/-- There is only one way to merge records. -/
theorem unique {other : List PluginRecord} (h : MergedFrom found merged)
    (hother : MergedFrom found other) : merged = other := by
  have hperm : merged.Perm other :=
    (List.perm_ext_iff_of_nodup h.nodup.of_map hother.nodup.of_map).mpr fun record =>
      ⟨fun hrecord => h.subset hother hrecord, fun hrecord => hother.subset h hrecord⟩
  exact hperm.eq_of_pairwise (fun _ _ _ _ hlt hgt => absurd hgt (Nat.lt_asymm hlt)) h.ordered
    hother.ordered

/-- The same records are merged from records that come twice. -/
theorem twice (h : MergedFrom found merged) : MergedFrom (found ++ found) merged where
  keys key := by simp only [h.keys key, List.map_append, List.mem_append, or_self]
  ordered := by
    have hposition : ∀ record ∈ merged, position (found ++ found) record = position found record :=
      fun record hrecord => by
        rw [position, List.map_append]
        exact List.idxOf_append_of_mem ((h.keys _).mp (List.mem_map_of_mem hrecord))
    refine h.ordered.imp_of_mem fun hrecord hnext hlt => ?_
    rw [hposition _ hrecord, hposition _ hnext]
    exact hlt
  fields record hrecord := by
    obtain ⟨first, hfirst, hsame⟩ := h.fields record hrecord
    exact ⟨first, hfirst.append found, hsame⟩
  forAllProjects record hrecord := by
    simp only [h.forAllProjects record hrecord, List.mem_append, or_self]

/-- Which keys there are and which of them hold for all projects, by the records found. -/
theorem exists_iff (h : MergedFrom found merged) {key : String × String} {flag : Bool} :
    (∃ record ∈ merged, record.key = key ∧ record.isForAllProjects = flag) ↔
      (∃ other ∈ found, other.key = key) ∧
        (flag = true ↔ ∃ other ∈ found, other.key = key ∧ other.isForAllProjects = true) := by
  constructor
  · rintro ⟨record, hrecord, rfl, rfl⟩
    exact ⟨List.mem_map.mp ((h.keys _).mp (List.mem_map_of_mem hrecord)),
      h.forAllProjects record hrecord⟩
  · rintro ⟨hkey, hflag⟩
    obtain ⟨record, hrecord, rfl⟩ := List.mem_map.mp ((h.keys key).mpr (List.mem_map.mpr hkey))
    refine ⟨record, hrecord, rfl, ?_⟩
    rw [Bool.eq_iff_iff, h.forAllProjects record hrecord, hflag]

end MergedFrom

theorem mem_firstOfEachKey : record ∈ firstOfEachKey found ↔ IsFirst found record := by
  induction found with
  | nil =>
    constructor
    · intro h
      cases h
    · intro h
      cases h.mem
  | cons other found ih =>
    rw [firstOfEachKey, List.mem_cons, List.mem_filter, ih, isFirst_cons]
    simp

/-- First records are in order. -/
theorem pairwise_firstOfEachKey (found : List PluginRecord) :
    (firstOfEachKey found).Pairwise fun record next =>
      position found record < position found next := by
  induction found with
  | nil => exact .nil
  | cons other found ih =>
    have hbehind : ∀ {record}, record.key ≠ other.key →
        position (other :: found) record = position found record + 1 := fun hne =>
      List.idxOf_cons_ne _ hne.symm
    have hhead : position (other :: found) other = 0 := List.idxOf_cons_self
    rw [firstOfEachKey, List.pairwise_cons]
    constructor
    · intro record hrecord
      have hne : record.key ≠ other.key := by simpa using (List.mem_filter.mp hrecord).2
      rw [hhead, hbehind hne]
      exact Nat.succ_pos _
    · rw [List.pairwise_filter]
      refine ih.imp fun hlt hrecord hnext => ?_
      rw [hbehind (by simpa using hrecord), hbehind (by simpa using hnext)]
      exact Nat.succ_lt_succ hlt

/-- Plugins are merged. -/
theorem mergedFrom_mergePlugins (found : List PluginRecord) :
    MergedFrom found (mergePlugins found) where
  keys key := by
    have hkeys : (mergePlugins found).map (·.key) = (firstOfEachKey found).map (·.key) := by
      rw [mergePlugins, List.map_map]
      rfl
    rw [hkeys, List.mem_map, List.mem_map]
    constructor
    · rintro ⟨record, hrecord, rfl⟩
      exact ⟨record, (mem_firstOfEachKey.mp hrecord).mem, rfl⟩
    · rintro ⟨record, hrecord, rfl⟩
      obtain ⟨first, hfirst, hkey⟩ := exists_isFirst hrecord
      exact ⟨first, mem_firstOfEachKey.mpr hfirst, hkey⟩
  ordered := List.pairwise_map.mpr (pairwise_firstOfEachKey found)
  fields record hrecord := by
    obtain ⟨first, hfirst, rfl⟩ := List.mem_map.mp hrecord
    exact ⟨first, mem_firstOfEachKey.mp hfirst, rfl, rfl, rfl, rfl⟩
  forAllProjects record hrecord := by
    obtain ⟨first, -, rfl⟩ := List.mem_map.mp hrecord
    simp [PluginRecord.key]

theorem mergedFrom_iff : MergedFrom found merged ↔ mergePlugins found = merged :=
  ⟨fun h => (mergedFrom_mergePlugins found).unique h, fun h => h ▸ mergedFrom_mergePlugins found⟩

section Again

variable (h : (found.map (·.key)).Nodup)
include h

theorem firstOfEachKey_of_nodup : firstOfEachKey found = found := by
  induction found with
  | nil => rfl
  | cons other found ih =>
    obtain ⟨hother, hfound⟩ := List.nodup_cons.mp h
    rw [firstOfEachKey, ih hfound, List.filter_eq_self.mpr]
    intro record hrecord
    have hne : record.key ≠ other.key := fun hkey =>
      hother (List.mem_map.mpr ⟨record, hrecord, hkey⟩)
    simpa using hne

/-- Records are kept as they are where their keys are distinct. -/
theorem mergePlugins_of_nodup : mergePlugins found = found := by
  rw [mergePlugins, firstOfEachKey_of_nodup h]
  refine (List.map_congr_left fun record hrecord => ?_).trans (List.map_id found)
  have hflag : found.any (fun other => other.key == record.key && other.isForAllProjects) =
      record.isForAllProjects := by
    rw [Bool.eq_iff_iff, List.any_eq_true]
    constructor
    · rintro ⟨other, hother, hboth⟩
      obtain ⟨hkey, hall⟩ : other.key = record.key ∧ other.isForAllProjects = true := by
        simpa using hboth
      exact List.inj_on_of_nodup_map h hother hrecord hkey ▸ hall
    · intro hall
      exact ⟨record, hrecord, by simp [hall]⟩
  rw [hflag, id]

end Again

/-- Plugins are merged into one record for each module and identifier that occurs, in the order in
which these occur first, with the version, the arguments and the mark of the first record; one that
holds for all projects if any of them does. This is so of no other list. Merging them again, or
merging the findings twice over, gives the same records, and in whatever order they are found, the
plugins are the same, and so are those that hold for all projects. -/
theorem plugins_merged {findings permuted again : List (Finding PluginRecord)}
    (hperm : permuted.Perm findings)
    (hagain : again.map (·.value) = pluginAggregator.aggregate findings) :
    (∀ merged, MergedFrom (findings.map (·.value)) merged ↔
        pluginAggregator.aggregate findings = merged) ∧
      pluginAggregator.aggregate again = pluginAggregator.aggregate findings ∧
      pluginAggregator.aggregate (findings ++ findings) = pluginAggregator.aggregate findings ∧
      ∀ key flag,
        (∃ record ∈ pluginAggregator.aggregate permuted,
            record.key = key ∧ record.isForAllProjects = flag) ↔
          ∃ record ∈ pluginAggregator.aggregate findings,
            record.key = key ∧ record.isForAllProjects = flag := by
  have hmerged := mergedFrom_mergePlugins (findings.map (·.value))
  refine ⟨fun _ => mergedFrom_iff, ?_, ?_, fun key flag => ?_⟩
  · change mergePlugins (again.map (·.value)) = _
    rw [hagain]
    exact mergePlugins_of_nodup hmerged.nodup
  · change mergePlugins ((findings ++ findings).map (·.value)) = _
    rw [List.map_append]
    exact mergedFrom_iff.mp hmerged.twice
  · have hvalues := hperm.map (·.value)
    have hother := mergedFrom_mergePlugins (permuted.map (·.value))
    refine (hother.exists_iff).trans (Iff.trans ?_ hmerged.exists_iff.symm)
    simp only [hvalues.mem_iff]

/-- A plugin that is found twice, for all projects only the second time: the first record is kept
and holds for all projects, and it does so as well when the findings are turned round. -/
theorem turned_plugins_merged :
    let first : PluginRecord := ⟨".", "kotlin", some "1.9.0", ["jvm"], true, false⟩
    let other : PluginRecord := ⟨"app", "java", none, [], true, false⟩
    let second : PluginRecord := ⟨".", "kotlin", none, [], true, true⟩
    let findings : List (Finding PluginRecord) :=
      [⟨"gradle-plugin", "build.gradle", ".", 2, first⟩,
        ⟨"gradle-plugin", "app/build.gradle", "app", 1, other⟩,
        ⟨"gradle-plugin", "build.gradle", ".", 6, second⟩]
    let again : List (Finding PluginRecord) :=
      [⟨"gradle-plugin", "build.gradle", ".", 2, { first with isForAllProjects := true }⟩,
        ⟨"gradle-plugin", "app/build.gradle", "app", 1, other⟩]
    findings.reverse.Perm findings ∧ again.map (·.value) = pluginAggregator.aggregate findings ∧
      pluginAggregator.aggregate again = [{ first with isForAllProjects := true }, other] ∧
      ∃ record ∈ pluginAggregator.aggregate findings.reverse,
        record.key = (".", "kotlin") ∧ record.isForAllProjects = true := by
  intro first other second findings again
  have hperm := findings.reverse_perm
  have hagain : again.map (·.value) = pluginAggregator.aggregate findings := by decide +kernel
  obtain ⟨-, hsame, -, hturned⟩ := plugins_merged hperm hagain
  refine ⟨hperm, hagain, hsame.trans (hagain.symm.trans rfl), (hturned _ _).mpr ?_⟩
  rw [← hagain]
  exact ⟨_, List.mem_cons_self .., rfl, rfl⟩

/-! ## What is not lost -/

theorem args_of_applyStatement? {text : List Char} {entry : PluginEntry}
    (h : applyStatement? text = some entry) : entry.args = [] := by
  simp only [applyStatement?, Option.bind_eq_bind, Option.bind_eq_some_iff, Option.pure_def,
    Option.some.injEq] at h
  obtain ⟨_, _, _, _, _, _, _, _, rfl⟩ := h
  rfl

theorem args_of_pluginCall? {text : List Char} {entry : PluginEntry}
    (h : pluginCall? text = some entry) : entry.args = [] := by
  simp only [pluginCall?, Option.bind_eq_bind, Option.bind_eq_some_iff, Option.pure_def,
    Option.some.injEq] at h
  obtain ⟨_, _, _, _, rfl⟩ := h
  rfl

/-- Only a name of the Kotlin library refers to a plugin with arguments. -/
theorem args_of_reference {text id : List Char} {args : List (List Char)} {name : PluginName}
    (h : name.reference text = .ok (id, args)) : args = [] ∨ id = "kotlin".toList := by
  cases name with
  | kotlin name => exact .inr (Prod.mk.inj (Except.ok.inj h)).1.symm
  | bare spelling =>
    rw [PluginName.reference] at h
    split at h
    · cases h
    · exact .inl (Prod.mk.inj (Except.ok.inj h)).2.symm
  | literal _ | catalog _ | backtick _ => exact .inl (Prod.mk.inj (Except.ok.inj h)).2.symm

/-- An entry has arguments only where it names a plugin of the Kotlin library. -/
theorem args_of_pluginEntry {text : List Char} {entry : PluginEntry}
    (h : pluginEntry text = .ok entry) : entry.args = [] ∨ entry.id = "kotlin".toList := by
  rcases exists_of_pluginEntry h with happlied | ⟨name, rest, -, hreference, -⟩
  · exact .inl (args_of_applyStatement? happlied)
  · exact args_of_reference hreference

theorem args_of_namesPlugin {unit : SourceUnit} {place : Place} {entry : PluginEntry}
    (h : NamesPlugin unit place entry) : entry.args = [] ∨ entry.id = "kotlin".toList := by
  cases h with
  | entry _ _ h => exact args_of_pluginEntry h
  | call _ _ h => exact .inl (args_of_pluginCall? h)
  | applied _ _ _ h => exact .inl (args_of_applyStatement? h)

/-- Of the plugins that are found in files only those of the Kotlin library have arguments. -/
theorem args_eq_nil_of_mem {units : List SourceUnit}
    (h : record ∈ (Findings.join (units.map pluginsOf)).contents) (hid : record.id ≠ "kotlin") :
    record.args = [] := by
  obtain ⟨unit, -, hmem⟩ := Findings.mem_contents_join.mp h
  rw [Findings.contents, values_pluginsOf] at hmem
  simp only [List.mem_map, List.mem_flatMap, Option.mem_toList] at hmem
  obtain ⟨_, ⟨place, _, entry, hentry, rfl⟩, rfl⟩ := hmem
  rcases args_of_namesPlugin (pluginAt?_eq_some_iff.mp hentry) with hargs | hkotlin
  · simp [foundAt, PluginEntry.record, hargs]
  · refine absurd ?_ hid
    simp [foundAt, PluginEntry.record, hkotlin]

/-- A plugin that is found is reported with its arguments if the first record of its key has
them. -/
theorem exists_mem_mergePlugins_iff (h : record ∈ found) :
    (∃ kept ∈ mergePlugins found, kept.key = record.key ∧ kept.args = record.args) ↔
      ∀ first, IsFirst found first → first.key = record.key → first.args = record.args := by
  have hmerged := mergedFrom_mergePlugins found
  constructor
  · rintro ⟨kept, hkept, hkey, hargs⟩ first hfirst hfirstKey
    obtain ⟨other, hother, hotherKey, -, hotherArgs, -⟩ := hmerged.fields kept hkept
    obtain rfl : first = other := hother.eq hfirst (by rw [hfirstKey, hotherKey, hkey])
    rw [← hotherArgs, hargs]
  · intro hargs
    obtain ⟨kept, hkept, hkey⟩ :=
      List.mem_map.mp ((hmerged.keys record.key).mpr (List.mem_map_of_mem h))
    obtain ⟨first, hfirst, hfirstKey, -, hfirstArgs, -⟩ := hmerged.fields kept hkept
    exact ⟨kept, hkept, hkey, by rw [hfirstArgs, hargs first hfirst (by rw [hfirstKey, hkey])]⟩

/-- For each plugin that is found there is a record of its module and identifier. There is one with
its arguments as well exactly where the first record of this module and identifier has these
arguments. Of the plugins that are found in files only those of the Kotlin library have arguments,
so all others are reported as they are named. -/
theorem plugin_kept_iff (project : Project) (findings : List (Finding PluginRecord)) :
    ∃ records, plugins.aggregate project findings = .ok records ∧ ∀ finding ∈ findings,
      (∃ record ∈ records, record.key = finding.value.key) ∧
      ((∃ record ∈ records, record.key = finding.value.key ∧ record.args = finding.value.args) ↔
        ∀ first, IsFirst (findings.map (·.value)) first → first.key = finding.value.key →
          first.args = finding.value.args) ∧
      ∀ units : List SourceUnit,
        findings = (Findings.join (units.map plugins.collect)).values →
          finding.value.id ≠ "kotlin" →
            ∃ record ∈ records, record.key = finding.value.key ∧
              record.args = finding.value.args := by
  refine ⟨_, rfl, fun finding hfinding => ?_⟩
  have hvalue : finding.value ∈ findings.map (·.value) := List.mem_map_of_mem hfinding
  refine ⟨?_, exists_mem_mergePlugins_iff hvalue, fun units hunits hid => ?_⟩
  · exact List.mem_map.mp
      (((mergedFrom_mergePlugins _).keys _).mpr (List.mem_map_of_mem hvalue))
  · refine (exists_mem_mergePlugins_iff hvalue).mpr fun first hfirst hkey => ?_
    have hfirstId : first.id ≠ "kotlin" := fun heq => hid ((Prod.mk.inj hkey).2.symm.trans heq)
    rw [hunits] at hvalue hfirst
    rw [args_eq_nil_of_mem hvalue hid, args_eq_nil_of_mem hfirst.mem hfirstId]

/-- A plugin of the Kotlin library that is named again is reported with its argument. -/
theorem repeated_kotlin_plugin_is_kept :
    let jvm : PluginRecord := ⟨".", "kotlin", some "1.9.0", ["jvm"], true, false⟩
    let findings : List (Finding PluginRecord) :=
      [⟨"gradle-plugin", "build.gradle.kts", ".", 2, jvm⟩,
        ⟨"gradle-plugin", "build.gradle.kts", ".", 7, { jvm with version := none }⟩]
    ∃ records, plugins.aggregate (.ofRoot "p" ⟨"p"⟩) findings = .ok records ∧
      ∀ finding ∈ findings, ∃ record ∈ records, record.key = finding.value.key ∧
        record.args = finding.value.args := by
  intro jvm findings
  have hargs : ∀ record ∈ findings.map (·.value), record.args = ["jvm"] := by decide
  obtain ⟨records, hrecords, hkept⟩ := plugin_kept_iff (.ofRoot "p" ⟨"p"⟩) findings
  refine ⟨records, hrecords, fun finding hfinding => ?_⟩
  refine (hkept finding hfinding).2.1.mpr fun first hfirst _ => ?_
  rw [hargs first hfirst.mem, hargs _ (List.mem_map_of_mem hfinding)]

/-- Of two plugins of the Kotlin library in one block only the first is reported. -/
theorem second_kotlin_plugin_is_lost :
    ∃ unit : SourceUnit, unit.language = .kotlin ∧ unit.module = "." ∧
      unit.source = "plugins \x7b\n    kotlin(\"jvm\")\n    kotlin(\"kapt\")\n\x7d\n".toList ∧
      Script.tree .kotlin unit.source = .ok unit.root ∧
      (plugins.collect unit).contents =
        [⟨".", "kotlin", none, ["jvm"], true, false⟩,
          ⟨".", "kotlin", none, ["kapt"], true, false⟩] ∧
      plugins.aggregate (.ofRoot "p" ⟨"p"⟩) (plugins.collect unit).values =
        .ok [⟨".", "kotlin", none, ["jvm"], true, false⟩] := by
  have htokens : Script.tokens .kotlin
      "plugins \x7b\n    kotlin(\"jvm\")\n    kotlin(\"kapt\")\n\x7d\n".toList = .ok
      [⟨.word, "plugins".toList, 0, 1⟩, ⟨.opening .curly, ['\x7b'], 8, 1⟩,
        ⟨.newline, ['\n'], 9, 1⟩, ⟨.word, "kotlin".toList, 14, 2⟩,
        ⟨.opening .round, ['('], 20, 2⟩, ⟨.string, "\"jvm\"".toList, 21, 2⟩,
        ⟨.closing .round, [')'], 26, 2⟩, ⟨.newline, ['\n'], 27, 2⟩,
        ⟨.word, "kotlin".toList, 32, 3⟩, ⟨.opening .round, ['('], 38, 3⟩,
        ⟨.string, "\"kapt\"".toList, 39, 3⟩, ⟨.closing .round, [')'], 45, 3⟩,
        ⟨.newline, ['\n'], 46, 3⟩, ⟨.closing .curly, ['\x7d'], 47, 4⟩,
        ⟨.newline, ['\n'], 48, 4⟩] := by
    decide +kernel
  have htree := Script.tree_eq_ok_iff.mpr ⟨_, _, htokens, rfl, rfl⟩
  refine ⟨⟨⟨"build.gradle.kts"⟩, "build.gradle.kts", ".", .kotlin, _, _⟩, rfl, rfl, rfl, htree, ?_,
    ?_⟩
  · decide +kernel
  · decide +kernel

end CorpusFacts.Gradle
