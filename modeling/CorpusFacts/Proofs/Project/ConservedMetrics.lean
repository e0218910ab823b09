import CorpusFacts.Project.Metrics
import Mathlib.Data.List.Basic

/-!
# Metrics conserve what was measured

The sizes of sources are added up in a table with a row for each module that has any, and the rows
are then taken out in the order of the modules. Where the modules are distinct and the sources lie
in them, this adds every source to exactly one row, in whatever order the sources are read.
-/

namespace CorpusFacts

variable {α : Type}

/-! ## Totals -/

theorem totalOf_congr {count count' : α → Nat} {members : List α}
    (h : ∀ member ∈ members, count member = count' member) :
    totalOf count members = totalOf count' members := by
  induction members with
  | nil => rfl
  | cons member rest ih =>
    rw [List.forall_mem_cons] at h
    rw [totalOf, totalOf, h.1, ih h.2]

/-- The total of a list that was mapped. -/
theorem totalOf_map {β : Type} (count : β → Nat) (f : α → β) (members : List α) :
    totalOf count (members.map f) = totalOf (fun member => count (f member)) members := by
  induction members with
  | nil => rfl
  | cons member rest ih => rw [List.map_cons, totalOf, totalOf, ih]

/-- The order of the members does not matter to the total. -/
theorem totalOf_perm {count : α → Nat} {members members' : List α} (h : members.Perm members') :
    totalOf count members = totalOf count members' := by
  induction h with
  | nil => rfl
  | cons member _ ih => rw [totalOf, totalOf, ih]
  | swap first second rest => exact Nat.add_left_comm ..
  | trans _ _ ih₁ ih₂ => exact ih₁.trans ih₂

/-- The number of members is their total when each counts once. -/
theorem totalOf_one (members : List α) : totalOf (fun _ => 1) members = members.length := by
  induction members with
  | nil => rfl
  | cons member rest ih => rw [totalOf, ih, List.length_cons, Nat.add_comm]

/-- A total is that of the members with a property and that of the others. -/
theorem totalOf_filter_add (count : α → Nat) (p : α → Bool) (members : List α) :
    totalOf count (members.filter p) + totalOf count (members.filter fun member => !p member) =
      totalOf count members := by
  induction members with
  | nil => rfl
  | cons member rest ih =>
    cases hp : p member <;> simp only [List.filter_cons, hp, Bool.not_true, Bool.not_false,
      Bool.false_eq_true, if_true, if_false, totalOf] <;> omega

/-! ## The rows of a table -/

@[simp]
theorem module_count (row : MetricsRecord) (size : FileMetrics) :
    (row.count size).module = row.module := rfl

/-- The row of a module has its path. -/
@[simp]
theorem module_rowOf (table : List MetricsRecord) (module : String) :
    (rowOf table module).module = module := by
  rw [rowOf]
  cases hfind : table.find? (·.module == module) with
  | none => rfl
  | some row =>
    have hrow := List.find?_some hfind
    exact eq_of_beq hrow

theorem rowOf_cons (row : MetricsRecord) (rest : List MetricsRecord) (module : String) :
    rowOf (row :: rest) module = if row.module = module then row else rowOf rest module := by
  by_cases h : row.module = module <;> simp [rowOf, h]

/-- Counting a source changes the row of its module and no other. -/
theorem rowOf_countSource (finding : Finding FileMetrics) (table : List MetricsRecord)
    (module : String) :
    rowOf (countSource finding table) module =
      if finding.module = module then (rowOf table module).count finding.value
      else rowOf table module := by
  induction table with
  | nil =>
    rw [countSource, rowOf_cons, module_count, emptyRow]
    by_cases h : finding.module = module
    · rw [if_pos h, if_pos h, h]
      rfl
    · rw [if_neg h, if_neg h]
  | cons row rest ih =>
    rw [countSource]
    by_cases hown : row.module = finding.module
    · rw [if_pos (beq_iff_eq.2 hown), rowOf_cons, rowOf_cons, module_count, hown]
      split <;> rfl
    · rw [if_neg (mt beq_iff_eq.1 hown), rowOf_cons, rowOf_cons, ih]
      split_ifs with hrow hfinding
      · exact absurd (hrow.trans hfinding.symm) hown
      · rfl
      · rfl
      · rfl

/-- Taking out the row of one module leaves the rows of the others. -/
theorem rowOf_filter_ne {module other : String} (h : module ≠ other) (table : List MetricsRecord) :
    rowOf (table.filter (·.module != module)) other = rowOf table other := by
  induction table with
  | nil => rfl
  | cons row rest ih =>
    by_cases hrow : row.module = module
    · rw [List.filter_cons_of_neg (by simp [hrow]), ih, rowOf_cons, if_neg (hrow ▸ h)]
    · rw [List.filter_cons_of_pos (by simp [hrow]), rowOf_cons, rowOf_cons, ih]

/-! ## Adding up -/

/-- The findings of a module. -/
def ownFindings (findings : List (Finding FileMetrics)) (module : String) :
    List (Finding FileMetrics) :=
  findings.filter (·.module == module)

/-- The row that a module should have: all its findings together. -/
def sumRow (findings : List (Finding FileMetrics)) (module : String) : MetricsRecord where
  module := module
  files := (ownFindings findings module).length
  lines := totalOf (·.value.lines) (ownFindings findings module)
  symbols := totalOf (·.value.symbols) (ownFindings findings module)

/-- A row with all findings of some list added. -/
def MetricsRecord.addAll (row : MetricsRecord) (findings : List (Finding FileMetrics)) :
    MetricsRecord :=
  findings.foldl (fun row finding => row.count finding.value) row

/-- Adding findings one after another adds their number and their totals. -/
theorem MetricsRecord.addAll_eq (row : MetricsRecord) (findings : List (Finding FileMetrics)) :
    row.addAll findings = {
      module := row.module
      files := row.files + findings.length
      lines := row.lines + totalOf (·.value.lines) findings
      symbols := row.symbols + totalOf (·.value.symbols) findings } := by
  rw [addAll]
  induction findings generalizing row with
  | nil => rfl
  | cons finding rest ih =>
    rw [List.foldl_cons, ih]
    simp only [count, List.length_cons, totalOf, MetricsRecord.mk.injEq, true_and]
    omega

/-- Counting sources one after another adds to the row of a module those that are its own. -/
theorem rowOf_foldl_countSource (findings : List (Finding FileMetrics))
    (table : List MetricsRecord) (module : String) :
    rowOf (findings.foldl (fun table finding => countSource finding table) table) module =
      (rowOf table module).addAll (ownFindings findings module) := by
  induction findings generalizing table with
  | nil => rfl
  | cons finding rest ih =>
    rw [List.foldl_cons, ih, rowOf_countSource, ownFindings, ownFindings]
    by_cases h : finding.module = module
    · rw [if_pos h, List.filter_cons_of_pos (by simpa using h)]
      rfl
    · rw [if_neg h, List.filter_cons_of_neg (by simpa using h)]

/-- The row of a module is all its findings together. -/
theorem rowOf_countSources (findings : List (Finding FileMetrics)) (module : String) :
    rowOf (countSources findings) module = sumRow findings module := by
  have hempty : rowOf [] module = emptyRow module := rfl
  rw [countSources, rowOf_foldl_countSource, hempty, MetricsRecord.addAll_eq]
  simp only [emptyRow, sumRow, Nat.zero_add]

/-! ## Taking out -/

/-- There is a row for every module, with its path. -/
theorem map_module_takeRows (table : List MetricsRecord) (modules : List String) :
    (takeRows table modules).map (·.module) = modules := by
  induction modules generalizing table with
  | nil => rfl
  | cons module modules ih => rw [takeRows, List.map_cons, ih, module_rowOf]

/-- Where no module is listed twice, each gets its row. -/
theorem takeRows_eq_map {modules : List String} (h : modules.Nodup) (table : List MetricsRecord) :
    takeRows table modules = modules.map (rowOf table) := by
  induction modules generalizing table with
  | nil => rfl
  | cons module rest ih =>
    obtain ⟨hmodule, hrest⟩ := List.nodup_cons.1 h
    rw [takeRows, ih hrest, List.map_cons]
    congr 1
    refine List.map_congr_left fun other hother => rowOf_filter_ne ?_ table
    rintro rfl
    exact hmodule hother

/-- Where no module is listed twice, the row of each is all its findings together. -/
theorem metricsRows_eq_map {modules : List String} (h : modules.Nodup)
    (findings : List (Finding FileMetrics)) :
    metricsRows findings modules = modules.map (sumRow findings) := by
  rw [metricsRows, takeRows_eq_map h]
  exact List.map_congr_left fun module _ => rowOf_countSources findings module

/-! ## Conservation -/

/-- Findings in distinct modules, added up module by module, are all of them added up. -/
theorem totalOf_ownFindings (count : Finding FileMetrics → Nat) {modules : List String}
    (hmodules : modules.Nodup) {findings : List (Finding FileMetrics)}
    (hfindings : ∀ finding ∈ findings, finding.module ∈ modules) :
    totalOf (fun module => totalOf count (ownFindings findings module)) modules =
      totalOf count findings := by
  induction modules generalizing findings with
  | nil => rw [List.eq_nil_iff_forall_not_mem.2 fun f hf => List.not_mem_nil (hfindings f hf)]; rfl
  | cons module rest ih =>
    obtain ⟨hmodule, hrest⟩ := List.nodup_cons.1 hmodules
    let others := findings.filter fun finding => !(finding.module == module)
    have hothers : ∀ finding ∈ others, finding.module ∈ rest := by
      intro finding hfinding
      obtain ⟨hmem, hne⟩ := List.mem_filter.1 hfinding
      exact (List.mem_cons.1 (hfindings finding hmem)).resolve_left (by simpa using hne)
    -- The findings of a later module are among those that are left.
    have hown : ∀ other ∈ rest, ownFindings findings other = ownFindings others other := by
      intro other hother
      rw [ownFindings, ownFindings, List.filter_filter]
      refine List.filter_congr fun finding _ => ?_
      by_cases hfinding : finding.module = other
      · have hne : other ≠ module := by
          rintro rfl
          exact hmodule hother
        simp [hfinding, hne]
      · simp [hfinding]
    calc totalOf (fun module => totalOf count (ownFindings findings module)) (module :: rest)
        = totalOf count (ownFindings findings module) +
            totalOf (fun module => totalOf count (ownFindings findings module)) rest := rfl
      _ = totalOf count (ownFindings findings module) +
            totalOf (fun module => totalOf count (ownFindings others module)) rest := by
          congr 1
          exact totalOf_congr fun other hother => by rw [hown other hother]
      _ = totalOf count (ownFindings findings module) + totalOf count others := by
          rw [ih hrest hothers]
      _ = totalOf count findings := totalOf_filter_add count (·.module == module) findings

/-- The order of the findings does not matter to the row of a module. -/
theorem sumRow_perm {findings reordered : List (Finding FileMetrics)}
    (h : reordered.Perm findings) (module : String) :
    sumRow reordered module = sumRow findings module := by
  have hown : (ownFindings reordered module).Perm (ownFindings findings module) := h.filter _
  rw [sumRow, sumRow, hown.length_eq, totalOf_perm hown, totalOf_perm hown]

/-- Where the modules of a project are distinct and every source lies in one of them, there is
exactly one row for each module, that of the root first, with the number of its sources and the
totals of their lines and characters. Together the rows have every source once, and they are the
same in whatever order the sources are read. -/
theorem metrics_conserve {project : Project} {findings : List (Finding FileMetrics)}
    (hmodules : (rootModule :: project.modules.map (·.relative)).Nodup)
    (hfindings : ∀ finding ∈ findings,
      finding.module ∈ rootModule :: project.modules.map (·.relative)) :
    ∃ rows, metrics.aggregate project findings = .ok rows ∧
      rows.map (·.module) = rootModule :: project.modules.map (·.relative) ∧
      (∀ row ∈ rows, row = sumRow findings row.module) ∧
      totalOf (·.files) rows = findings.length ∧
      totalOf (·.lines) rows = totalOf (·.value.lines) findings ∧
      totalOf (·.symbols) rows = totalOf (·.value.symbols) findings ∧
      ∀ reordered : List (Finding FileMetrics), reordered.Perm findings →
        metrics.aggregate project reordered = .ok rows := by
  have hrows (findings : List (Finding FileMetrics)) := metricsRows_eq_map hmodules findings
  refine ⟨_, congrArg Except.ok (hrows findings), ?_, ?_, ?_, ?_, ?_, fun reordered hperm => ?_⟩
  · rw [List.map_map]
    exact List.map_id _
  · intro row hrow
    obtain ⟨module, _, rfl⟩ := List.mem_map.1 hrow
    rfl
  · rw [totalOf_map, ← totalOf_one findings, ← totalOf_ownFindings _ hmodules hfindings]
    exact totalOf_congr fun module _ => (totalOf_one _).symm
  · rw [totalOf_map]
    exact totalOf_ownFindings _ hmodules hfindings
  · rw [totalOf_map]
    exact totalOf_ownFindings _ hmodules hfindings
  · refine congrArg Except.ok ((hrows reordered).trans ?_)
    exact List.map_congr_left fun module _ => sumRow_perm hperm module

/-- Three sources in the root and in one of two modules: a row for each of the three places, in the
order of the modules. -/
theorem metrics_conserve_two_modules :
    let project : Project :=
      { Project.ofRoot "demo" ⟨"demo"⟩ with
        modules := [⟨"app", ⟨"demo/app"⟩⟩, ⟨"docs", ⟨"demo/docs"⟩⟩] }
    let measured (module : String) (lines symbols : Nat) : Finding FileMetrics :=
      ⟨"file-metrics", "Main.kt", module, 1, ⟨lines, symbols⟩⟩
    let findings := [measured "app" 10 200, measured "." 2 20, measured "app" 5 50]
    (rootModule :: project.modules.map (·.relative)).Nodup ∧
      (∀ finding ∈ findings, finding.module ∈ rootModule :: project.modules.map (·.relative)) ∧
      ∃ rows, metrics.aggregate project findings = .ok rows ∧
        rows = [⟨".", 1, 2, 20⟩, ⟨"app", 2, 15, 250⟩, ⟨"docs", 0, 0, 0⟩] ∧
        totalOf (·.files) rows = findings.length ∧
        metrics.aggregate project findings.reverse = .ok rows := by
  intro project measured findings
  have hmodules : (rootModule :: project.modules.map (·.relative)).Nodup := by decide
  have hfindings : ∀ finding ∈ findings,
      finding.module ∈ rootModule :: project.modules.map (·.relative) := by decide
  obtain ⟨rows, hrows, _, _, hfiles, _, _, hreordered⟩ := metrics_conserve hmodules hfindings
  have hvalue : metrics.aggregate project findings =
      .ok [⟨".", 1, 2, 20⟩, ⟨"app", 2, 15, 250⟩, ⟨"docs", 0, 0, 0⟩] := by decide
  refine ⟨hmodules, hfindings, rows, hrows, ?_, hfiles, hreordered _ findings.reverse_perm⟩
  rw [hvalue] at hrows
  exact (Except.ok.inj hrows).symm

end CorpusFacts
