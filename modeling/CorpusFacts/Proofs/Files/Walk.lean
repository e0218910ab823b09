import CorpusFacts.Files.Walk
import CorpusFacts.Proofs.Files.Joining
import CorpusFacts.Proofs.Files.Soundness

/-!
# What a walk meets

A walk meets an entry if it goes into everything on the way to the entry and into the entry itself.
What it meets comes in ascending order of the names that lead there, so it meets no entry twice.
-/

namespace CorpusFacts

namespace Entry

/-- Whether a walk from an entry goes into everything on the way through some names, up to what they
lead to. -/
def Passes (enters : Met → Bool) (path : Path) (names : List String) (entry : Entry)
    (steps : List String) : Prop :=
  ∀ front inner, front <+: steps → front ≠ [] → entry.at? front = some inner →
    enters ⟨path.joins front, names ++ front, inner⟩ = true

variable {enters : Met → Bool} {path : Path} {names steps : List String} {name : String}
  {entry inner found : Entry} {entries : List (String × Entry)} {met : Met}

/-- The way through a directory starts with one of its entries. -/
theorem passes_directory_cons (hfound : find? name entries = some inner) :
    Passes enters path names (.directory entries) (name :: steps) ↔
      enters ⟨path.join name, names ++ [name], inner⟩ = true ∧
        Passes enters (path.join name) (names ++ [name]) inner steps := by
  constructor
  · intro h
    constructor
    · exact h [name] inner (by simp) (by simp) (by simp [at?, hfound])
    · intro front deeper hfront _ hdeeper
      have hstep := h (name :: front) deeper (List.cons_prefix_cons.mpr ⟨rfl, hfront⟩) (by simp)
        (by simpa [at?, hfound] using hdeeper)
      simpa [Path.joins, List.append_assoc] using hstep
  · rintro ⟨hfirst, hrest⟩ front deeper hfront hne hdeeper
    obtain ⟨other, front, rfl⟩ := List.exists_cons_of_ne_nil hne
    obtain ⟨rfl, hrestFront⟩ := List.cons_prefix_cons.mp hfront
    simp only [at?, hfound] at hdeeper
    cases front with
    | nil =>
      obtain rfl : inner = deeper := by simpa [at?] using hdeeper
      exact hfirst
    | cons next front =>
      have hstep := hrest (next :: front) deeper hrestFront (by simp) hdeeper
      simpa [Path.joins, List.append_assoc] using hstep

/-- What is met below some entries is one of those that the walk goes into, or is met below it. -/
theorem mem_walkEntries :
    met ∈ walkEntries enters path names entries ↔
      ∃ name inner, (name, inner) ∈ entries ∧
        enters ⟨path.join name, names ++ [name], inner⟩ = true ∧
        (met = ⟨path.join name, names ++ [name], inner⟩ ∨
          met ∈ inner.walk enters (path.join name) (names ++ [name])) := by
  induction entries with
  | nil => simp [walkEntries]
  | cons first rest ih =>
    obtain ⟨name, inner⟩ := first
    rw [walkEntries, List.mem_append, ih]
    constructor
    · rintro (h | ⟨other, deeper, hmem, h⟩)
      · split at h
        · rename_i henters
          exact ⟨name, inner, List.mem_cons_self .., henters, List.mem_cons.mp h⟩
        · cases h
      · exact ⟨other, deeper, List.mem_cons_of_mem _ hmem, h⟩
    · rintro ⟨other, deeper, hmem, henters, h⟩
      rcases List.mem_cons.mp hmem with heq | hmem
      · cases heq
        rw [if_pos henters]
        exact Or.inl (List.mem_cons.mpr h)
      · exact Or.inr ⟨other, deeper, hmem, henters, h⟩

/-- A walk through a sound entry meets what some names lead to if it passes on the way. -/
theorem mem_walk (hsound : entry.IsSound) :
    met ∈ entry.walk enters path names ↔
      ∃ steps found, steps ≠ [] ∧ entry.at? steps = some found ∧
        met = ⟨path.joins steps, names ++ steps, found⟩ ∧
        Passes enters path names entry steps := by
  induction hsound generalizing path names with
  | file =>
    simp only [walk, List.not_mem_nil, false_iff]
    rintro ⟨steps, found, hne, hfound, _⟩
    cases steps with
    | nil => exact hne rfl
    | cons name steps => simp [at?] at hfound
  | link =>
    simp only [walk, List.not_mem_nil, false_iff]
    rintro ⟨steps, found, hne, hfound, _⟩
    cases steps with
    | nil => exact hne rfl
    | cons name steps => simp [at?] at hfound
  | @directory entries hsorted _ _ ih =>
    rw [walk, mem_walkEntries]
    constructor
    · rintro ⟨name, inner, hmem, henters, hmet⟩
      have hinner := find?_of_mem hsorted hmem
      rcases hmet with rfl | hmet
      · refine ⟨[name], inner, by simp, by simp [at?, hinner], rfl, ?_⟩
        refine (passes_directory_cons hinner).mpr ⟨henters, ?_⟩
        rintro front deeper hfront hne
        exact absurd (List.prefix_nil.mp hfront) hne
      · obtain ⟨steps, found, _, hfound, rfl, hpasses⟩ := (ih name inner hmem).mp hmet
        refine ⟨name :: steps, found, by simp, by simpa [at?, hinner] using hfound, ?_,
          (passes_directory_cons hinner).mpr ⟨henters, hpasses⟩⟩
        simp [Path.joins]
    · rintro ⟨steps, found, hne, hfound, rfl, hpasses⟩
      obtain ⟨name, steps, rfl⟩ := List.exists_cons_of_ne_nil hne
      rw [at?] at hfound
      split at hfound
      · rename_i inner hinner
        have hmem := mem_of_find? hinner
        obtain ⟨henters, hrest⟩ := (passes_directory_cons hinner).mp hpasses
        refine ⟨name, inner, hmem, henters, ?_⟩
        cases steps with
        | nil =>
          obtain rfl : inner = found := by simpa [at?] using hfound
          exact Or.inl rfl
        | cons next steps =>
          refine Or.inr ((ih name inner hmem).mpr
            ⟨next :: steps, found, by simp, hfound, ?_, hrest⟩)
          simp [Path.joins]
      · cases hfound

/-- What is met in an entry of a directory has the name of the entry behind those of the
directory. -/
theorem names_of_met (hsound : inner.IsSound)
    (hmet : met = ⟨path.join name, names ++ [name], inner⟩ ∨
      met ∈ inner.walk enters (path.join name) (names ++ [name])) :
    ∃ steps, met.names = names ++ name :: steps := by
  rcases hmet with rfl | hmet
  · exact ⟨[], rfl⟩
  · obtain ⟨steps, found, _, _, rfl, _⟩ := (mem_walk hsound).mp hmet
    exact ⟨steps, by simp⟩

/-- What is met below some entries of a directory comes in ascending order of its names, if what is
met below each of them does. -/
theorem walkEntries_ascending (hsorted : (entries.map (·.1)).Pairwise (· < ·))
    (hsound : ∀ name inner, (name, inner) ∈ entries → inner.IsSound)
    (hascending : ∀ name inner, (name, inner) ∈ entries →
      ((inner.walk enters (path.join name) (names ++ [name])).map (·.names)).Pairwise (· < ·)) :
    ((walkEntries enters path names entries).map (·.names)).Pairwise (· < ·) := by
  induction entries with
  | nil => simp [walkEntries]
  | cons first rest ih =>
    obtain ⟨name, inner⟩ := first
    obtain ⟨hnew, hsorted⟩ := List.pairwise_cons.mp hsorted
    have hrest := ih hsorted
      (fun other deeper hmem => hsound other deeper (List.mem_cons_of_mem _ hmem))
      (fun other deeper hmem => hascending other deeper (List.mem_cons_of_mem _ hmem))
    have hinner := hsound name inner (List.mem_cons_self ..)
    rw [walkEntries, List.map_append]
    refine List.pairwise_append.mpr ⟨?_, hrest, ?_⟩
    · split
      · -- an entry comes before what is below it, whose names go on behind its own
        refine List.pairwise_cons.mpr ⟨fun below hbelow => ?_,
          hascending name inner (List.mem_cons_self ..)⟩
        obtain ⟨met, hmet, rfl⟩ := List.mem_map.mp hbelow
        obtain ⟨steps, found, hne, _, rfl, _⟩ := (mem_walk hinner).mp hmet
        obtain ⟨next, steps, rfl⟩ := List.exists_cons_of_ne_nil hne
        have hlonger : names ++ [name] ++ [] < names ++ [name] ++ next :: steps :=
          List.append_left_lt (List.nil_lt_cons next steps)
        rwa [List.append_nil] at hlonger
      · exact List.Pairwise.nil
    · -- names that go on with different entries are in the order of these
      intro before hbefore behind hbehind
      obtain ⟨met, hmet, rfl⟩ := List.mem_map.mp hbefore
      obtain ⟨twin, htwin, rfl⟩ := List.mem_map.mp hbehind
      obtain ⟨other, deeper, hmem, _, htwin⟩ := mem_walkEntries.mp htwin
      obtain ⟨twinSteps, htwinSteps⟩ :=
        names_of_met (hsound other deeper (List.mem_cons_of_mem _ hmem)) htwin
      have hmet : met = ⟨path.join name, names ++ [name], inner⟩ ∨
          met ∈ inner.walk enters (path.join name) (names ++ [name]) := by
        split at hmet
        · exact List.mem_cons.mp hmet
        · cases hmet
      obtain ⟨steps, hsteps⟩ := names_of_met hinner hmet
      rw [hsteps, htwinSteps]
      exact List.append_left_lt
        (List.cons_lt_cons_iff.mpr (Or.inl (hnew other (List.mem_map_of_mem (f := (·.1)) hmem))))

/-- A walk through a sound entry meets what is in it in ascending order of the names. -/
theorem walk_ascending (hsound : entry.IsSound) :
    ((entry.walk enters path names).map (·.names)).Pairwise (· < ·) := by
  induction hsound generalizing path names with
  | file => simp [walk]
  | link => simp [walk]
  | directory hsorted _ hentries ih =>
    rw [walk]
    exact walkEntries_ascending hsorted hentries fun name inner hmem => ih name inner hmem

end Entry

namespace FileTree

variable {tree : FileTree} {path : Path} {start : Entry}

/-- A walk from a path meets what lies at its start and below it, in ascending order of the
names. -/
theorem exists_walk (enters : Met → Bool) (hstart : tree.walkStart path = .ok start)
    (hsound : start.IsSound) :
    ∃ mets, tree.walk enters path = .ok mets ∧ (mets.map (·.names)).Pairwise (· < ·) ∧
      ∀ met, met ∈ mets ↔ ∃ names found, start.at? names = some found ∧
        met = ⟨path.joins names, names, found⟩ ∧ start.Passes enters path [] names := by
  refine ⟨_, by rw [walk, hstart]; rfl, ?_, fun met => ?_⟩
  · refine List.pairwise_cons.mpr ⟨fun below hbelow => ?_, Entry.walk_ascending hsound⟩
    obtain ⟨met, hmet, rfl⟩ := List.mem_map.mp hbelow
    obtain ⟨steps, found, hne, _, rfl, _⟩ := (Entry.mem_walk hsound).mp hmet
    obtain ⟨next, steps, rfl⟩ := List.exists_cons_of_ne_nil hne
    exact List.nil_lt_cons next steps
  · rw [List.mem_cons, Entry.mem_walk hsound]
    constructor
    · rintro (rfl | ⟨steps, found, _, hfound, rfl, hpasses⟩)
      · refine ⟨[], start, by simp [Entry.at?], rfl, ?_⟩
        exact fun front _ hfront hne => absurd (List.prefix_nil.mp hfront) hne
      · exact ⟨steps, found, hfound, rfl, hpasses⟩
    · rintro ⟨names, found, hfound, rfl, hpasses⟩
      cases names with
      | nil =>
        obtain rfl : start = found := by simpa [Entry.at?] using hfound
        exact Or.inl rfl
      | cons name names => exact Or.inr ⟨name :: names, found, by simp, hfound, rfl, hpasses⟩

end FileTree

end CorpusFacts
