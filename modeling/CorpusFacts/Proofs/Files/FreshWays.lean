import CorpusFacts.Proofs.Files.Settling

/-!
# Directories made behind a directory

A path may lead to a directory, through whatever links, and go on by names that nothing has yet.
Then the directories of those names are made, outermost first, and the tree changes nowhere else. So
there is a new place behind them where a file can be written.
-/

namespace CorpusFacts

/-- The innermost of the paths around some steps is their own, if the last of them is not idle. -/
theorem Path.exists_around_of_name {first last : List Char} {front before : List (List Char)}
    (hsteps : first :: front = before ++ [last]) (hlast : isIdle last = false) :
    ∃ outer, around first front = ofSegments (first :: front) :: outer := by
  induction front using List.reverseRecOn with
  | nil => exact ⟨[], around_nil first⟩
  | append_singleton front step _ =>
    obtain ⟨-, rfl⟩ : first :: front = before ∧ step = last := by
      rw [← List.cons_append] at hsteps
      simpa using List.append_inj' hsteps rfl
    exact ⟨_, by rw [around_concat, if_neg (by simp [hlast])]⟩

namespace FileTree

open Path (AreRuns)

variable {tree : FileTree} {path : Path} {location place : List String} {links : Nat}
  {first step last : List Char} {front steps idle before behind : List (List Char)}
  {followLast : Bool}

/-- Nothing lies on a way beyond the location it starts at. -/
def IsFresh (tree : FileTree) (location : List String) (steps : List (List Char)) : Prop :=
  ∀ spot ∈ spotsFrom location steps, spot = location ∨ tree.root.at? spot = none

/-! ## Resolving on a fresh way -/

/-- Steps through directories lead to the last of them. -/
theorem leads_of_directories
    (hway : ∀ spot ∈ spotsFrom location steps, tree.isDirectoryAt spot = true)
    (hshort : AreShort steps) :
    Leads tree true links location steps (placeFrom location steps) := by
  induction steps generalizing location with
  | nil => exact .here
  | cons step steps ih =>
    obtain ⟨hstep, hsteps⟩ := List.forall_mem_cons.mp hshort
    obtain ⟨hdirectory, hrest⟩ := List.forall_mem_cons.mp hway
    have hleads := ih hrest hsteps
    by_cases hidle : Path.isIdle step = true
    · rw [stepFrom_of_isIdle hidle] at hleads
      rw [placeFrom, List.foldl_cons, stepFrom_of_isIdle hidle]
      exact .stays hdirectory hidle hleads
    by_cases hparent : step = ['.', '.']
    · subst hparent
      exact .climbs hdirectory hleads
    · have hname : stepFrom location step = location ++ [String.ofList step] :=
        stepFrom_of_name (by simpa using hidle) hparent
      obtain ⟨entry, hentry, hplain⟩ :=
        exists_plain_of_isDirectoryAt (hrest _ (mem_spotsFrom_start _ _))
      rw [hname] at hleads hentry
      rw [placeFrom, List.foldl_cons, hname]
      exact .enters hdirectory ⟨by simpa using hidle, hparent, hstep⟩ hentry hplain hleads

/-- Steps that lead to a location lead on through the directories behind it. -/
theorem Leads.extend (h : Leads tree true links location before place)
    (hway : ∀ spot ∈ spotsFrom place behind, tree.isDirectoryAt spot = true)
    (hshort : AreShort behind) :
    Leads tree true links location (before ++ behind) (placeFrom place behind) := by
  obtain ⟨left, hleft⟩ := h.append
  exact hleft (fun _ => rfl) (leads_of_directories hway hshort)

/-- A name that a directory does not have is where steps end, unless more than slashes follow. -/
theorem resolveSteps_new {follow : List String → List (List Char) → Except FileFailure Place}
    (hdirectory : tree.isDirectoryAt location = true) (hname : IsNameStep step)
    (hnone : tree.root.at? (location ++ [String.ofList step]) = none) :
    tree.resolveSteps followLast follow location (step :: steps) =
      if steps.all (·.isEmpty) then .ok (.absent location (String.ofList step) (!steps.isEmpty))
      else .error .notFound := by
  rw [resolveSteps, if_neg (by simpa using hdirectory), if_neg (by simp [hname.notIdle]),
    if_neg (by simpa using hname.notParent), if_neg (by simpa using hname.short)]
  simp only [hnone]

/-- Nothing is found behind a name that a directory does not have. -/
theorem resolveSteps_fresh {follow : List String → List (List Char) → Except FileFailure Place}
    (hdirectory : tree.isDirectoryAt location = true) (hparent : ['.', '.'] ∉ steps)
    (hshort : AreShort steps) (hfresh : tree.IsFresh location steps)
    (hdown : placeFrom location steps ≠ location) (hlast : last ≠ []) :
    tree.resolveSteps followLast follow location (steps ++ [last]) = .error .notFound := by
  induction steps with
  | nil => exact absurd rfl hdown
  | cons step steps ih =>
    obtain ⟨hfirst, hparents⟩ := not_or.mp (List.mem_cons.not.mp hparent)
    obtain ⟨hstep, hsteps⟩ := List.forall_mem_cons.mp hshort
    by_cases hidle : Path.isIdle step = true
    · rw [List.cons_append, resolveSteps, if_neg (by simpa using hdirectory), if_pos hidle]
      rw [placeFrom, List.foldl_cons, stepFrom_of_isIdle hidle] at hdown
      refine ih hparents hsteps (fun spot hspot => hfresh spot ?_) hdown
      rw [spotsFrom, stepFrom_of_isIdle hidle]
      exact List.mem_cons_of_mem _ hspot
    · have hname : stepFrom location step = location ++ [String.ofList step] :=
        stepFrom_of_name (by simpa using hidle) (Ne.symm hfirst)
      have hspot : location ++ [String.ofList step] ∈ spotsFrom location (step :: steps) := by
        rw [spotsFrom, ← hname]
        exact List.mem_cons_of_mem _ (mem_spotsFrom_start _ _)
      have hnone := (hfresh _ hspot).resolve_left (by simp)
      rw [List.cons_append,
        resolveSteps_new hdirectory ⟨by simpa using hidle, Ne.symm hfirst, hstep⟩ hnone,
        if_neg (by simp [hlast])]

/-- A path is resolved from where its first steps lead. -/
theorem exists_resolve_of_leads (hresolvable : IsResolvable path)
    (hsegments : path.segments = before ++ behind)
    (hleads : Leads tree true maxLinks (tree.startOf path) before location)
    (hbehind : behind ≠ []) (followLast : Bool) :
    ∃ follow, tree.resolve path followLast =
      tree.resolveSteps followLast follow location behind := by
  obtain ⟨follow, hfollow⟩ := hleads.exists_resolveSteps followLast
  refine ⟨follow, ?_⟩
  rw [resolve, if_neg (by simpa using hresolvable.noNul),
    if_neg (by simpa using hresolvable.nonempty), hsegments]
  exact hfollow _ fun hnil => absurd hnil hbehind

/-! ## Spelled paths -/

/-- A spelled path leads where its steps lead. -/
theorem Leads.ofSegments (hruns : AreRuns (first :: front))
    (h : Leads tree true links (tree.startAt first) (first :: front) place) :
    Leads tree true links (tree.startOf (Path.ofSegments (first :: front)))
      (Path.ofSegments (first :: front)).segments place := by
  have hslashes : ∀ step ∈ first :: front, '/' ∉ step := fun step hstep => (hruns step hstep).1
  rw [startOf_ofSegments tree hslashes]
  by_cases hroot : first :: front = [[]]
  · obtain ⟨rfl, rfl⟩ := List.cons.inj hroot
    cases h with
    | stays hdirectory hidle hrest => exact .stays hdirectory hidle (.stays hdirectory hidle hrest)
    | enters _ hname => exact absurd hname.notIdle (by decide)
    | follows _ hname => exact absurd hname.notIdle (by decide)
    | stops _ hname => exact absurd hname.notIdle (by decide)
  · rwa [Path.segments_ofSegments (by simp) hroot hslashes]

/-- Steps lead where they lead without the idle ones at their end. -/
theorem Leads.dropIdleEnd (h : Leads tree true links location (first :: front) place) :
    Leads tree true links location (Path.dropIdleEnd (first :: front)) place := by
  induction front using List.reverseRecOn with
  | nil => exact h
  | append_singleton front step ih =>
    rw [Path.dropIdleEnd_concat]
    split
    · rename_i hidle
      rw [← List.cons_append] at h
      exact ih (h.of_append_idle hidle)
    · exact h

/-- The path of a directory that is there is taken. -/
theorem makeDirectory_of_canonical (h : tree.canonical path = .ok location) :
    tree.makeDirectory path = .error .alreadyExists := by
  obtain ⟨hresolvable, hleads⟩ := canonical_eq_ok_iff.mp h
  obtain ⟨spot, hspot, -⟩ := hleads.exists_unfollowed
  rw [makeDirectory, resolve_eq_existing_iff.mpr ⟨hresolvable, hspot⟩]
  rfl

/-- Nothing is made where the steps lead to a directory. -/
theorem makeNested_of_leads (hruns : AreRuns (first :: front))
    (hleads : Leads tree true maxLinks (tree.startAt first) (first :: front) location)
    (hdirectory : tree.isDirectoryAt location = true) :
    tree.makeNested (Path.around first front) = (tree, .ok ()) := by
  obtain ⟨rest, idle, hdrop, hfront, -, -⟩ := Path.exists_dropIdleEnd first front
  have hruns' : AreRuns (first :: rest) := fun step hstep => hruns step (by
    rw [hfront, ← List.cons_append]
    exact List.mem_append_left _ hstep)
  have hcanonical : tree.canonical (Path.ofSegments (first :: rest)) = .ok location := by
    rw [canonical_eq_ok_iff]
    refine ⟨isResolvable_ofSegments fun step hstep => (hruns' step hstep).2, .ofSegments hruns' ?_⟩
    rw [← hdrop]
    exact hleads.dropIdleEnd
  have haround := Path.ancestors_ofSegments fun step hstep => (hruns step hstep).1
  rw [hdrop, Path.ancestors] at haround
  rw [← haround, makeNested_of_error (makeDirectory_of_canonical hcanonical) (by simp),
    isDirectory, entry?, hcanonical]
  rw [isDirectoryAt] at hdirectory
  simp [hdirectory]

/-- A spelled path is resolved from where its first steps lead. -/
theorem exists_resolve_ofSegments (hruns : AreRuns (first :: front))
    (hsteps : first :: front = before ++ behind) (hroot : first :: front ≠ [[]])
    (hleads : Leads tree true maxLinks (tree.startAt first) before location)
    (hbehind : behind ≠ []) (followLast : Bool) :
    ∃ follow, tree.resolve (Path.ofSegments (first :: front)) followLast =
      tree.resolveSteps followLast follow location behind := by
  have hslashes : ∀ step ∈ first :: front, '/' ∉ step := fun step hstep => (hruns step hstep).1
  rw [← startOf_ofSegments tree hslashes] at hleads
  refine exists_resolve_of_leads (isResolvable_ofSegments fun step hstep => (hruns step hstep).2)
    ?_ hleads hbehind followLast
  rw [Path.segments_ofSegments (by simp) hroot hslashes, hsteps]

/-- Steps that end with a name are more than the root. -/
theorem ne_root_of_name (hsteps : first :: front = before ++ [step])
    (hidle : Path.isIdle step = false) : first :: front ≠ [[]] := by
  intro hroot
  rw [hsteps, List.append_eq_singleton_iff] at hroot
  rcases hroot with ⟨-, hstep⟩ | ⟨-, hstep⟩
  · exact absurd hidle (by rw [List.singleton_inj.mp hstep]; decide)
  · cases hstep

/-- A directory is made where the steps before its name lead. -/
theorem makeDirectory_new (hruns : AreRuns (first :: front))
    (hsteps : first :: front = before ++ [step])
    (hleads : Leads tree true maxLinks (tree.startAt first) before location)
    (hdirectory : tree.isDirectoryAt location = true) (hname : IsNameStep step)
    (hnone : tree.root.at? (location ++ [String.ofList step]) = none) :
    tree.makeDirectory (Path.ofSegments (first :: front)) =
      .ok (tree.put location (String.ofList step) (.directory [])) := by
  have hroot := ne_root_of_name hsteps hname.notIdle
  obtain ⟨follow, hfollow⟩ :=
    exists_resolve_ofSegments hruns hsteps hroot hleads (by simp) false
  rw [makeDirectory, hfollow, resolveSteps_new hdirectory hname hnone]
  rfl

/-! ## Making the directories of a fresh way -/

/-- What comes of making the directories of a way: all of them are there, and the tree has grown by
them only. -/
structure Opens (tree made : FileTree) (location : List String) (steps : List (List Char)) :
    Prop where
  /-- The tree grows on the way, behind the location it starts at. -/
  grows : tree.GrowsTo made (fun spot => spot ∈ spotsFrom location steps ∧ spot ≠ location)
    fun _ => False
  /-- Every location on the way has a directory. -/
  way : ∀ spot ∈ spotsFrom location steps, made.isDirectoryAt spot = true

/-- A way that ends where it starts, and never leads to a directory around, opens itself. -/
theorem opens_here (hdirectory : tree.isDirectoryAt location = true) (hparent : ['.', '.'] ∉ steps)
    (hhere : placeFrom location steps = location) : Opens tree tree location steps where
  grows := .refl _ _ _
  way spot hspot := by
    have hend := prefix_of_mem_spotsFrom hparent hspot
    rw [hhere] at hend
    rwa [hend.eq_of_length_le (start_prefix_of_mem_spotsFrom hparent hspot).length_le]

/-- An idle step at the end makes no difference to an open way. -/
theorem Opens.concat_idle {made : FileTree} (h : Opens tree made location steps)
    (hidle : Path.isIdle step = true) : Opens tree made location (steps ++ [step]) where
  grows := h.grows.mono (fun _ hspot => ⟨(mem_spotsFrom_concat_idle hidle).mpr hspot.1, hspot.2⟩)
    fun _ h => h
  way spot hspot := h.way spot ((mem_spotsFrom_concat_idle hidle).mp hspot)

/-- One more directory is put behind an open way. -/
theorem Opens.concat {made : FileTree} (h : Opens tree made location steps)
    (hname : IsNameStep step)
    (hnone : made.root.at? (placeFrom location steps ++ [String.ofList step]) = none)
    (hbelow : placeFrom location steps ++ [String.ofList step] ≠ location) :
    Opens tree (made.put (placeFrom location steps) (String.ofList step) (.directory [])) location
      (steps ++ [step]) := by
  have hplace := h.way _ (placeFrom_mem_spotsFrom _ _)
  have hput := growsTo_put_directory hplace hnone
  have hspots : ∀ spot, spot ∈ spotsFrom location (steps ++ [step]) ↔
      spot ∈ spotsFrom location steps ∨
        spot = placeFrom location steps ++ [String.ofList step] := by
    intro spot
    rw [mem_spotsFrom_append, spotsFrom, spotsFrom, stepFrom_of_name hname.notIdle hname.notParent]
    simp only [List.mem_cons, List.not_mem_nil, or_false]
    refine ⟨?_, ?_⟩
    · rintro (hspot | rfl | rfl)
      · exact Or.inl hspot
      · exact Or.inl (placeFrom_mem_spotsFrom _ _)
      · exact Or.inr rfl
    · rintro (hspot | rfl)
      · exact Or.inl hspot
      · exact Or.inr (Or.inr rfl)
  constructor
  · refine (h.grows.mono (fun spot hspot => ⟨(hspots spot).mpr (Or.inl hspot.1), hspot.2⟩)
      fun _ h => h).trans (hput.mono (fun spot hspot => ?_) fun _ h => h)
    rw [hspot]
    exact ⟨(hspots _).mpr (Or.inr rfl), hbelow⟩
  · intro spot hspot
    rcases (hspots spot).mp hspot with hspot | rfl
    · exact hput.isDirectoryAt (h.way spot hspot)
    · exact isDirectoryAt_put hplace _

/-- A fresh way is fresh up to each of its steps. -/
theorem IsFresh.of_append (h : tree.IsFresh location (steps ++ behind)) :
    tree.IsFresh location steps :=
  fun spot hspot => h spot (mem_spotsFrom_append.mpr (Or.inl hspot))

/-- Nothing has the name behind a fresh way, before and after its directories are made. -/
theorem Opens.at?_new {made : FileTree} (h : Opens tree made location steps)
    (hfresh : tree.IsFresh location (steps ++ [step])) (hname : IsNameStep step)
    (hparent : ['.', '.'] ∉ steps) :
    made.root.at? (placeFrom location steps ++ [String.ofList step]) = none ∧
      placeFrom location steps ++ [String.ofList step] ≠ location := by
  have hspot : placeFrom location steps ++ [String.ofList step] ∈
      spotsFrom location (steps ++ [step]) := by
    rw [← stepFrom_of_name hname.notIdle hname.notParent]
    exact mem_spotsFrom_append.mpr (Or.inr (List.mem_cons_of_mem _ (List.mem_singleton_self _)))
  have hlonger : ∀ spot ∈ spotsFrom location steps,
      spot.length ≤ (placeFrom location steps).length := by
    intro spot hmem
    exact (prefix_of_mem_spotsFrom hparent hmem).length_le
  have hbelow : placeFrom location steps ++ [String.ofList step] ≠ location := by
    intro heq
    have hlength := hlonger location (mem_spotsFrom_start _ _)
    have hsame := congrArg List.length heq
    rw [List.length_append, List.length_singleton] at hsame
    omega
  refine ⟨?_, hbelow⟩
  have hnone := (hfresh _ hspot).resolve_left hbelow
  rw [at?_eq_none_iff] at hnone ⊢
  rcases h.grows.faces (placeFrom location steps ++ [String.ofList step]) with heq | hmade | hwritten
  · rw [heq, hnone]
  · have hlength := hlonger _ hmade.1.1
    rw [List.length_append, List.length_singleton] at hlength
    omega
  · exact hwritten.1.elim

/-- Behind an open way the next directory is made, and then the way is open up to it. -/
theorem Opens.makeDirectory {made : FileTree} (h : Opens tree made location behind)
    (hruns : AreRuns (first :: front)) (hsteps : first :: front = before ++ (behind ++ [step]))
    (hleads : Leads tree true maxLinks (tree.startAt first) before location)
    (hparent : ['.', '.'] ∉ behind) (hshort : AreShort behind) (hname : IsNameStep step)
    (hfresh : tree.IsFresh location (behind ++ [step])) :
    made.makeDirectory (Path.ofSegments (first :: front)) =
        .ok (made.put (placeFrom location behind) (String.ofList step) (.directory [])) ∧
      Opens tree (made.put (placeFrom location behind) (String.ofList step) (.directory []))
        location (behind ++ [step]) := by
  obtain ⟨hnone, hbelow⟩ := h.at?_new hfresh hname hparent
  have hfront : Leads made true maxLinks (made.startAt first) (before ++ behind)
      (placeFrom location behind) := by
    rw [h.grows.startAt]
    exact (h.grows.leads hleads).extend h.way hshort
  exact ⟨makeDirectory_new hruns (by rw [hsteps, List.append_assoc]) hfront
    (h.way _ (placeFrom_mem_spotsFrom _ _)) hname hnone, h.concat hname hnone hbelow⟩

/-- A directory is missing where the way in front of its last step is not there yet. -/
theorem makeDirectory_fresh (hruns : AreRuns (first :: front))
    (hsteps : first :: front = before ++ (behind ++ [step]))
    (hleads : Leads tree true maxLinks (tree.startAt first) before location)
    (hdirectory : tree.isDirectoryAt location = true) (hparent : ['.', '.'] ∉ behind)
    (hshort : AreShort behind) (hfresh : tree.IsFresh location behind)
    (haway : placeFrom location behind ≠ location) (hname : IsNameStep step) :
    tree.makeDirectory (Path.ofSegments (first :: front)) = .error .notFound := by
  have hroot := ne_root_of_name (hsteps.trans (List.append_assoc ..).symm) hname.notIdle
  obtain ⟨follow, hresolve⟩ :=
    exists_resolve_ofSegments hruns hsteps hroot hleads (by simp) false
  rw [resolveSteps_fresh hdirectory hparent hshort hfresh haway
    (by rintro rfl; exact absurd hname.notIdle (by decide))] at hresolve
  rw [FileTree.makeDirectory, hresolve]
  rfl

/-- The directories of a fresh way are made behind the directory it starts at. -/
theorem exists_makeNested (hruns : AreRuns (first :: front))
    (hsteps : first :: front = before ++ behind)
    (hleads : Leads tree true maxLinks (tree.startAt first) before location)
    (hdirectory : tree.isDirectoryAt location = true) (hparent : ['.', '.'] ∉ behind)
    (hshort : AreShort behind) (hfresh : tree.IsFresh location behind) :
    ∃ made, tree.makeNested (Path.around first front) = (made, .ok ()) ∧
      Opens tree made location behind := by
  induction behind using List.reverseRecOn generalizing front with
  | nil =>
    rw [List.append_nil] at hsteps
    rw [← hsteps] at hleads
    exact ⟨tree, makeNested_of_leads hruns hleads hdirectory, opens_here hdirectory (by simp) rfl⟩
  | append_singleton behind step ih =>
    obtain ⟨hparents, hlast⟩ := not_or.mp (List.mem_append.not.mp hparent)
    have hshorts : AreShort behind := fun step hstep => hshort step (List.mem_append_left _ hstep)
    -- What is in front of the step is made first, unless the step is all there is.
    have hinner : ∀ outer, first :: outer = before ++ behind →
        ∃ made, tree.makeNested (Path.around first outer) = (made, .ok ()) ∧
          Opens tree made location behind := by
      intro outer houter
      have hruns : AreRuns (first :: outer) := fun inner hinner => hruns inner (by
        rw [hsteps, ← List.append_assoc, ← houter]
        exact List.mem_append_left _ hinner)
      exact ih hruns houter hparents hshorts hfresh.of_append
    by_cases hidle : Path.isIdle step = true
    · cases hwhole : before ++ behind with
      | nil =>
        obtain ⟨rfl, rfl⟩ := List.append_eq_nil_iff.mp hwhole
        have hstays : Leads tree true maxLinks (tree.startAt first) (first :: front) location := by
          cases hleads
          rw [hsteps]
          exact .stays hdirectory hidle .here
        exact ⟨tree, makeNested_of_leads hruns hstays hdirectory,
          (opens_here hdirectory (by simp) rfl).concat_idle hidle⟩
      | cons start outer =>
        rw [← List.append_assoc, hwhole, List.cons_append] at hsteps
        obtain ⟨rfl, rfl⟩ := List.cons.inj hsteps
        obtain ⟨made, hmade, hopens⟩ := hinner outer hwhole.symm
        rw [Path.around_concat, if_pos hidle]
        exact ⟨made, hmade, hopens.concat_idle hidle⟩
    · have hname : IsNameStep step := ⟨by simpa using hidle, by simpa [eq_comm] using hlast,
        hshort step (by simp)⟩
      by_cases hhere : placeFrom location behind = location
      · have hopens := opens_here hdirectory hparents hhere
        obtain ⟨hmade, hgrown⟩ :=
          hopens.makeDirectory hruns hsteps hleads hparents hshorts hname hfresh
        obtain ⟨outer, houter⟩ :=
          Path.exists_around_of_name (hsteps.trans (List.append_assoc ..).symm) hname.notIdle
        rw [houter, makeNested, hmade]
        exact ⟨_, rfl, hgrown⟩
      · have hbehind : behind ≠ [] := by rintro rfl; exact hhere rfl
        obtain ⟨start, outer, hwhole⟩ :=
          List.exists_cons_of_ne_nil (List.append_ne_nil_of_right_ne_nil before hbehind)
        have hmissing := makeDirectory_fresh hruns hsteps hleads hdirectory hparents hshorts
          hfresh.of_append hhere hname
        have hbelow {made : FileTree} (hopens : Opens tree made location behind) :=
          hopens.makeDirectory hruns hsteps hleads hparents hshorts hname hfresh
        rw [← List.append_assoc, hwhole, List.cons_append] at hsteps
        obtain ⟨rfl, rfl⟩ := List.cons.inj hsteps
        obtain ⟨made, hmade, hopens⟩ := hinner outer hwhole.symm
        obtain ⟨hlast, hgrown⟩ := hbelow hopens
        rw [Path.around_concat, if_neg hidle, ((makeNested_cons _ _ _).2 hmissing).2 (by rw [hmade]),
          hmade, makeNested, hlast]
        exact ⟨_, rfl, hgrown⟩

end FileTree

end CorpusFacts
