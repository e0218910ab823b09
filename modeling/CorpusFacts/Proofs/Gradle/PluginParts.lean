import CorpusFacts.Gradle.Plugins
import CorpusFacts.Proofs.Gradle.LineEndings
import CorpusFacts.Proofs.Gradle.Parts
import CorpusFacts.Proofs.Text.Splitting

/-!
# What plugins are read from

An entry names a plugin by a part of its text. So an identifier, a version or an argument has a line
feed only where the text of the entry has one.
-/

namespace CorpusFacts

namespace Text

variable {whole text rest : List Char}

theorem after?_subset {start : List Char} (h : after? start text = some rest)
    (htext : text ⊆ whole) : rest ⊆ whole := by
  rw [after?_eq_some_iff.mp h] at htext
  exact (List.append_subset.mp htext).2

theorem trimStart_subset (htext : text ⊆ whole) : trimStart text ⊆ whole :=
  fun _ hc => htext (List.dropWhile_subset _ hc)

theorem trim_subset (htext : text ⊆ whole) : trim text ⊆ whole := by
  intro c hc
  rw [trim, dropEndWhile, List.mem_reverse] at hc
  exact trimStart_subset htext (List.mem_reverse.mp (List.dropWhile_subset _ hc))

end Text

namespace Gradle

variable {whole text rest id : List Char}

theorem skipOpenAmongBlanks_subset (htext : text ⊆ whole) : skipOpenAmongBlanks text ⊆ whole :=
  Text.trimStart_subset (skipOpen_subset (Text.trimStart_subset htext))

theorem skipCloseAfterBlanks_subset (htext : text ⊆ whole) : skipCloseAfterBlanks text ⊆ whole := by
  have htrimmed := Text.trimStart_subset htext
  unfold skipCloseAfterBlanks
  split
  · rename_i heq
    rw [heq] at htrimmed
    exact (List.cons_subset.mp htrimmed).2
  · exact htrimmed

theorem quotedId?_subset (h : quotedId? text = some (id, rest)) (htext : text ⊆ whole) :
    id ⊆ whole ∧ rest ⊆ whole := by
  simp only [quotedId?, Option.bind_eq_bind, Option.bind_eq_some_iff, Option.pure_def,
    Option.some.injEq, Prod.mk.injEq] at h
  obtain ⟨body, hbody, ⟨found, behind⟩, hrun, after, hafter, rfl, rfl⟩ := h
  obtain ⟨hfound, hbehind⟩ := run?_subset hrun (afterChar?_subset hbody htext)
  exact ⟨hfound, afterChar?_subset hafter hbehind⟩

theorem lastId?_subset (h : lastId? text = some id) (htext : text ⊆ whole) : id ⊆ whole := by
  simp only [lastId?, Option.bind_eq_bind, Option.bind_eq_some_iff] at h
  obtain ⟨⟨found, behind⟩, hquoted, h⟩ := h
  split at h
  · obtain rfl := Option.some.inj h
    exact (quotedId?_subset hquoted htext).1
  · cases h

/-- The characters that entries add to those of a text. -/
def libraryText : List Char :=
  "kotlin".toList

/-- A plugin that is named by parts of a text. -/
structure PluginEntry.NamedIn (text : List Char) (entry : PluginEntry) : Prop where
  /-- The identifier is a part of the text, or that of the Kotlin library. -/
  id : entry.id ⊆ libraryText ++ text
  /-- The version stands on one line, whatever the text. -/
  version : ∀ version ∈ entry.version, '\n' ∉ version
  /-- The arguments are parts of the text. -/
  args : ∀ arg ∈ entry.args, arg ⊆ text

theorem PluginEntry.applied_namedIn (h : id ⊆ whole) : (PluginEntry.applied id).NamedIn whole :=
  ⟨List.subset_append_of_subset_right _ h, by simp [applied], by simp [applied]⟩

theorem applyStatement?_namedIn {entry : PluginEntry} (h : applyStatement? text = some entry)
    (htext : text ⊆ whole) : entry.NamedIn whole := by
  simp only [applyStatement?, Option.bind_eq_bind, Option.bind_eq_some_iff, Option.pure_def,
    Option.some.injEq] at h
  obtain ⟨keyword, hkeyword, plugin, hplugin, sign, hsign, id, hid, rfl⟩ := h
  have hkeywordIn := Text.after?_subset hkeyword (Text.trim_subset htext)
  have hpluginIn := Text.after?_subset hplugin (skipOpenAmongBlanks_subset hkeywordIn)
  have hsignIn := afterChar?_subset hsign (Text.trimStart_subset hpluginIn)
  exact PluginEntry.applied_namedIn (lastId?_subset hid (Text.trimStart_subset hsignIn))

theorem pluginCall?_namedIn {entry : PluginEntry} (h : pluginCall? text = some entry)
    (htext : text ⊆ whole) : entry.NamedIn whole := by
  simp only [pluginCall?, Option.bind_eq_bind, Option.bind_eq_some_iff, Option.pure_def,
    Option.some.injEq] at h
  obtain ⟨plugin, hplugin, id, hid, rfl⟩ := h
  have hpluginIn := Text.after?_subset hplugin htext
  exact PluginEntry.applied_namedIn (lastId?_subset hid (skipOpenAmongBlanks_subset hpluginIn))

/-- What names a plugin, in whatever way. -/
def PluginName.spelling : PluginName → List Char
  | literal id | kotlin id | catalog id | backtick id | bare id => id

/-- What is found, and what follows it, are made of the characters of a text. -/
def IsPart (whole : List Char) (found : PluginName × List Char) : Prop :=
  found.1.spelling ⊆ whole ∧ found.2 ⊆ whole

theorem literalName?_isPart {found : PluginName × List Char} (h : literalName? text = some found)
    (htext : text ⊆ whole) : IsPart whole found := by
  simp only [literalName?, Option.bind_eq_bind, Option.bind_eq_some_iff, Option.pure_def,
    Option.some.injEq] at h
  obtain ⟨keyword, hkeyword, ⟨id, behind⟩, hquoted, rfl⟩ := h
  obtain ⟨hid, hbehind⟩ := quotedId?_subset hquoted
    (skipOpenAmongBlanks_subset (Text.after?_subset hkeyword htext))
  exact ⟨hid, skipCloseAfterBlanks_subset hbehind⟩

theorem kotlinName?_isPart {found : PluginName × List Char} (h : kotlinName? text = some found)
    (htext : text ⊆ whole) : IsPart whole found := by
  simp only [kotlinName?, Option.bind_eq_bind, Option.bind_eq_some_iff, Option.pure_def,
    Option.some.injEq] at h
  obtain ⟨keyword, hkeyword, inner, hinner, ⟨name, behind⟩, hquoted, after, hafter, rfl⟩ := h
  have hkeywordIn := Text.after?_subset hkeyword htext
  have hinnerIn := afterChar?_subset hinner (Text.trimStart_subset hkeywordIn)
  obtain ⟨hname, hbehind⟩ := quotedId?_subset hquoted (Text.trimStart_subset hinnerIn)
  exact ⟨hname, afterChar?_subset hafter (Text.trimStart_subset hbehind)⟩

theorem catalogName?_isPart {found : PluginName × List Char} (h : catalogName? text = some found)
    (htext : text ⊆ whole) : IsPart whole found := by
  simp only [catalogName?, Option.bind_eq_bind, Option.bind_eq_some_iff, Option.pure_def,
    Option.some.injEq] at h
  obtain ⟨keyword, hkeyword, inner, hinner, ⟨accessor, behind⟩, hrun, after, hafter, rfl⟩ := h
  have hkeywordIn := Text.after?_subset hkeyword htext
  have hinnerIn := afterChar?_subset hinner (Text.trimStart_subset hkeywordIn)
  obtain ⟨haccessor, hbehind⟩ := run?_subset hrun (Text.trimStart_subset hinnerIn)
  exact ⟨haccessor, afterChar?_subset hafter (Text.trimStart_subset hbehind)⟩

theorem backtickName?_isPart {found : PluginName × List Char}
    (h : backtickName? text = some found) (htext : text ⊆ whole) : IsPart whole found := by
  simp only [backtickName?, Option.bind_eq_bind, Option.bind_eq_some_iff, Option.pure_def,
    Option.some.injEq] at h
  obtain ⟨inner, hinner, ⟨id, behind⟩, hrun, after, hafter, rfl⟩ := h
  obtain ⟨hid, hbehind⟩ := run?_subset hrun (afterChar?_subset hinner htext)
  exact ⟨hid, afterChar?_subset hafter hbehind⟩

/-- The parts of a bare identifier and what follows them are the text. -/
theorem bareParts_append (inPart : Bool) (text : List Char) :
    (bareParts inPart text).1 ++ (bareParts inPart text).2 = text := by
  fun_induction bareParts inPart text <;> simp_all

theorem bareName?_isPart {found : PluginName × List Char} (h : bareName? text = some found)
    (htext : text ⊆ whole) : IsPart whole found := by
  rw [← bareParts_append false text] at htext
  unfold bareName? at h
  split at h
  · cases h
  · rename_i heq
    cases h
    rw [heq] at htext
    exact List.append_subset.mp htext

theorem pluginName?_isPart {found : PluginName × List Char} (h : pluginName? text = some found)
    (htext : text ⊆ whole) : IsPart whole found := by
  have hfound {way : Option (PluginName × List Char)} (h : onOneLine way = some found) :
      way = some found := (Option.filter_eq_some_iff.mp h).1
  simp only [pluginName?, Option.orElse_eq_orElse, Option.orElse_eq_or, Option.or_eq_some_iff] at h
  rcases h with h | ⟨-, h | ⟨-, h | ⟨-, h | ⟨-, h⟩⟩⟩⟩
  · exact literalName?_isPart (hfound h) htext
  · exact kotlinName?_isPart (hfound h) htext
  · exact catalogName?_isPart (hfound h) htext
  · exact backtickName?_isPart (hfound h) htext
  · exact bareName?_isPart (hfound h) htext

theorem versionClause?_subset {version : List Char}
    (h : versionClause? text = some (version, rest)) (htext : text ⊆ whole) :
    version ⊆ whole := by
  simp only [versionClause?, Option.bind_eq_bind, Option.bind_eq_some_iff, Option.pure_def,
    Option.some.injEq, Prod.mk.injEq] at h
  obtain ⟨keyword, hkeyword, ⟨found, behind⟩, hversion, rfl, rfl⟩ := h
  have hkeywordIn := skipOpenAmongBlanks_subset (Text.after?_subset hkeyword htext)
  rw [Option.orElse_eq_orElse, Option.orElse_eq_or, Option.or_eq_some_iff] at hversion
  rcases hversion with hquoted | ⟨-, hrun⟩
  · exact (quotedText?_subset hquoted hkeywordIn).1
  · exact (run?_subset hrun hkeywordIn).1

/-- A clause is read right behind a blank or a dot, or later. -/
theorem laterClause?_cons {α : Type} (clause? : List Char → Option (α × List Char)) (c : Char)
    (text : List Char) :
    laterClause? clause? (c :: text) =
      match if Text.isBlank c || c == '.' then clause? text else none with
      | some (value, after) => some ([], value, after)
      | none =>
        match laterClause? clause? text with
        | some (before, value, after) => some (c :: before, value, after)
        | none => none := (rfl)

/-- A clause is read from the end of a text. -/
theorem exists_suffix_of_laterClause? {α : Type} {clause? : List Char → Option (α × List Char)}
    {before after : List Char} {value : α}
    (h : laterClause? clause? text = some (before, value, after)) :
    ∃ tail, tail <:+ text ∧ clause? tail = some (value, after) := by
  induction text generalizing before with
  | nil => cases h
  | cons c text ih =>
    rw [laterClause?_cons] at h
    cases hclause : if Text.isBlank c || c == '.' then clause? text else none with
    | some found =>
      rw [hclause] at h
      cases h
      have hfound := (Option.ite_none_right_eq_some.mp hclause).2
      exact ⟨text, List.suffix_cons c text, hfound⟩
    | none =>
      rw [hclause] at h
      cases hlater : laterClause? clause? text with
      | none =>
        rw [hlater] at h
        cases h
      | some found =>
        rw [hlater] at h
        cases h
        obtain ⟨tail, htail, hfound⟩ := ih hlater
        exact ⟨tail, htail.trans (List.suffix_cons c text), hfound⟩

/-- A version in a clause is a part of the text. -/
theorem firstClause?_subset {before version after : List Char}
    (h : firstClause? versionClause? text = some (before, version, after)) : version ⊆ text := by
  unfold firstClause? at h
  split at h
  · rename_i hclause
    cases h
    exact versionClause?_subset hclause (List.Subset.refl text)
  · obtain ⟨tail, htail, hclause⟩ := exists_suffix_of_laterClause? h
    exact versionClause?_subset hclause htail.subset

theorem reference_eq_ok {name : PluginName} {args : List (List Char)}
    (h : name.reference text = .ok (id, args)) (hname : name.spelling ⊆ whole) :
    id ⊆ libraryText ++ whole ∧ ∀ arg ∈ args, arg ⊆ whole := by
  cases name with
  | kotlin name =>
    cases h
    exact ⟨List.subset_append_left .., List.forall_mem_singleton.mpr hname⟩
  | bare spelling =>
    rw [PluginName.reference] at h
    split at h
    · cases h
    · cases h
      exact ⟨List.subset_append_of_subset_right _ hname, by simp⟩
  | literal spelling | catalog spelling | backtick spelling =>
    cases h
    exact ⟨List.subset_append_of_subset_right _ hname, by simp⟩

/-- An entry is an `apply` statement, or a name that refers to a plugin, with its version in a
clause behind it. -/
theorem exists_of_pluginEntry {entry : PluginEntry} (h : pluginEntry text = .ok entry) :
    applyStatement? (Text.trim text) = some entry ∨
      ∃ name rest, pluginName? (Text.trim text) = some (name, rest) ∧
        name.reference (Text.trim text) = .ok (entry.id, entry.args) ∧
        entry.version = (firstClause? versionClause? rest).map (·.2.1) := by
  simp only [pluginEntry] at h
  split at h
  · rename_i applied happlied
    obtain rfl := Except.ok.inj h
    exact Or.inl happlied
  · split at h
    · cases h
    · rename_i name rest hname
      cases hreference : name.reference (Text.trim text) with
      | error error =>
        rw [hreference] at h
        cases h
      | ok reference =>
        obtain ⟨id, args⟩ := reference
        rw [hreference] at h
        dsimp only [bind, Except.bind] at h
        split at h
        · cases h
          exact Or.inr ⟨name, rest, hname, hreference, rfl⟩
        · cases h

theorem pluginEntry_namedIn {entry : PluginEntry} (h : pluginEntry text = .ok entry)
    (htext : text ⊆ whole) : entry.NamedIn whole := by
  have htrimmed := Text.trim_subset htext
  rcases exists_of_pluginEntry h with happlied | ⟨name, rest, hname, hreference, hversion⟩
  · exact applyStatement?_namedIn happlied htrimmed
  · obtain ⟨hid, hargs⟩ := reference_eq_ok hreference (pluginName?_isPart hname htrimmed).1
    refine ⟨hid, fun version htold hmem => ?_, hargs⟩
    obtain ⟨⟨before, found, after⟩, hclause, rfl⟩ :=
      Option.map_eq_some_iff.mp (hversion.symm.trans htold)
    exact pluginName?_eq_some hname (firstClause?_subset hclause hmem)

/-- A statement names a plugin by a part of its text, in whatever block it stands. -/
theorem pluginIn_namedIn {block : Option Block} {entry : PluginEntry}
    (h : pluginIn block text = .ok (some entry)) (htext : text ⊆ whole) :
    entry.NamedIn whole := by
  simp only [pluginIn] at h
  split at h
  · cases hentry : pluginEntry text with
    | error error =>
      rw [hentry] at h
      cases h
    | ok found =>
      rw [hentry] at h
      cases h
      exact pluginEntry_namedIn hentry htext
  · exact pluginCall?_namedIn (Except.ok.inj h) htext
  · exact applyStatement?_namedIn (Except.ok.inj h) htext

end Gradle

end CorpusFacts
