import CorpusFacts.Gradle.Declaration
import Mathlib.Data.List.TakeDrop

/-!
# What declarations are read from

A reader of a declaration takes a text apart, so what it gives back is made of the characters of the
text. Declarations are read without blanks. So whatever text declares them, coordinates hold no
blank, and no line feed in particular.
-/

namespace CorpusFacts.Gradle

variable {p : Char → Bool} {whole text value rest taken : List Char}

theorem run?_subset (h : run? p text = some (taken, rest)) (htext : text ⊆ whole) :
    taken ⊆ whole ∧ rest ⊆ whole := by
  rw [run?, List.span_eq_takeWhile_dropWhile] at h
  split at h
  · cases h
  · rename_i heq
    obtain ⟨rfl, rfl⟩ : _ ∧ _ := by simpa using h
    obtain ⟨rfl, rfl⟩ := Prod.mk.inj heq
    exact ⟨fun c hc => htext (List.takeWhile_subset p hc),
      fun c hc => htext (List.dropWhile_subset p hc)⟩

theorem afterChar?_subset (h : afterChar? p text = some rest) (htext : text ⊆ whole) :
    rest ⊆ whole := by
  cases text with
  | nil => cases h
  | cons c text =>
    rw [afterChar?] at h
    split at h
    · obtain rfl := Option.some.inj h
      exact (List.cons_subset.mp htext).2
    · cases h

theorem skipOpen_subset (htext : text ⊆ whole) : skipOpen text ⊆ whole := by
  unfold skipOpen
  split
  · exact (List.cons_subset.mp htext).2
  · exact htext

theorem afterKeyword?_subset {keyword : List Char} (h : afterKeyword? keyword text = some rest)
    (htext : text ⊆ whole) : rest ⊆ whole := by
  induction keyword generalizing text with
  | nil => exact (Option.some.inj h) ▸ htext
  | cons k keyword ih =>
    cases text with
    | nil => cases h
    | cons c text =>
      rw [afterKeyword?] at h
      split at h
      · exact ih h (List.cons_subset.mp htext).2
      · cases h

theorem quotedText?_subset (h : quotedText? text = some (value, rest)) (htext : text ⊆ whole) :
    value ⊆ whole ∧ rest ⊆ whole := by
  simp only [quotedText?, Option.bind_eq_bind, Option.bind_eq_some_iff, Option.pure_def,
    List.span_eq_takeWhile_dropWhile, Option.some.injEq, Prod.mk.injEq] at h
  obtain ⟨body, hbody, after, hafter, rfl, rfl⟩ := h
  have hsub := afterChar?_subset hbody htext
  exact ⟨fun c hc => hsub (List.takeWhile_subset _ hc),
    afterChar?_subset hafter fun c hc => hsub (List.dropWhile_subset _ hc)⟩

theorem quotedValue?_subset (h : quotedValue? text = some (value, rest)) (htext : text ⊆ whole) :
    value ⊆ whole ∧ rest ⊆ whole := by
  simp only [quotedValue?, Option.bind_eq_bind, Option.bind_eq_some_iff, Option.pure_def,
    Option.some.injEq, Prod.mk.injEq] at h
  obtain ⟨body, hbody, ⟨found, behind⟩, hrun, after, hafter, rfl, rfl⟩ := h
  obtain ⟨hfound, hbehind⟩ := run?_subset hrun (afterChar?_subset hbody htext)
  exact ⟨hfound, afterChar?_subset hafter hbehind⟩

/-- Several quoted texts are one at the end of the declaration, or one with more behind a comma. -/
theorem exists_of_quotedTexts? {count : Nat} {values : List (List Char)}
    (h : quotedTexts? (count + 1) text = some values) :
    ∃ first behind, quotedText? text = some (first, behind) ∧
      (isClosed behind = true ∧ values = [first] ∨
        ∃ next more, afterChar? (· == ',') behind = some next ∧
          quotedTexts? count next = some more ∧ values = first :: more) := by
  simp only [quotedTexts?, Option.bind_eq_bind, Option.bind_eq_some_iff] at h
  obtain ⟨⟨first, behind⟩, hfirst, h⟩ := h
  refine ⟨first, behind, hfirst, ?_⟩
  split at h
  · rename_i hclosed
    exact Or.inl ⟨hclosed, (Option.some.inj h).symm⟩
  · simp only [Option.bind_eq_some_iff, Option.pure_def, Option.some.injEq] at h
    obtain ⟨next, hnext, more, hmore, hvalues⟩ := h
    exact Or.inr ⟨next, more, hnext, hmore, hvalues.symm⟩

theorem quotedTexts?_subset {count : Nat} {values : List (List Char)}
    (h : quotedTexts? count text = some values) (htext : text ⊆ whole) :
    ∀ value ∈ values, value ⊆ whole := by
  induction count generalizing text values with
  | zero => cases h
  | succ count ih =>
    obtain ⟨first, behind, hfirst, hvalues⟩ := exists_of_quotedTexts? h
    obtain ⟨hvalue, hbehind⟩ := quotedText?_subset hfirst htext
    rcases hvalues with ⟨-, rfl⟩ | ⟨next, more, hnext, hmore, rfl⟩
    · exact List.forall_mem_singleton.mpr hvalue
    · exact List.forall_mem_cons.mpr ⟨hvalue, ih hmore (afterChar?_subset hnext hbehind)⟩

theorem wordWithTexts?_subset {word : List Char} {values : List (List Char)}
    (h : wordWithTexts? text = some (word, values)) (htext : text ⊆ whole) :
    ∀ value ∈ values, value ⊆ whole := by
  simp only [wordWithTexts?, Option.bind_eq_bind, Option.bind_eq_some_iff, Option.pure_def,
    Option.some.injEq, Prod.mk.injEq] at h
  obtain ⟨⟨found, behind⟩, hrun, texts, htexts, _, rfl⟩ := h
  exact quotedTexts?_subset htexts (skipOpen_subset (run?_subset hrun htext).2)

theorem shortVersion?_subset (h : shortVersion? text = some (some value))
    (htext : text ⊆ whole) : value ⊆ whole := by
  simp only [shortVersion?, List.span_eq_takeWhile_dropWhile] at h
  have hrest : text.dropWhile isSeparator ⊆ whole :=
    fun c hc => htext (List.dropWhile_subset _ hc)
  split at h
  · rename_i heq
    split at h
    · obtain rfl : _ = value := by simpa using h
      rw [← (Prod.mk.inj heq).1]
      exact fun c hc => hrest (List.takeWhile_subset _ hc)
    · cases h
  · split at h
    · cases h
    · split at h
      · split at h <;> cases h
      · rename_i hseparators
        split at h
        · -- the colon is one of the separators
          obtain rfl : [':'] = value := by simpa using h
          have hcolon : ':' ∈ text.takeWhile isSeparator := by
            rw [← List.mem_reverse, hseparators]
            simp
          simpa using htext (List.takeWhile_subset _ hcolon)
        · cases h
      · cases h
  · cases h

/-- A group, an artifact and a version that are made of some characters. -/
structure MadeOf (characters group artifact : List Char) (version : Option (List Char)) : Prop where
  /-- The group is. -/
  group : group ⊆ characters
  /-- The artifact is. -/
  artifact : artifact ⊆ characters
  /-- The version is, where there is one. -/
  version : ∀ text ∈ version, text ⊆ characters

theorem shortNotation?_madeOf {found : Notation} (h : shortNotation? text = some found)
    (htext : text ⊆ whole) : MadeOf whole found.group found.artifact found.version := by
  simp only [shortNotation?, Option.bind_eq_bind, Option.bind_eq_some_iff, Option.pure_def,
    Option.some.injEq] at h
  obtain ⟨⟨_, rest⟩, hword, body, hbody, ⟨group, behind⟩, hgroup, ⟨_, after⟩, hseparators,
    ⟨artifact, last⟩, hartifact, version, hversion, rfl⟩ := h
  have hopen := skipOpen_subset (run?_subset hword htext).2
  obtain ⟨hgroupIn, hbehind⟩ := run?_subset hgroup (afterChar?_subset hbody hopen)
  obtain ⟨-, hafter⟩ := run?_subset hseparators hbehind
  obtain ⟨hartifactIn, hlast⟩ := run?_subset hartifact hafter
  refine ⟨hgroupIn, hartifactIn, ?_⟩
  rintro value rfl
  exact shortVersion?_subset hversion hlast

theorem splitWord_eq {keyword : String} {word first behind : List Char}
    (h : wordBeforeKeyword?.splitWord keyword word behind = some (first, rest)) :
    rest = behind := by
  simp only [wordBeforeKeyword?.splitWord] at h
  split at h
  · cases h
  · split at h
    · exact (Prod.mk.inj (Option.some.inj h)).2.symm
    · cases h

theorem wordBeforeKeyword?_subset {keyword : String} {word : List Char}
    (h : wordBeforeKeyword? keyword text = some (word, rest)) (htext : text ⊆ whole) :
    rest ⊆ whole := by
  simp only [wordBeforeKeyword?, Option.bind_eq_bind, Option.bind_eq_some_iff] at h
  obtain ⟨⟨found, behind⟩, hrun, h⟩ := h
  have hbehind := (run?_subset hrun htext).2
  dsimp only at h
  split at h
  · split at h
    · rename_i hkeyword
      obtain ⟨_, rfl⟩ := Prod.mk.inj (Option.some.inj h)
      exact afterKeyword?_subset hkeyword (List.cons_subset.mp hbehind).2
    · exact splitWord_eq h ▸ hbehind
  · exact splitWord_eq h ▸ hbehind

theorem namedValue?_subset {name : String} (h : namedValue? name text = some (value, rest))
    (htext : text ⊆ whole) : value ⊆ whole ∧ rest ⊆ whole := by
  simp only [namedValue?, Option.bind_eq_bind, Option.bind_eq_some_iff] at h
  obtain ⟨named, hnamed, body, hbody, hvalue⟩ := h
  exact quotedValue?_subset hvalue (afterChar?_subset hbody (afterKeyword?_subset hnamed htext))

theorem mapNotation?_madeOf {found : Notation} (h : mapNotation? text = some found)
    (htext : text ⊆ whole) : MadeOf whole found.group found.artifact found.version := by
  simp only [mapNotation?, Option.bind_eq_bind, Option.bind_eq_some_iff] at h
  obtain ⟨⟨_, rest⟩, hword, body, hbody, ⟨group, behind⟩, hgroup, next, hnext,
    ⟨artifact, last⟩, hartifact, h⟩ := h
  have hbodyIn := afterChar?_subset hbody (wordBeforeKeyword?_subset hword htext)
  obtain ⟨hgroupIn, hbehind⟩ := quotedValue?_subset hgroup hbodyIn
  obtain ⟨hartifactIn, hlast⟩ :=
    namedValue?_subset hartifact (afterChar?_subset hnext hbehind)
  split at h
  · obtain rfl := Option.some.inj h
    exact ⟨hgroupIn, hartifactIn, by simp⟩
  · simp only [Option.bind_eq_some_iff] at h
    obtain ⟨tail, htail, ⟨version, final⟩, hversion, h⟩ := h
    split at h
    · obtain rfl := Option.some.inj h
      refine ⟨hgroupIn, hartifactIn, ?_⟩
      rintro value ⟨⟩
      exact (namedValue?_subset hversion (afterChar?_subset htail hlast)).1
    · cases h

/-- The characters that the Kotlin notation adds to those of a text. -/
def kotlinText : List Char :=
  "org.jetbrains.kotlin-".toList

theorem kotlinNotation?_madeOf {found : Notation} (h : kotlinNotation? text = some found)
    (hkotlin : kotlinText ⊆ whole) (htext : text ⊆ whole) :
    MadeOf whole found.group found.artifact found.version := by
  simp only [kotlinNotation?, Option.bind_eq_bind, Option.bind_eq_some_iff] at h
  obtain ⟨⟨_, rest⟩, hword, body, hbody, ⟨name, behind⟩, hname, h⟩ := h
  have hbodyIn := afterChar?_subset hbody (wordBeforeKeyword?_subset hword htext)
  obtain ⟨hnameIn, hbehind⟩ := quotedValue?_subset hname hbodyIn
  have hgroup : "org.jetbrains.kotlin".toList ⊆ whole := by
    have hkotlinText : "org.jetbrains.kotlin".toList ⊆ kotlinText := by decide
    exact fun c hc => hkotlin (hkotlinText hc)
  have hartifact : "kotlin-".toList ++ name ⊆ whole := by
    have hkotlinText : "kotlin-".toList ⊆ kotlinText := by decide
    exact List.append_subset.mpr ⟨fun c hc => hkotlin (hkotlinText hc), hnameIn⟩
  split at h
  · obtain rfl := Option.some.inj h
    exact ⟨hgroup, hartifact, by simp⟩
  · simp only [Option.bind_eq_some_iff] at h
    obtain ⟨next, hnext, ⟨version, final⟩, hversion, h⟩ := h
    have hnextIn := afterChar?_subset hnext hbehind
    have hvalueIn : (afterKeyword? "version=".toList next).getD next ⊆ whole := by
      cases hkeyword : afterKeyword? "version=".toList next with
      | none => exact hnextIn
      | some after => exact afterKeyword?_subset hkeyword hnextIn
    split at h
    · obtain rfl := Option.some.inj h
      refine ⟨hgroup, hartifact, ?_⟩
      rintro value ⟨⟩
      exact (quotedValue?_subset hversion hvalueIn).1
    · cases h

theorem coordinatesIn_eq_ok {configuration : String} {coordinates : Coordinates}
    (h : coordinatesIn configuration value = .ok coordinates) (hvalue : value ⊆ whole) :
    coordinates.configuration = configuration ∧
      MadeOf whole coordinates.group coordinates.artifact coordinates.version := by
  simp only [coordinatesIn, List.span_eq_takeWhile_dropWhile] at h
  have hgroup : value.takeWhile (· != ':') ⊆ whole :=
    fun c hc => hvalue (List.takeWhile_subset _ hc)
  have hrest : (value.dropWhile (· != ':')).drop 1 ⊆ whole :=
    fun c hc => hvalue (List.dropWhile_subset _ (List.drop_subset _ _ hc))
  split at h
  · cases h
  · obtain rfl := Except.ok.inj h
    refine ⟨rfl, hgroup, fun c hc => hrest (List.takeWhile_subset _ hc), ?_⟩
    dsimp only
    split
    · simp
    · rintro version ⟨⟩
      exact fun c hc => hrest (List.dropWhile_subset _ (List.drop_subset _ _ hc))

/-- What steps give for a list is what they give for its members. -/
theorem exists_of_mem_mapM_ok {ε α β : Type} {f : α → Except ε β} {as : List α} {bs : List β}
    (h : as.mapM f = .ok bs) : ∀ b ∈ bs, ∃ a ∈ as, f a = .ok b := by
  induction as generalizing bs with
  | nil =>
    cases h
    simp
  | cons a as ih =>
    rw [List.mapM_cons] at h
    cases ha : f a with
    | error error =>
      rw [ha] at h
      cases h
    | ok first =>
      rw [ha] at h
      cases hrest : as.mapM f with
      | error error =>
        rw [hrest] at h
        cases h
      | ok rest =>
        rw [hrest] at h
        cases h
        rw [List.forall_mem_cons]
        refine ⟨⟨a, List.mem_cons_self .., ha⟩, fun b hb => ?_⟩
        obtain ⟨source, hsource, hread⟩ := ih hrest b hb
        exact ⟨source, List.mem_cons_of_mem a hsource, hread⟩

/-- What coordinates in a declaration are made of: one of the configurations, and characters of the
text and of those that the Kotlin notation adds. -/
structure Coordinates.DeclaredIn (text : List Char) (coordinates : Coordinates) : Prop where
  /-- The configuration is in its usual spelling. -/
  configuration : coordinates.configuration ∈ configurations
  /-- The parts are read from the text, as far as they are not part of the notation. -/
  parts : MadeOf (kotlinText ++ text) coordinates.group coordinates.artifact coordinates.version

/-- The members of a list of coordinates are each read from one of its texts. -/
theorem exists_of_mem_coordinateList? {list : List Coordinates} {coordinates : Coordinates}
    (h : coordinateList? text = some (.ok list)) (hmem : coordinates ∈ list) :
    ∃ word values configuration, wordWithTexts? text = some (word, values) ∧
      configuration? word = some configuration ∧
      ∃ value ∈ values, coordinatesIn configuration value = .ok coordinates := by
  simp only [coordinateList?, Option.bind_eq_bind, Option.bind_eq_some_iff] at h
  obtain ⟨⟨word, values⟩, hword, h⟩ := h
  split at h
  · cases h
  · split at h
    · obtain rfl : [] = list := by simpa using h
      cases hmem
    · rename_i configuration hconfiguration
      obtain ⟨value, hvalue, hread⟩ := exists_of_mem_mapM_ok (Option.some.inj h) coordinates hmem
      exact ⟨word, values, configuration, hword, hconfiguration, value, hvalue, hread⟩

theorem coordinateList?_declaredIn {list : List Coordinates}
    (h : coordinateList? text = some (.ok list)) :
    ∀ coordinates ∈ list, coordinates.DeclaredIn text := by
  intro coordinates hmem
  obtain ⟨word, values, configuration, hword, hconfiguration, value, hvalue, hread⟩ :=
    exists_of_mem_coordinateList? h hmem
  have hvalueIn := wordWithTexts?_subset hword (List.subset_append_right kotlinText text)
  obtain ⟨rfl, hparts⟩ := coordinatesIn_eq_ok hread (hvalueIn value hvalue)
  exact ⟨List.mem_of_find?_eq_some hconfiguration, hparts⟩

theorem Notation.declaredIn {found : Notation}
    (h : MadeOf (kotlinText ++ text) found.group found.artifact found.version) :
    ∀ coordinates ∈ found.coordinates, coordinates.DeclaredIn text := by
  unfold Notation.coordinates
  split
  · simp
  · rename_i configuration hconfiguration
    rw [List.forall_mem_singleton]
    exact ⟨List.mem_of_find?_eq_some hconfiguration, h⟩

/-- Coordinates are declared by a list of them, or by one of the notations. -/
theorem declaration_eq_ok {list : List Coordinates} (h : declaration text = .ok list) :
    coordinateList? (Text.compact text) = some (.ok list) ∨
      (∃ found, (shortNotation? (Text.compact text) <|> mapNotation? (Text.compact text) <|>
        kotlinNotation? (Text.compact text)) = some found ∧ list = found.coordinates) ∨
      list = [] := by
  simp only [declaration] at h
  split at h
  · rename_i hlist
    exact .inl (h ▸ hlist)
  · split at h
    · rename_i found hfound
      exact .inr (.inl ⟨found, hfound, (Except.ok.inj h).symm⟩)
    · split at h
      · split at h
        · cases h
        · exact .inr (.inr (Except.ok.inj h).symm)
      · exact .inr (.inr (Except.ok.inj h).symm)

/-- Coordinates in a declaration are made of its characters that are no blanks. -/
theorem declaration_declaredIn {list : List Coordinates} (h : declaration text = .ok list) :
    ∀ coordinates ∈ list, coordinates.DeclaredIn (Text.compact text) := by
  rcases declaration_eq_ok h with hlist | ⟨found, hfound, rfl⟩ | rfl
  · exact coordinateList?_declaredIn hlist
  · simp only [Option.orElse_eq_orElse, Option.orElse_eq_or, Option.or_eq_some_iff] at hfound
    have htext : Text.compact text ⊆ kotlinText ++ Text.compact text :=
      List.subset_append_right ..
    have hmade : MadeOf (kotlinText ++ Text.compact text) found.group found.artifact
        found.version := by
      rcases hfound with hshort | ⟨_, hmap | ⟨_, hkotlin⟩⟩
      · exact shortNotation?_madeOf hshort htext
      · exact mapNotation?_madeOf hmap htext
      · exact kotlinNotation?_madeOf hkotlin (List.subset_append_left ..) htext
    exact Notation.declaredIn hmade
  · simp

end CorpusFacts.Gradle
