import CorpusFacts.Proofs.Gradle.DeclarationReaders

/-!
# The short notation

Short coordinates are a group, separators, an artifact and what tells the version: nothing, or
separators and a version. They are read exactly where they are written like this. In a text between
two quotes only colons and commas can separate the parts.
-/

namespace CorpusFacts.Gradle

variable {text group artifact : List Char} {version : Option (List Char)}

/-- What may be read as a version behind separators: no colon comes first, unless it is all there
is. -/
structure IsVersion (version : List Char) : Prop where
  /-- There is something. -/
  ne_nil : version ≠ []
  /-- It is a value. -/
  values : ∀ c ∈ version, isValueChar c = true
  /-- Another colon would be a separator. -/
  head : version.head? ≠ some ':' ∨ version = [':']

theorem IsVersion.isQuote_eq {version : List Char} (h : IsVersion version) :
    ∀ c ∈ version, isQuote c = false :=
  fun c hc => isQuote_of_value (h.values c hc)

/-- The end of short coordinates, and the version that it tells. -/
inductive EndsIn : List Char → Option (List Char) → Prop
  /-- Nothing but the last quote. -/
  | bare {quote : Char} (hquote : isQuote quote = true) (parens : Bool) :
    EndsIn (quote :: closing parens) none
  /-- Separators, a version and the last quote. -/
  | version {separators version : List Char} {quote : Char} (hne : separators ≠ [])
      (hseparators : ∀ c ∈ separators, isSeparator c = true) (hversion : IsVersion version)
      (hquote : isQuote quote = true) (parens : Bool) :
    EndsIn (separators ++ (version ++ quote :: closing parens)) (some version)

theorem not_separator_of_value {c : Char} (h : isValueChar c = true) (hcolon : c ≠ ':') :
    isSeparator c = false := by
  have hcomma : c ≠ ',' := by
    rintro rfl
    cases h
  simp [isSeparator, isQuote_of_value h, hcolon, hcomma]

theorem isSeparator_closing {parens : Bool} {c : Char} (h : c ∈ closing parens) :
    isSeparator c = false := by
  cases parens with
  | false => cases h
  | true =>
    obtain rfl := List.mem_singleton.mp h
    rfl

/-- At the end a version is read. -/
theorem EndsIn.shortVersion?_eq (h : EndsIn text version) : shortVersion? text = some version := by
  cases h with
  | @bare quote hquote parens =>
    have hseparator : isSeparator quote = true := by simp [isSeparator, hquote]
    have hspan : (quote :: closing parens).span isSeparator = ([quote], closing parens) := by
      refine span_eq_iff.mpr ⟨rfl, by simpa using hseparator, fun c hc => ?_⟩
      exact isSeparator_closing (List.mem_of_mem_head? hc)
    have hvalues : (closing parens).span isValueChar = ([], closing parens) := by
      refine span_eq_iff.mpr ⟨rfl, by simp, fun c hc => ?_⟩
      exact isValueChar_closing (List.mem_of_mem_head? hc)
    have hclosed : isClosed (closing parens) = true := isClosed_iff.mpr ⟨parens, rfl⟩
    simp only [shortVersion?, hspan, hvalues]
    simp [hclosed, hquote]
  | @version separators version quote hne hseparators hversion hquote parens =>
    have hclosed : isClosed (closing parens) = true := isClosed_iff.mpr ⟨parens, rfl⟩
    rcases hversion.head with hhead | rfl
    · obtain ⟨first, more, rfl⟩ := List.exists_cons_of_ne_nil hversion.ne_nil
      have hvalue := hversion.values first (List.mem_cons_self ..)
      have hfirst := not_separator_of_value hvalue (by simpa using hhead)
      have hspan : (separators ++ (first :: more ++ quote :: closing parens)).span isSeparator =
          (separators, first :: more ++ quote :: closing parens) := by
        refine span_eq_iff.mpr ⟨rfl, hseparators, ?_⟩
        rintro c ⟨⟩
        exact hfirst
      have hvalues : (first :: more ++ quote :: closing parens).span isValueChar =
          (first :: more, quote :: closing parens) := by
        refine span_eq_iff.mpr ⟨rfl, hversion.values, ?_⟩
        rintro c ⟨⟩
        exact isValueChar_of_isQuote hquote
      simp only [shortVersion?, hspan, hvalues]
      simp [hclosed, hquote, hne]
    · -- the separators go on to the last quote, so there is no version, and a colon is given back
      have hspan : (separators ++ ([':'] ++ quote :: closing parens)).span isSeparator =
          (separators ++ [':', quote], closing parens) := by
        refine span_eq_iff.mpr ⟨by simp, fun c hc => ?_, fun c hc => ?_⟩
        · simp only [List.mem_append, List.mem_cons, List.not_mem_nil, or_false] at hc
          rcases hc with hc | rfl | rfl
          · exact hseparators c hc
          · rfl
          · simp [isSeparator, hquote]
        · exact isSeparator_closing (List.mem_of_mem_head? hc)
      have hvalues : (closing parens).span isValueChar = ([], closing parens) := by
        refine span_eq_iff.mpr ⟨rfl, by simp, fun c hc => ?_⟩
        exact isValueChar_closing (List.mem_of_mem_head? hc)
      obtain ⟨first, more, hmore⟩ := List.exists_cons_of_ne_nil
        (mt List.reverse_eq_nil_iff.mp hne)
      simp only [shortVersion?, hspan, hvalues]
      simp [hclosed, hquote, hmore]

/-- A version is read at such ends only. -/
theorem EndsIn.of_shortVersion? (h : shortVersion? text = some version) : EndsIn text version := by
  obtain ⟨separators, rest, hcut⟩ : ∃ separators rest, text.span isSeparator = (separators, rest) :=
    ⟨_, _, rfl⟩
  obtain ⟨found, behind, hvalues⟩ : ∃ found behind, rest.span isValueChar = (found, behind) :=
    ⟨_, _, rfl⟩
  simp only [shortVersion?, hcut, hvalues] at h
  obtain ⟨rfl, hseparators, hhead⟩ := span_eq_iff.mp hcut
  obtain ⟨rfl, hall, -⟩ := span_eq_iff.mp hvalues
  split at h
  · rename_i first more quote last heq
    obtain ⟨rfl, rfl⟩ := Prod.mk.inj heq
    split at h
    · rename_i hends
      obtain rfl := Option.some.inj h
      simp only [Bool.and_eq_true, Bool.not_eq_true', List.isEmpty_eq_false_iff] at hends
      obtain ⟨⟨hne, hquote⟩, hclosed⟩ := hends
      obtain ⟨parens, rfl⟩ := isClosed_iff.mp hclosed
      refine .version hne hseparators ⟨List.cons_ne_nil _ _, hall, .inl ?_⟩ hquote parens
      rintro ⟨⟩
      cases hhead ':' rfl
    · cases h
  · rename_i last heq
    obtain ⟨rfl, rfl⟩ := Prod.mk.inj heq
    split at h
    · cases h
    · rename_i hclosed
      obtain ⟨parens, rfl⟩ := isClosed_iff.mp (by simpa using hclosed)
      split at h
      · rename_i quote hreverse
        obtain rfl : separators = [quote] := by simpa using congrArg List.reverse hreverse
        split at h
        · rename_i hquote
          obtain rfl := Option.some.inj h
          exact .bare hquote parens
        · cases h
      · rename_i quote next more hreverse
        obtain rfl : separators = (next :: more).reverse ++ [':', quote] := by
          simpa using congrArg List.reverse hreverse
        split at h
        · rename_i hquote
          obtain rfl := Option.some.inj h
          have hversion : IsVersion [':'] := ⟨by simp, by simp; rfl, .inr rfl⟩
          have hearlier : ∀ c ∈ (next :: more).reverse, isSeparator c = true :=
            fun c hc => hseparators c (List.mem_append_left _ hc)
          have hends := EndsIn.version (by simp) hearlier hversion hquote parens
          simpa using hends
        · cases h
      · cases h
  · cases h

theorem shortVersion?_eq_some_iff : shortVersion? text = some version ↔ EndsIn text version :=
  ⟨EndsIn.of_shortVersion?, EndsIn.shortVersion?_eq⟩

/-- A group, an artifact and a version in the short notation, behind the first quote: the group,
separators, the artifact and what tells the version. -/
inductive ReadsShort : (text group artifact : List Char) → Option (List Char) → Prop
  /-- One behind the other. -/
  | parts {group separators artifact tail : List Char} {version : Option (List Char)}
      (hgroup : IsMadeOf isCoordinateChar group) (hseparators : IsMadeOf isSeparator separators)
      (hartifact : IsMadeOf isCoordinateChar artifact) (htail : EndsIn tail version) :
      ReadsShort (group ++ (separators ++ (artifact ++ tail))) group artifact version

theorem EndsIn.head? (h : EndsIn text version) : ∀ c ∈ text.head?, isSeparator c = true := by
  cases h with
  | bare hquote parens =>
    rintro c ⟨⟩
    simp [isSeparator, hquote]
  | @version separators _ _ hne hseparators _ _ _ =>
    obtain ⟨first, more, rfl⟩ := List.exists_cons_of_ne_nil hne
    rintro c ⟨⟩
    exact hseparators _ (List.mem_cons_self ..)

/-- Behind a word and a quote the short notation is read exactly where it is written. -/
theorem shortNotation?_append_iff {word : List Char} (hne : word ≠ [])
    (hword : ∀ c ∈ word, Text.isWord c = true) {quote : Char} (hquote : isQuote quote = true)
    (parens : Bool) {body : List Char} {found : Notation} :
    shortNotation? (word ++ (opening parens ++ quote :: body)) = some found ↔
      found.configuration = word ∧ ReadsShort body found.group found.artifact found.version := by
  have hrun := run?_word_quote hne hword parens hquote body
  have hbody : afterChar? isQuote (skipOpen (opening parens ++ quote :: body)) = some body := by
    rw [skipOpen_quote parens hquote]
    exact afterChar?_cons hquote _
  simp only [shortNotation?, hrun, Option.bind_eq_bind, Option.bind_some, hbody]
  constructor
  · intro h
    simp only [Option.bind_eq_some_iff, Option.pure_def, Option.some.injEq] at h
    obtain ⟨⟨group, rest⟩, hgroup, ⟨separators, after⟩, hseparators, ⟨artifact, tail⟩, hartifact,
      version, hversion, rfl⟩ := h
    obtain ⟨htext, hgroupNe, hgroupAll, -⟩ := run?_eq_some_iff.mp hgroup
    obtain ⟨rfl, hseparatorsNe, hseparatorsAll, -⟩ := run?_eq_some_iff.mp hseparators
    obtain ⟨rfl, hartifactNe, hartifactAll, -⟩ := run?_eq_some_iff.mp hartifact
    rw [htext]
    exact ⟨rfl, .parts ⟨hgroupNe, hgroupAll⟩ ⟨hseparatorsNe, hseparatorsAll⟩
      ⟨hartifactNe, hartifactAll⟩ (shortVersion?_eq_some_iff.mp hversion)⟩
  · obtain ⟨configuration, group, artifact, version⟩ := found
    rintro ⟨hconfiguration, hreads⟩
    obtain rfl : configuration = word := hconfiguration
    cases hreads with
    | @parts _ separators _ tail _ hgroup hseparators hartifact htail =>
      obtain ⟨mark, marks, rfl⟩ := List.exists_cons_of_ne_nil hseparators.ne_nil
      obtain ⟨first, more, rfl⟩ := List.exists_cons_of_ne_nil hartifact.ne_nil
      have hmark : ∀ c ∈ (mark :: marks ++ (first :: more ++ tail)).head?,
          isCoordinateChar c = false := by
        rintro _ ⟨⟩
        exact isCoordinateChar_of_separator (hseparators.all _ (List.mem_cons_self ..))
      have hfirst : ∀ c ∈ (first :: more ++ tail).head?, isSeparator c = false := by
        rintro _ ⟨⟩
        exact isSeparator_of_coordinate (hartifact.all _ (List.mem_cons_self ..))
      have hend : ∀ c ∈ tail.head?, isCoordinateChar c = false :=
        fun c hc => isCoordinateChar_of_separator (htail.head? c hc)
      simp only [run?_append hgroup.ne_nil hgroup.all hmark,
        run?_append hseparators.ne_nil hseparators.all hfirst,
        run?_append hartifact.ne_nil hartifact.all hend, shortVersion?_eq_some_iff.mpr htail,
        Option.bind_some, Option.pure_def]

/-- Between the parentheses of a declaration it is. -/
theorem shortNotation?_eq_some_iff {word : List Char} (hne : word ≠ [])
    (hword : ∀ c ∈ word, Text.isWord c = true) {quote : Char} (hquote : isQuote quote = true)
    (parens : Bool) {body : List Char} {found : Notation} :
    shortNotation? (word ++ enclosed parens (quote :: body)) = some found ↔
      found.configuration = word ∧
        ReadsShort (body ++ closing parens) found.group found.artifact found.version := by
  rw [enclosed_append, List.cons_append]
  exact shortNotation?_append_iff hne hword hquote parens

/-- Colons and commas. -/
def isDivider (c : Char) : Bool :=
  c == ':' || c == ','

/-- What stands behind the artifact in one text, and the version that it tells. -/
inductive TellsVersion : List Char → Option (List Char) → Prop
  /-- Nothing. -/
  | none : TellsVersion [] none
  /-- Colons or commas and a version. -/
  | some {dividers version : List Char} (hdividers : IsMadeOf isDivider dividers)
      (hversion : IsVersion version) : TellsVersion (dividers ++ version) (some version)

/-- A group, an artifact and a version in the short notation, in one text. -/
inductive IsShort : (text group artifact : List Char) → Option (List Char) → Prop
  /-- One behind the other. -/
  | parts {group dividers artifact tail : List Char} {version : Option (List Char)}
      (hgroup : IsMadeOf isCoordinateChar group) (hdividers : IsMadeOf isDivider dividers)
      (hartifact : IsMadeOf isCoordinateChar artifact) (htail : TellsVersion tail version) :
      IsShort (group ++ (dividers ++ (artifact ++ tail))) group artifact version

theorem isSeparator_of_isDivider {c : Char} (h : isDivider c = true) : isSeparator c = true := by
  simp only [isDivider, Bool.or_eq_true] at h
  rcases h with h | h <;> simp [isSeparator, h]

theorem isCoordinateChar_of_divider {c : Char} (h : isDivider c = true) :
    isCoordinateChar c = false :=
  isCoordinateChar_of_separator (isSeparator_of_isDivider h)

theorem isDivider_of_isSeparator {c : Char} (h : isSeparator c = true)
    (hquote : isQuote c = false) : isDivider c = true := by
  simpa [isSeparator, hquote, isDivider] using h

section Content

variable {content taken rest : List Char} {quote : Char} {parens : Bool}

/-- What is followed by a value stands before the quote. -/
theorem exists_of_append_value {c : Char}
    (h : content ++ quote :: closing parens = taken ++ c :: rest) (hc : isValueChar c = true) :
    ∃ more, content = taken ++ more ∧ more ++ quote :: closing parens = c :: rest := by
  rcases List.append_eq_append_iff.mp h with ⟨excess, rfl, hexcess⟩ | ⟨more, rfl, hrest⟩
  · cases excess with
    | nil => exact ⟨[], by simp, by simpa using hexcess⟩
    | cons d excess =>
      obtain ⟨-, hclosing⟩ := List.cons.inj hexcess
      have hmem : c ∈ closing parens := by simp [hclosing]
      rw [isValueChar_closing hmem] at hc
      cases hc
  · exact ⟨more, rfl, hrest.symm⟩

/-- The last quote comes first where no other one does. -/
theorem eq_nil_of_append_quote {other : Char} {otherParens : Bool}
    (h : content ++ quote :: closing parens = other :: closing otherParens)
    (hother : isQuote other = true) (hcontent : ∀ c ∈ content, isQuote c = false) :
    content = [] := by
  cases content with
  | nil => rfl
  | cons c content =>
    obtain ⟨rfl, -⟩ := List.cons.inj h
    rw [hcontent c (List.mem_cons_self ..)] at hother
    cases hother

variable {group artifact : List Char} {version : Option (List Char)}
  (hcontent : ∀ c ∈ content, isQuote c = false) (hquote : isQuote quote = true)
include hcontent hquote

theorem TellsVersion.of_endsIn (h : EndsIn (content ++ quote :: closing parens) version) :
    TellsVersion content version := by
  generalize hwhole : content ++ quote :: closing parens = whole at h
  cases h with
  | bare hother _ =>
    obtain rfl := eq_nil_of_append_quote hwhole hother hcontent
    exact .none
  | @version separators version other hne hseparators hversion hother otherParens =>
    obtain ⟨first, more, rfl⟩ := List.exists_cons_of_ne_nil hversion.ne_nil
    obtain ⟨tail, rfl, htail⟩ :=
      exists_of_append_value hwhole (hversion.values first (List.mem_cons_self ..))
    obtain ⟨last, rfl, hlast⟩ :=
      exists_of_append_quote htail (isValueChar_of_isQuote hquote) hversion.values
    obtain rfl := eq_nil_of_append_quote hlast hother fun c hc => hcontent c (by simp [hc])
    have hdividers : ∀ c ∈ separators, isDivider c = true := fun c hc =>
      isDivider_of_isSeparator (hseparators c hc) (hcontent c (by simp [hc]))
    rw [List.append_nil]
    exact .some ⟨hne, hdividers⟩ hversion

/-- In a text between two quotes short coordinates are read exactly where they are written. -/
theorem readsShort_content_iff :
    ReadsShort (content ++ quote :: closing parens) group artifact version ↔
      IsShort content group artifact version := by
  constructor
  · intro h
    generalize hwhole : content ++ quote :: closing parens = whole at h
    cases h with
    | @parts _ separators _ tail _ hgroup hseparators hartifact htail =>
      have hquoteChar : isCoordinateChar quote = false :=
        isCoordinateChar_of_separator (by simp [isSeparator, hquote])
      obtain ⟨behind, rfl, hbehind⟩ := exists_of_append_quote hwhole hquoteChar hgroup.all
      obtain ⟨first, more, rfl⟩ := List.exists_cons_of_ne_nil hartifact.ne_nil
      obtain ⟨after, rfl, hafter⟩ := exists_of_append_value hbehind
        (isValueChar_of_coordinate (hartifact.all first (List.mem_cons_self ..)))
      obtain ⟨last, rfl, rfl⟩ := exists_of_append_quote hafter hquoteChar hartifact.all
      have hdividers : ∀ c ∈ separators, isDivider c = true := fun c hc =>
        isDivider_of_isSeparator (hseparators.all c hc) (hcontent c (by simp [hc]))
      have hversion : TellsVersion last version :=
        .of_endsIn (fun c hc => hcontent c (by simp [hc])) hquote htail
      exact .parts hgroup ⟨hseparators.ne_nil, hdividers⟩ hartifact hversion
  · intro h
    cases h with
    | @parts _ dividers _ tail _ hgroup hdividers hartifact htail =>
      have hends : EndsIn (tail ++ quote :: closing parens) version := by
        cases htail with
        | none => exact .bare hquote parens
        | some hbefore hversion =>
          rw [List.append_assoc]
          exact .version hbefore.ne_nil (fun c hc => isSeparator_of_isDivider (hbefore.all c hc))
            hversion hquote parens
      have hreads := ReadsShort.parts hgroup (hdividers.imp fun _ => isSeparator_of_isDivider)
        hartifact hends
      simpa using hreads

end Content

end CorpusFacts.Gradle
