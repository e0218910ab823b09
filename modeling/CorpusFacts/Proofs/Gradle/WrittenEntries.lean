import CorpusFacts.Proofs.Gradle.PluginClauses

/-!
# Plugin entries as they are written

An entry names a plugin, by a literal identifier, by a plugin of the Kotlin library or between
backticks, and goes on with a version and a flag in either order, in words or as calls. It is read
back with the identifier, the arguments and the version as they are written. The flag is too, unless
the version stands in front of it and tells a flag in its text.
-/

namespace CorpusFacts.Gradle

/-! ## How entries are written -/

/-- Characters of an identifier or a version: no quotes, no backticks and no line feeds. -/
def isEntryChar (c : Char) : Bool :=
  !(isQuote c || c == '`' || c == '\n')

/-- Blanks within a line. -/
def isInlineBlank (c : Char) : Bool :=
  Text.isBlank c && c != '\n'

/-- How a plugin is named, by the identifier and the arguments that it has. -/
inductive WritesName : (id : List Char) → (args : List (List Char)) → List Char → Prop
  /-- By a call with its identifier. -/
  | call (id : Quotation) (hid : IsMadeOf isEntryChar id.content) :
    WritesName id.content [] ("id".toList ++ '(' :: (id.text ++ [')']))
  /-- By its identifier behind a word. -/
  | word {blanks : List Char} (hblanks : IsMadeOf isInlineBlank blanks) (id : Quotation)
      (hid : IsMadeOf isEntryChar id.content) :
    WritesName id.content [] ("id".toList ++ (blanks ++ id.text))
  /-- By a call with a name of the Kotlin library. -/
  | kotlin (name : Quotation) (hname : IsMadeOf isEntryChar name.content) :
    WritesName "kotlin".toList [name.content] ("kotlin".toList ++ '(' :: (name.text ++ [')']))
  /-- By its identifier between backticks. -/
  | backticks {id : List Char} (hid : IsMadeOf isEntryChar id) :
    WritesName id [] ('`' :: (id ++ ['`']))

/-- How a clause is written: in words, or as the call of a member. -/
inductive WritesClause (keyword argument : List Char) : List Char → Prop
  /-- In words. -/
  | words {before between : List Char} (hbefore : IsMadeOf isInlineBlank before)
      (hbetween : IsMadeOf isInlineBlank between) :
    WritesClause keyword argument (before ++ (keyword ++ (between ++ argument)))
  /-- As a call. -/
  | call : WritesClause keyword argument ('.' :: (keyword ++ '(' :: (argument ++ [')'])))

/-- How the clauses of an entry are written that tell a version and a flag, or only one of them or
none. `early` is the version where no flag stands in front of it. -/
inductive WritesClauses :
    (version : Option (List Char)) → (flag : Option Bool) → (early : List Char) → List Char → Prop
  /-- None. -/
  | none : WritesClauses none none [] []
  /-- A version. -/
  | version {version : Quotation} {text : List Char}
      (hversion : IsMadeOf isEntryChar version.content)
      (h : WritesClause "version".toList version.text text) :
    WritesClauses (some version.content) none version.content text
  /-- A flag. -/
  | flag {flag : Bool} {text : List Char} (h : WritesClause "apply".toList (flagText flag) text) :
    WritesClauses none (some flag) [] text
  /-- A version and a flag. -/
  | versionFlag {version : Quotation} {flag : Bool} {first second : List Char}
      (hversion : IsMadeOf isEntryChar version.content)
      (hfirst : WritesClause "version".toList version.text first)
      (hsecond : WritesClause "apply".toList (flagText flag) second) :
    WritesClauses (some version.content) (some flag) version.content (first ++ second)
  /-- A flag and a version. -/
  | flagVersion {version : Quotation} {flag : Bool} {first second : List Char}
      (hversion : IsMadeOf isEntryChar version.content)
      (hfirst : WritesClause "apply".toList (flagText flag) first)
      (hsecond : WritesClause "version".toList version.text second) :
    WritesClauses (some version.content) (some flag) [] (first ++ second)

/-! ## How clauses are read -/

section Clauses

theorem IsMadeOf.isBlank {blanks : List Char} (h : IsMadeOf isInlineBlank blanks) :
    ∀ c ∈ blanks, Text.isBlank c = true :=
  fun c hc => (Bool.and_eq_true_iff.mp (h.all c hc)).1

theorem isQuote_of_isEntryChar {c : Char} (h : isEntryChar c = true) : isQuote c = false := by
  simp only [isEntryChar, Bool.not_eq_true', Bool.or_eq_false_iff] at h
  exact h.1.1

/-- A clause without what stands in front of it. -/
def clauseBody (keyword gap argument : List Char) (parens : Bool) : List Char :=
  keyword ++ (gap ++ (argument ++ closing parens))

variable {keyword argument text gap lead rest : List Char} {parens flag : Bool}

theorem WritesClause.exists_body (h : WritesClause keyword argument text) :
    ∃ lead gap parens, IsLead lead ∧ lead ≠ [] ∧ IsGap gap ∧
      text = lead ++ clauseBody keyword gap argument parens := by
  cases h with
  | @words before between hbefore hbetween =>
    refine ⟨before, between, false, isLead_of_blanks hbefore.isBlank, hbefore.ne_nil,
      isGap_of_blanks hbetween.isBlank, ?_⟩
    simp [clauseBody, closing]
  | call =>
    refine ⟨['.'], ['('], true, isLead_singleton (by decide), by simp, isGap_open, ?_⟩
    simp [clauseBody, closing]

/-- A quotation does not begin with a blank. -/
theorem Quotation.isBlank_head (quotation : Quotation) (rest : List Char) :
    ∀ c ∈ (quotation.text ++ rest).head?, Text.isBlank c = false := by
  rintro _ ⟨⟩
  exact Bool.eq_false_iff.mpr fun hblank => quotation.quote_ne (isQuote_of_isBlank hblank) rfl

/-- A quotation does not begin with a parenthesis. -/
theorem Quotation.head_ne_open (quotation : Quotation) (rest : List Char) :
    (quotation.text ++ rest).head? ≠ some '(' :=
  fun hhead => quotation.quote_ne rfl (Option.some.inj hhead)

/-- A version is read, and a parenthesis behind it. -/
theorem versionClause?_body (hgap : IsGap gap) {version : Quotation}
    (hversion : IsMadeOf isEntryChar version.content) (parens : Bool) (rest : List Char) :
    versionClause? (clauseBody "version".toList gap version.text parens ++ rest) =
      some (version.content, skipCloseAfterBlanks (closing parens ++ rest)) := by
  have hbody : clauseBody "version".toList gap version.text parens ++ rest =
      "version".toList ++ (gap ++ (version.text ++ (closing parens ++ rest))) := by
    simp [clauseBody]
  have hkeyword := Text.after?_eq_some_iff.mpr hbody
  have hread := quotedText?_append (fun c hc => isQuote_of_isEntryChar (hversion.all c hc))
    (closing parens ++ rest)
  simp only [versionClause?, hkeyword, Option.bind_eq_bind, Option.bind_some,
    hgap.skipOpenAmongBlanks_append (version.isBlank_head _) (version.head_ne_open _), hread]
  rfl

/-- A flag is read, and a parenthesis behind it. -/
theorem applyClause?_body (hgap : IsGap gap) (flag parens : Bool) (rest : List Char) :
    applyClause? (clauseBody "apply".toList gap (flagText flag) parens ++ rest) =
      some (flag, skipCloseAfterBlanks (closing parens ++ rest)) := by
  rw [← applyClause?_append hgap]
  simp [clauseBody]

theorem skipCloseAfterBlanks_close (rest : List Char) :
    skipCloseAfterBlanks (closing true ++ rest) = rest := rfl

theorem skipCloseAfterBlanks_of_trimStart {other : List Char} (h : Text.trimStart text = other)
    (hother : other.head? ≠ some ')') : skipCloseAfterBlanks text = other := by
  unfold skipCloseAfterBlanks
  rw [h]
  split
  · exact absurd rfl hother
  · rfl

/-- Behind a name or a clause blanks or a dot are left in front of the next clause. -/
theorem exists_skipCloseAfterBlanks (hlead : IsLead lead) (parens : Bool) (text : List Char)
    (hblank : ∀ c ∈ text.head?, Text.isBlank c = false) (hclose : text.head? ≠ some ')') :
    ∃ next, IsLead next ∧
      skipCloseAfterBlanks (closing parens ++ (lead ++ text)) = next ++ text := by
  cases parens with
  | true => exact ⟨lead, hlead, skipCloseAfterBlanks_close _⟩
  | false =>
    cases hlead with
    | none =>
      exact ⟨[], .none, skipCloseAfterBlanks_of_trimStart (Text.trimStart_of_head hblank) hclose⟩
    | @some blanks last hblanks hlast =>
      by_cases hdot : Text.isBlank last = true
      · have hall : ∀ c ∈ blanks ++ [last], Text.isBlank c = true :=
          List.forall_mem_append.mpr ⟨hblanks, by simpa using hdot⟩
        exact ⟨[], .none,
          skipCloseAfterBlanks_of_trimStart (Text.trimStart_append hall hblank) hclose⟩
      · rw [Bool.not_eq_true] at hdot
        have htrim : Text.trimStart (blanks ++ ([last] ++ text)) = [last] ++ text :=
          Text.trimStart_append hblanks (by rintro _ ⟨⟩; exact hdot)
        have hother : ([last] ++ text).head? ≠ some ')' := by
          rintro ⟨⟩
          cases hlast
        refine ⟨[last], isLead_singleton hlast, ?_⟩
        rw [List.append_assoc]
        exact skipCloseAfterBlanks_of_trimStart htrim hother

/-- Blanks behind a name or a clause stay blanks. -/
theorem isBlank_skipCloseAfterBlanks (parens : Bool) {blanks : List Char}
    (hblanks : ∀ c ∈ blanks, Text.isBlank c = true) :
    ∀ c ∈ skipCloseAfterBlanks (closing parens ++ blanks), Text.isBlank c = true := by
  cases parens with
  | true => exact hblanks
  | false =>
    have hend : ∀ c ∈ ([] : List Char).head?, Text.isBlank c = false := by simp
    have htrim := Text.trimStart_append hblanks hend
    rw [List.append_nil] at htrim
    rw [closing, if_neg (by simp), List.nil_append,
      skipCloseAfterBlanks_of_trimStart htrim (by simp)]
    simp

theorem notMem_gap {letter : Char} (hgap : IsGap gap) (hletter : startsClause letter = false)
    (hopen : letter ≠ '(') : letter ∉ gap := by
  intro hmem
  rcases hgap.isBlank letter hmem with hblank | rfl
  · rw [startsClause_of_isBlank hblank] at hletter
    cases hletter
  · exact hopen rfl

/-- No version is read in a flag. -/
theorem notMem_flagBody (hgap : IsGap gap) (flag parens : Bool) :
    'v' ∉ clauseBody "apply".toList gap (flagText flag) parens := by
  have hkeyword : 'v' ∉ "apply".toList := by decide
  have hflag : 'v' ∉ flagText flag := by cases flag <;> decide
  have hclosing : 'v' ∉ closing parens := by cases parens <;> decide
  simp only [clauseBody, List.mem_append, not_or]
  exact ⟨hkeyword, notMem_gap hgap (by decide) (by decide), hflag, hclosing⟩

/-- What is left of a flag are blanks. -/
theorem trim_withoutFlag (hlead : IsLead lead) (hgap : IsGap gap) (flag parens : Bool)
    (blanks : List Char) (hblanks : ∀ c ∈ blanks, Text.isBlank c = true) :
    Text.trim (withoutClause applyClause?
      (lead ++ (clauseBody "apply".toList gap (flagText flag) parens ++ blanks))) = [] := by
  obtain ⟨before, hbefore, hfirst, -⟩ := exists_firstClause?_lead beginsWithLetter_applyClause?
    hlead (applyClause?_body hgap flag parens blanks)
  rw [withoutClause, hfirst]
  exact Text.trim_of_blanks (List.forall_mem_append.mpr
    ⟨hbefore, isBlank_skipCloseAfterBlanks parens hblanks⟩)

/-- The flag that is found in a text. -/
def firstFlag? (text : List Char) : Option Bool :=
  (firstClause? applyClause? text).map (·.2.1)

/-- A letter comes first only where no lead stands in front of it. -/
theorem head?_lead_append {letter : Char} (hletter : startsClause letter = false)
    (hlead : IsLead lead) (htext : lead = [] → text.head? ≠ some letter) :
    (lead ++ text).head? ≠ some letter := by
  cases lead with
  | nil => exact htext rfl
  | cons c lead =>
    rintro ⟨⟩
    exact Bool.false_ne_true (hletter.symm.trans (hlead.starts letter (List.mem_cons_self ..)))

theorem startsClause_of_isQuote {c : Char} (h : isQuote c = true) : startsClause c = false := by
  simp only [isQuote, Bool.or_eq_true, beq_iff_eq] at h
  rcases h with rfl | rfl <;> decide

/-- A flag is looked for in the version in front of it, and then behind it. -/
theorem firstFlag?_body (hlead : IsLead lead) (hgap : IsGap gap) (version : Quotation)
    (parens : Bool) (rest : List Char) :
    firstFlag? (lead ++ (clauseBody "version".toList gap version.text parens ++ rest)) =
      laterFlag? (version.content ++ version.quote :: (closing parens ++ rest)) := by
  have hbegins := beginsWithLetter_applyClause?
  have hstarts := startsClause_of_isQuote version.isQuote_quote
  have hbefore : 'a' ∉ lead ++ ("version".toList ++ gap) := by
    have hkeyword : 'a' ∉ "version".toList := by decide
    simp only [List.mem_append, not_or]
    exact ⟨notMem_of_starts hbegins hlead.starts, hkeyword,
      notMem_gap hgap (by decide) (by decide)⟩
  have hhead : (lead ++ (clauseBody "version".toList gap version.text parens ++ rest)).head? ≠
      some 'a' := head?_lead_append hbegins.isLetter hlead (by rintro - ⟨⟩)
  have hbody : lead ++ (clauseBody "version".toList gap version.text parens ++ rest) =
      (lead ++ ("version".toList ++ gap)) ++
        version.quote :: (version.content ++ version.quote :: (closing parens ++ rest)) := by
    simp [clauseBody, Quotation.text]
  have hquoted (behind : List Char) : (version.quote :: behind).head? ≠ some 'a' :=
    fun heq => version.quote_ne rfl (Option.some.inj heq)
  -- No flag begins in front of the quote, and none stands right behind it.
  rw [firstFlag?, firstClause?_of_head hbegins hhead, hbody]
  exact (laterFlag?_of_eq _ (laterClause?_append hbegins hbefore (hquoted _))).trans
    (laterFlag?_of_eq [version.quote]
      (laterClause?_miss fun htrue => absurd htrue (by simp [hstarts])))

/-- A flag is found behind a version, unless the version tells one. -/
theorem firstFlag?_version (hlead : IsLead lead) (hgap : IsGap gap) (version : Quotation)
    (parens : Bool) (rest : List Char) (hrest : rest.head? ≠ some 'a') :
    (∀ told, FirstFlag version.content told → firstFlag?
      (lead ++ (clauseBody "version".toList gap version.text parens ++ rest)) = some told) ∧
      ((∀ told, ¬ FirstFlag version.content told) → firstFlag?
        (lead ++ (clauseBody "version".toList gap version.text parens ++ rest)) =
          laterFlag? rest) := by
  have hbehind : laterFlag? (version.quote :: (closing parens ++ rest)) = laterFlag? rest := by
    have hbefore : 'a' ∉ version.quote :: closing parens := by
      have hclosing : 'a' ∉ closing parens := by cases parens <;> decide
      exact List.not_mem_cons_of_ne_of_not_mem (version.quote_ne rfl).symm hclosing
    exact laterFlag?_of_eq (version.quote :: closing parens)
      (laterClause?_append beginsWithLetter_applyClause? hbefore hrest)
  rw [firstFlag?_body hlead hgap]
  refine ⟨fun told htold => laterFlag?_of_firstFlag version.isQuote_quote htold _, fun hnone => ?_⟩
  rw [laterFlag?_of_no_flag version.isQuote_quote hnone, hbehind]

/-- How what follows a name is read: as a version and a flag, and nothing besides. -/
structure ReadsClauses (version : Option (List Char)) (flag : Option Bool)
    (early rest : List Char) : Prop where
  /-- The version is read. -/
  version : (firstClause? versionClause? rest).map (·.2.1) = version
  /-- A flag in the text of an early version is read. -/
  told : ∀ told, FirstFlag early told → firstFlag? rest = some told
  /-- Otherwise the flag is. -/
  flag : (∀ told, ¬ FirstFlag early told) → firstFlag? rest = flag
  /-- Nothing is left. -/
  leftover : Text.trim (withoutClause applyClause? (withoutClause versionClause? rest)) = []

theorem not_firstFlag_nil (told : Bool) : ¬ FirstFlag [] told := by
  rintro ⟨⟩

variable {version : Quotation} {more blanks : List Char}

/-- No flag is read in blanks, and they are all that is left of them. -/
theorem trim_withoutFlag_of_blanks (hblanks : ∀ c ∈ blanks, Text.isBlank c = true) :
    firstClause? applyClause? blanks = none ∧
      Text.trim (withoutClause applyClause? blanks) = [] := by
  have hflag : firstClause? applyClause? blanks = none :=
    firstClause?_eq_none beginsWithLetter_applyClause?
      (notMem_of_starts beginsWithLetter_applyClause?
        fun c hc => startsClause_of_isBlank (hblanks c hc))
  refine ⟨hflag, ?_⟩
  rw [withoutClause, hflag]
  exact Text.trim_of_blanks hblanks

/-- Where nothing is written, nothing is read. -/
theorem readsClauses_nil : ReadsClauses none none [] [] where
  version := rfl
  told told h := absurd h (not_firstFlag_nil told)
  flag _ := rfl
  leftover := rfl

theorem readsClauses_version (hlead : IsLead lead) (hgap : IsGap gap)
    (hversion : IsMadeOf isEntryChar version.content) (parens : Bool) :
    ReadsClauses (some version.content) none version.content
      (lead ++ (clauseBody "version".toList gap version.text parens ++ [])) := by
  obtain ⟨before, hbefore, hfirst, -⟩ := exists_firstClause?_lead beginsWithLetter_versionClause?
    hlead (versionClause?_body hgap hversion parens [])
  have hleft : ∀ c ∈ before ++ skipCloseAfterBlanks (closing parens ++ []),
      Text.isBlank c = true :=
    List.forall_mem_append.mpr ⟨hbefore, isBlank_skipCloseAfterBlanks parens (by simp)⟩
  obtain ⟨htold, hnone⟩ := firstFlag?_version hlead hgap version parens [] (by simp)
  refine ⟨by rw [hfirst]; rfl, htold, hnone, ?_⟩
  rw [withoutClause.eq_def versionClause?, hfirst]
  exact (trim_withoutFlag_of_blanks hleft).2

theorem firstFlag?_lead (hlead : IsLead lead) (hgap : IsGap gap) (flag parens : Bool)
    (rest : List Char) :
    firstFlag? (lead ++ (clauseBody "apply".toList gap (flagText flag) parens ++ rest)) =
        some flag ∧
      (lead ≠ [] →
        laterFlag? (lead ++ (clauseBody "apply".toList gap (flagText flag) parens ++ rest)) =
          some flag) := by
  obtain ⟨before, -, hfirst, hlater⟩ := exists_firstClause?_lead beginsWithLetter_applyClause?
    hlead (applyClause?_body hgap flag parens rest)
  refine ⟨by rw [firstFlag?, hfirst]; rfl, fun hne => ?_⟩
  rw [laterFlag?, hlater hne]
  rfl

/-- In front of a version a flag is passed over. -/
theorem firstClause?_behind_flag (hlead : IsLead lead) (hgap : IsGap gap) (flag parens : Bool)
    (rest : List Char) (hrest : rest.head? ≠ some 'v') :
    firstClause? versionClause?
      (lead ++ (clauseBody "apply".toList gap (flagText flag) parens ++ rest)) =
      (laterClause? versionClause? rest).map
        (foundBehind (lead ++ clauseBody "apply".toList gap (flagText flag) parens)) := by
  have hbegins := beginsWithLetter_versionClause?
  have hbefore : 'v' ∉ lead ++ clauseBody "apply".toList gap (flagText flag) parens :=
    List.not_mem_append (notMem_of_starts hbegins hlead.starts) (notMem_flagBody hgap flag parens)
  have hhead : (lead ++ (clauseBody "apply".toList gap (flagText flag) parens ++ rest)).head? ≠
      some 'v' := head?_lead_append hbegins.isLetter hlead (by rintro - ⟨⟩)
  rw [firstClause?_of_head hbegins hhead, ← List.append_assoc]
  exact laterClause?_append hbegins hbefore hrest

theorem readsClauses_flag (hlead : IsLead lead) (hgap : IsGap gap) (flag parens : Bool) :
    ReadsClauses none (some flag) []
      (lead ++ (clauseBody "apply".toList gap (flagText flag) parens ++ [])) := by
  have hnone := firstClause?_behind_flag hlead hgap flag parens [] (by simp)
  refine ⟨by rw [hnone]; rfl, fun told h => absurd h (not_firstFlag_nil told),
    fun _ => (firstFlag?_lead hlead hgap flag parens []).1, ?_⟩
  rw [withoutClause.eq_def versionClause?, hnone]
  exact trim_withoutFlag hlead hgap flag parens [] (by simp)

theorem readsClauses_versionFlag {behind otherGap : List Char} {otherParens : Bool}
    (hlead : IsLead lead) (hgap : IsGap gap) (hversion : IsMadeOf isEntryChar version.content)
    (hbehind : IsLead behind) (hne : behind ≠ []) (hother : IsGap otherGap) :
    ReadsClauses (some version.content) (some flag) version.content
      (lead ++ (clauseBody "version".toList gap version.text parens ++
        (behind ++ clauseBody "apply".toList otherGap (flagText flag) otherParens))) := by
  obtain ⟨before, hbefore, hfirst, -⟩ := exists_firstClause?_lead beginsWithLetter_versionClause?
    hlead (versionClause?_body hgap hversion parens
      (behind ++ clauseBody "apply".toList otherGap (flagText flag) otherParens))
  obtain ⟨next, hnext, hafter⟩ := exists_skipCloseAfterBlanks hbehind parens
    (clauseBody "apply".toList otherGap (flagText flag) otherParens)
    (by rintro _ ⟨⟩; decide) (by rintro ⟨⟩)
  have hhead : (behind ++ clauseBody "apply".toList otherGap (flagText flag) otherParens).head? ≠
      some 'a' := head?_lead_append (by decide) hbehind fun hnil => absurd hnil hne
  obtain ⟨htold, hnone⟩ := firstFlag?_version hlead hgap version parens _ hhead
  have hlater := (firstFlag?_lead hbehind hother flag otherParens []).2 hne
  rw [List.append_nil] at hlater
  refine ⟨by rw [hfirst]; rfl, htold, fun h => (hnone h).trans hlater, ?_⟩
  have hleft := trim_withoutFlag (hnext.append hbefore) hother flag otherParens [] (by simp)
  rw [withoutClause.eq_def versionClause?, hfirst]
  dsimp only
  rw [hafter, ← List.append_assoc]
  rwa [List.append_nil] at hleft

theorem readsClauses_flagVersion {behind otherGap : List Char} {otherParens : Bool}
    (hlead : IsLead lead) (hgap : IsGap gap) (hversion : IsMadeOf isEntryChar version.content)
    (hbehind : IsLead behind) (hne : behind ≠ []) (hother : IsGap otherGap) :
    ReadsClauses (some version.content) (some flag) []
      (lead ++ (clauseBody "apply".toList gap (flagText flag) parens ++
        (behind ++ clauseBody "version".toList otherGap version.text otherParens))) := by
  obtain ⟨before, hbefore, -, hlater⟩ := exists_firstClause?_lead beginsWithLetter_versionClause?
    hbehind (versionClause?_body hother hversion otherParens [])
  rw [List.append_nil] at hlater
  have hhead : (behind ++ clauseBody "version".toList otherGap version.text otherParens).head? ≠
      some 'v' := head?_lead_append (by decide) hbehind fun hnil => absurd hnil hne
  have hfirst := firstClause?_behind_flag hlead hgap flag parens _ hhead
  rw [hlater hne] at hfirst
  refine ⟨by rw [hfirst]; rfl, fun told h => absurd h (not_firstFlag_nil told),
    fun _ => (firstFlag?_lead hlead hgap flag parens _).1, ?_⟩
  have hblanks : ∀ c ∈ before ++ skipCloseAfterBlanks (closing otherParens ++ []),
      Text.isBlank c = true :=
    List.forall_mem_append.mpr ⟨hbefore, isBlank_skipCloseAfterBlanks otherParens (by simp)⟩
  have hleft := trim_withoutFlag hlead hgap flag parens _ hblanks
  rw [withoutClause.eq_def versionClause?, hfirst]
  simpa [foundBehind] using hleft

/-- However clauses are written, they are read. -/
theorem WritesClauses.readsClauses {version : Option (List Char)} {flag : Option Bool}
    {early tail : List Char} (h : WritesClauses version flag early tail) (parens : Bool) :
    ReadsClauses version flag early (skipCloseAfterBlanks (closing parens ++ tail)) := by
  cases h with
  | none =>
    have hnil : skipCloseAfterBlanks (closing parens ++ []) = [] := by cases parens <;> rfl
    rw [hnil]
    exact readsClauses_nil
  | version hversion h =>
    obtain ⟨lead, gap, inner, hlead, -, hgap, rfl⟩ := h.exists_body
    obtain ⟨next, hnext, hskip⟩ := exists_skipCloseAfterBlanks hlead parens
      (clauseBody "version".toList gap _ inner) (by rintro _ ⟨⟩; decide) (by rintro ⟨⟩)
    rw [hskip]
    simpa using readsClauses_version hnext hgap hversion inner
  | flag h =>
    obtain ⟨lead, gap, inner, hlead, -, hgap, rfl⟩ := h.exists_body
    obtain ⟨next, hnext, hskip⟩ := exists_skipCloseAfterBlanks hlead parens
      (clauseBody "apply".toList gap _ inner) (by rintro _ ⟨⟩; decide) (by rintro ⟨⟩)
    rw [hskip]
    simpa using readsClauses_flag hnext hgap _ inner
  | versionFlag hversion hfirst hsecond =>
    obtain ⟨lead, gap, inner, hlead, -, hgap, rfl⟩ := hfirst.exists_body
    obtain ⟨behind, otherGap, other, hbehind, hne, hother, rfl⟩ := hsecond.exists_body
    obtain ⟨next, hnext, hskip⟩ := exists_skipCloseAfterBlanks hlead parens
      (clauseBody "version".toList gap _ inner ++ _) (by rintro _ ⟨⟩; decide)
      (by rintro ⟨⟩)
    rw [List.append_assoc, hskip]
    exact readsClauses_versionFlag hnext hgap hversion hbehind hne hother
  | flagVersion hversion hfirst hsecond =>
    obtain ⟨lead, gap, inner, hlead, -, hgap, rfl⟩ := hfirst.exists_body
    obtain ⟨behind, otherGap, other, hbehind, hne, hother, rfl⟩ := hsecond.exists_body
    obtain ⟨next, hnext, hskip⟩ := exists_skipCloseAfterBlanks hlead parens
      (clauseBody "apply".toList gap _ inner ++ _) (by rintro _ ⟨⟩; decide)
      (by rintro ⟨⟩)
    rw [List.append_assoc, hskip]
    exact readsClauses_flagVersion hnext hgap hversion hbehind hne hother

end Clauses

/-! ## How names are read -/

section Names

variable {id text tail : List Char} {args : List (List Char)}

theorem quotedId?_append {id : Quotation} (hid : IsMadeOf isEntryChar id.content)
    (rest : List Char) : quotedId? (id.text ++ rest) = some (id.content, rest) := by
  have hplain : ∀ c ∈ id.content, (!isQuote c) = true := by
    intro c hc
    rw [isQuote_of_isEntryChar (hid.all c hc)]
    rfl
  have hrun : run? (!isQuote ·) (id.content ++ id.quote :: rest) =
      some (id.content, id.quote :: rest) := by
    refine run?_append hid.ne_nil hplain ?_
    rintro _ ⟨⟩
    rw [id.isQuote_quote]
    rfl
  simp only [quotedId?, id.text_append, afterChar?_cons id.isQuote_quote, Option.bind_eq_bind,
    Option.bind_some, hrun]
  rfl

theorem onOneLine_of_notMem {name : PluginName} {rest : List Char} (h : '\n' ∉ rest) :
    onOneLine (some (name, rest)) = some (name, rest) := by
  rw [onOneLine, Option.filter_some_pos]
  simpa using h

theorem notMem_skipCloseAfterBlanks {c : Char} (parens : Bool) (hc : c ≠ ')') (htail : c ∉ tail) :
    c ∉ skipCloseAfterBlanks (closing parens ++ tail) := by
  intro hmem
  rcases List.mem_append.mp (skipCloseAfterBlanks_subset (List.Subset.refl _) hmem) with h | h
  · cases parens with
    | true => exact hc (List.mem_singleton.mp h)
    | false => cases h
  · exact htail h

/-- A literal identifier is read behind its word. -/
theorem literalName?_append {gap : List Char} {id : Quotation} (hgap : IsGap gap)
    (hid : IsMadeOf isEntryChar id.content) (parens : Bool) (tail : List Char) :
    literalName? ("id".toList ++ (gap ++ (id.text ++ (closing parens ++ tail)))) =
      some (.literal id.content, skipCloseAfterBlanks (closing parens ++ tail)) := by
  have hkeyword : Text.after? "id".toList
      ("id".toList ++ (gap ++ (id.text ++ (closing parens ++ tail)))) =
        some (gap ++ (id.text ++ (closing parens ++ tail))) := Text.after?_eq_some_iff.mpr rfl
  simp only [literalName?, hkeyword, Option.bind_eq_bind, Option.bind_some,
    hgap.skipOpenAmongBlanks_append (id.isBlank_head _) (id.head_ne_open _),
    quotedId?_append hid]
  rfl

/-- A name of the Kotlin library is read in its call. -/
theorem kotlinName?_append {name : Quotation} (hname : IsMadeOf isEntryChar name.content)
    (tail : List Char) :
    kotlinName? ("kotlin".toList ++ '(' :: (name.text ++ ')' :: tail)) =
      some (.kotlin name.content, tail) := by
  have hkeyword : Text.after? "kotlin".toList
      ("kotlin".toList ++ '(' :: (name.text ++ ')' :: tail)) =
        some ('(' :: (name.text ++ ')' :: tail)) := Text.after?_eq_some_iff.mpr rfl
  have hopen : Text.trimStart ('(' :: (name.text ++ ')' :: tail)) =
      '(' :: (name.text ++ ')' :: tail) := rfl
  have hclose : Text.trimStart (')' :: tail) = ')' :: tail := rfl
  simp only [kotlinName?, hkeyword, Option.bind_eq_bind, Option.bind_some, hopen,
    afterChar?_cons (p := (· == '(')) (c := '(') rfl,
    Text.trimStart_of_head (name.isBlank_head _), quotedId?_append hname, hclose]
  rfl

/-- An identifier between backticks is read. -/
theorem backtickName?_append {id : List Char} (hid : IsMadeOf isEntryChar id) (tail : List Char) :
    backtickName? ('`' :: (id ++ '`' :: tail)) = some (.backtick id, tail) := by
  have hplain : ∀ c ∈ id, (c != '`') = true := by
    intro c hc
    have hentry := hid.all c hc
    simp only [isEntryChar, Bool.not_eq_true', Bool.or_eq_false_iff] at hentry
    simp [bne, hentry.1.2]
  have hrun : run? (· != '`') (id ++ '`' :: tail) = some (id, '`' :: tail) :=
    run?_append hid.ne_nil hplain (by rintro _ ⟨⟩; rfl)
  simp only [backtickName?, afterChar?_cons (p := (· == '`')) (c := '`') rfl, Option.bind_eq_bind,
    Option.bind_some, hrun]
  rfl

/-- However an entry names its plugin, the name is read, and what follows it, perhaps without a
closing parenthesis. -/
theorem WritesName.exists_pluginName? (h : WritesName id args text) :
    ∃ name parens, (∀ whole, PluginName.reference whole name = .ok (id, args)) ∧
      ∀ tail, '\n' ∉ tail → pluginName? (text ++ tail) =
        some (name, skipCloseAfterBlanks (closing parens ++ tail)) := by
  cases h with
  | call id hid =>
    refine ⟨.literal id.content, true, fun _ => rfl, fun tail htail => ?_⟩
    have hread := literalName?_append isGap_open hid true tail
    have htext : "id".toList ++ '(' :: (id.text ++ [')']) ++ tail =
        "id".toList ++ (['('] ++ (id.text ++ (closing true ++ tail))) := by
      simp [closing]
    rw [pluginName?, htext, hread,
      onOneLine_of_notMem (notMem_skipCloseAfterBlanks true (by decide) htail)]
    rfl
  | @word blanks hblanks id hid =>
    refine ⟨.literal id.content, false, fun _ => rfl, fun tail htail => ?_⟩
    have hread := literalName?_append (isGap_of_blanks hblanks.isBlank) hid false tail
    have htext : "id".toList ++ (blanks ++ id.text) ++ tail =
        "id".toList ++ (blanks ++ (id.text ++ (closing false ++ tail))) := by
      simp [closing]
    rw [pluginName?, htext, hread,
      onOneLine_of_notMem (notMem_skipCloseAfterBlanks false (by decide) htail)]
    rfl
  | kotlin name hname =>
    refine ⟨.kotlin name.content, true, fun _ => rfl, fun tail htail => ?_⟩
    have hread := kotlinName?_append hname tail
    have htext : "kotlin".toList ++ '(' :: (name.text ++ [')']) ++ tail =
        "kotlin".toList ++ '(' :: (name.text ++ ')' :: tail) := by
      simp
    have hliteral : literalName? ("kotlin".toList ++ '(' :: (name.text ++ ')' :: tail)) = none :=
      rfl
    rw [pluginName?, htext, hliteral, hread, onOneLine_of_notMem htail]
    rfl
  | backticks hid =>
    refine ⟨.backtick id, true, fun _ => rfl, fun tail htail => ?_⟩
    have hread := backtickName?_append hid tail
    have htext : '`' :: (id ++ ['`']) ++ tail = '`' :: (id ++ '`' :: tail) := by simp
    have hliteral : literalName? ('`' :: (id ++ '`' :: tail)) = none := rfl
    have hkotlin : kotlinName? ('`' :: (id ++ '`' :: tail)) = none := rfl
    have hcatalog : catalogName? ('`' :: (id ++ '`' :: tail)) = none := rfl
    rw [pluginName?, htext, hliteral, hkotlin, hcatalog, hread, onOneLine_of_notMem htail]
    rfl

end Names

/-! ## How entries are read -/

section Entries

variable {id text tail keyword argument early : List Char} {args : List (List Char)}
  {version : Option (List Char)} {flag : Option Bool}

/-- A text ends with a character that is no blank. -/
def EndsSolid (text : List Char) : Prop :=
  ∃ init last, text = init ++ [last] ∧ Text.isBlank last = false

theorem EndsSolid.append (h : EndsSolid text) (first : List Char) : EndsSolid (first ++ text) := by
  obtain ⟨init, last, rfl, hlast⟩ := h
  exact ⟨first ++ init, last, (List.append_assoc ..).symm, hlast⟩

theorem Quotation.endsSolid (quotation : Quotation) : EndsSolid quotation.text := by
  refine ⟨quotation.quote :: quotation.content, quotation.quote, rfl, ?_⟩
  exact quotation.isBlank_head [] quotation.quote rfl

theorem endsSolid_flagText (flag : Bool) : EndsSolid (flagText flag) := by
  cases flag with
  | true => exact ⟨"tru".toList, 'e', rfl, by decide⟩
  | false => exact ⟨"fals".toList, 'e', rfl, by decide⟩

theorem WritesName.endsSolid (h : WritesName id args text) : EndsSolid text := by
  have hclose : EndsSolid [')'] := ⟨[], ')', rfl, by decide⟩
  cases h with
  | call id hid => exact ((hclose.append id.text).append ['(']).append "id".toList
  | word hblanks id hid => exact (id.endsSolid.append _).append "id".toList
  | kotlin name hname => exact ((hclose.append name.text).append ['(']).append "kotlin".toList
  | @backticks id hid => exact EndsSolid.append ⟨id, '`', rfl, by decide⟩ ['`']

theorem WritesClause.endsSolid (h : WritesClause keyword argument text)
    (hargument : EndsSolid argument) : EndsSolid text := by
  have hclose : EndsSolid [')'] := ⟨[], ')', rfl, by decide⟩
  cases h with
  | words hbefore hbetween => exact ((hargument.append _).append keyword).append _
  | call => exact (((hclose.append argument).append ['(']).append keyword).append ['.']

/-- Behind clauses an entry ends as solidly as in front of them. -/
theorem WritesClauses.endsSolid (h : WritesClauses version flag early tail)
    (htext : EndsSolid text) : EndsSolid (text ++ tail) := by
  cases h with
  | none => rwa [List.append_nil]
  | @version version _ hversion h => exact (h.endsSolid version.endsSolid).append _
  | @flag flag _ h => exact (h.endsSolid (endsSolid_flagText flag)).append _
  | @versionFlag _ flag _ _ hversion hfirst hsecond =>
    exact ((hsecond.endsSolid (endsSolid_flagText flag)).append _).append _
  | @flagVersion version _ _ _ hversion hfirst hsecond =>
    exact ((hsecond.endsSolid version.endsSolid).append _).append _

theorem IsMadeOf.notMem_feed {blanks : List Char} (h : IsMadeOf isInlineBlank blanks) :
    '\n' ∉ blanks :=
  fun hmem => absurd (h.all _ hmem) (by decide)

theorem Quotation.notMem_feed {quotation : Quotation}
    (h : IsMadeOf isEntryChar quotation.content) : '\n' ∉ quotation.text := by
  have hquote : '\n' ≠ quotation.quote := (quotation.quote_ne rfl).symm
  have hcontent : '\n' ∉ quotation.content := fun hmem => absurd (h.all _ hmem) (by decide)
  simp [text, hquote, hcontent]

theorem WritesClause.notMem_feed (h : WritesClause keyword argument text)
    (hkeyword : '\n' ∉ keyword) (hargument : '\n' ∉ argument) : '\n' ∉ text := by
  cases h with
  | words hbefore hbetween =>
    simp only [List.mem_append, not_or]
    exact ⟨hbefore.notMem_feed, hkeyword, hbetween.notMem_feed, hargument⟩
  | call => simp [hkeyword, hargument]

/-- Clauses stand on one line. -/
theorem WritesClauses.notMem_feed (h : WritesClauses version flag early tail) : '\n' ∉ tail := by
  have hversion {version : Quotation} {text : List Char}
      (hcontent : IsMadeOf isEntryChar version.content)
      (h : WritesClause "version".toList version.text text) : '\n' ∉ text :=
    h.notMem_feed (by decide) (Quotation.notMem_feed hcontent)
  have hflag {flag : Bool} {text : List Char}
      (h : WritesClause "apply".toList (flagText flag) text) : '\n' ∉ text :=
    h.notMem_feed (by decide) (by cases flag <;> decide)
  cases h with
  | none => simp
  | version hcontent h => exact hversion hcontent h
  | flag h => exact hflag h
  | versionFlag hcontent hfirst hsecond =>
    exact List.not_mem_append (hversion hcontent hfirst) (hflag hsecond)
  | flagVersion hcontent hfirst hsecond =>
    exact List.not_mem_append (hflag hfirst) (hversion hcontent hsecond)

/-- An entry begins with the name of its plugin, which is no `apply`. -/
theorem WritesName.head (h : WritesName id args text) :
    ∃ c rest, text = c :: rest ∧ Text.isBlank c = false ∧ c ≠ 'a' := by
  cases h with
  | call id hid => exact ⟨'i', _, rfl, by decide, by decide⟩
  | word hblanks id hid => exact ⟨'i', _, rfl, by decide, by decide⟩
  | kotlin name hname => exact ⟨'k', _, rfl, by decide, by decide⟩
  | backticks hid => exact ⟨'`', _, rfl, by decide, by decide⟩

theorem WritesName.trim_append (hname : WritesName id args text)
    (htail : WritesClauses version flag early tail) : Text.trim (text ++ tail) = text ++ tail := by
  obtain ⟨c, rest, rfl, hblank, -⟩ := hname.head
  obtain ⟨init, last, hends, hlast⟩ := htail.endsSolid hname.endsSolid
  refine Text.trim_of_ends (by rintro _ ⟨⟩; exact hblank) ?_
  rw [hends]
  simpa using hlast

theorem WritesName.applyStatement?_append (hname : WritesName id args text)
    (htail : WritesClauses version flag early tail) : applyStatement? (text ++ tail) = none := by
  have htrim := hname.trim_append htail
  obtain ⟨c, rest, rfl, -, hletter⟩ := hname.head
  have hnone : Text.after? "apply".toList (c :: rest ++ tail) = none :=
    Option.eq_none_iff_forall_ne_some.mpr fun other hother =>
      hletter (List.cons.inj (Text.after?_eq_some_iff.mp hother)).1
  rw [applyStatement?, htrim, hnone]
  rfl

/-- An entry is read back as it is written: its identifier, its arguments and its version always,
and whether the plugin is applied exactly where no early version tells anything else. -/
theorem pluginEntry_of_written (hname : WritesName id args text)
    (htail : WritesClauses version flag early tail) :
    ∃ isApplied, pluginEntry (text ++ tail) = .ok ⟨id, version, args, isApplied⟩ ∧
      (∀ told, FirstFlag early told → isApplied = told) ∧
      (isApplied = flag.getD true ↔ ∀ told, FirstFlag early told → told = flag.getD true) := by
  obtain ⟨name, parens, hreference, hread⟩ := hname.exists_pluginName?
  have hclauses := htail.readsClauses parens
  have hrest := hread tail htail.notMem_feed
  generalize skipCloseAfterBlanks (closing parens ++ tail) = rest at hrest hclauses
  have hentry : pluginEntry (text ++ tail) =
      .ok ⟨id, version, args, (firstFlag? rest).getD true⟩ := by
    unfold pluginEntry
    simp only [hname.trim_append htail, hname.applyStatement?_append htail, hrest, hreference]
    dsimp only [bind, Except.bind]
    rw [hclauses.version, hclauses.leftover]
    rfl
  have htold : ∀ told, FirstFlag early told → (firstFlag? rest).getD true = told := by
    intro told h
    rw [hclauses.told told h, Option.getD_some]
  refine ⟨_, hentry, htold, fun heq told h => (htold told h).symm.trans heq, fun hagree => ?_⟩
  by_cases hnone : ∀ told, ¬ FirstFlag early told
  · rw [hclauses.flag hnone]
  · push Not at hnone
    obtain ⟨told, h⟩ := hnone
    exact (htold told h).trans (hagree told h)

/-- A flag behind a usual version is read. -/
theorem flag_behind_version_is_read :
    WritesName "org.x".toList [] "id(\"org.x\")".toList ∧
      WritesClauses (some "1.0".toList) (some false) "1.0".toList
        " version \"1.0\" apply false".toList ∧
      pluginEntry ("id(\"org.x\")".toList ++ " version \"1.0\" apply false".toList) =
        .ok ⟨"org.x".toList, some "1.0".toList, [], false⟩ := by
  have hname : WritesName "org.x".toList [] "id(\"org.x\")".toList :=
    .call ⟨'"', "org.x".toList, rfl⟩ (by decide)
  have hblank : IsMadeOf isInlineBlank [' '] := by decide
  have hversion : WritesClause "version".toList "\"1.0\"".toList " version \"1.0\"".toList :=
    .words hblank hblank
  have hflag : WritesClause "apply".toList (flagText false) " apply false".toList :=
    .words hblank hblank
  have htail : WritesClauses (some "1.0".toList) (some false) "1.0".toList
      " version \"1.0\" apply false".toList :=
    @WritesClauses.versionFlag ⟨'"', "1.0".toList, rfl⟩ _ _ _ (by decide) hversion hflag
  have hearly : ∀ told, ¬ FirstFlag "1.0".toList told := by
    intro told h
    have hnone : laterFlag? ("1.0".toList ++ ['"']) = none := by decide +kernel
    have hquote : isQuote '"' = true := rfl
    cases hnone.symm.trans (laterFlag?_of_firstFlag hquote h [])
  obtain ⟨isApplied, hread, -, hiff⟩ := pluginEntry_of_written hname htail
  obtain rfl := hiff.mpr fun told h => absurd h (hearly told)
  exact ⟨hname, htail, hread⟩

/-- The text of a version is taken for a flag. -/
theorem flag_in_version_is_read :
    WritesName "x".toList [] "id(\"x\")".toList ∧
      WritesClauses (some "1 apply false".toList) none "1 apply false".toList
        " version \"1 apply false\"".toList ∧
      pluginEntry ("id(\"x\")".toList ++ " version \"1 apply false\"".toList) =
        .ok ⟨"x".toList, some "1 apply false".toList, [], false⟩ ∧
      pluginEntry ("id(\"x\")".toList ++ " version \"1 apply false\"".toList) ≠
        .ok ⟨"x".toList, some "1 apply false".toList, [], true⟩ := by
  have hname : WritesName "x".toList [] "id(\"x\")".toList :=
    .call ⟨'"', "x".toList, rfl⟩ (by decide)
  have hblank : IsMadeOf isInlineBlank [' '] := by decide
  have hversion : WritesClause "version".toList "\"1 apply false\"".toList
      " version \"1 apply false\"".toList :=
    .words hblank hblank
  have htail : WritesClauses (some "1 apply false".toList) none "1 apply false".toList
      " version \"1 apply false\"".toList :=
    @WritesClauses.version ⟨'"', "1 apply false".toList, rfl⟩ _ (by decide) hversion
  exact ⟨hname, htail, by decide +kernel, by decide +kernel⟩

end Entries

end CorpusFacts.Gradle
