import CorpusFacts.Proofs.Gradle.ShortNotation

/-!
# Notations of one dependency

A group, an artifact and a version are declared by one text with colons, by texts of their own, or
under names; however this is written, the same coordinates are declared.
-/

namespace CorpusFacts.Gradle

/-- Characters of a version that is written without colons. -/
def isVersionChar (c : Char) : Bool :=
  isValueChar c && c != ':'

/-- A group, an artifact and perhaps a version, with colons between them. -/
def joined (group artifact : List Char) (version : Option (List Char)) : List Char :=
  group ++ ':' :: (artifact ++ version.elim [] (':' :: ·))

/-- The signs between a name and a value. -/
def isAssignment (c : Char) : Bool :=
  c == ':' || c == '='

/-- The tokens of an argument with its name. -/
def named (name : String) (sign : Char) (value : Quotation) : List (List Char) :=
  [name.toList, [sign], value.text]

/-- The tokens of arguments that tell a group, an artifact and perhaps a version. -/
inductive Written : (group artifact : List Char) → Option (List Char) → List (List Char) → Prop
  /-- One text with colons. -/
  | short {group artifact : List Char} {version : Option (List Char)} (whole : Quotation)
      (hwhole : whole.content = joined group artifact version) :
      Written group artifact version [whole.text]
  /-- Two texts. -/
  | positional (group artifact : Quotation) :
      Written group.content artifact.content none (separated [group, artifact])
  /-- Three texts. -/
  | positionalVersion (group artifact version : Quotation) :
      Written group.content artifact.content (some version.content)
        (separated [group, artifact, version])
  /-- Two texts under their names. -/
  | named {first second : Char} (hfirst : isAssignment first = true)
      (hsecond : isAssignment second = true) (group artifact : Quotation) :
      Written group.content artifact.content none
        (named "group" first group ++ [','] :: named "name" second artifact)
  /-- Three texts under their names. -/
  | namedVersion {first second third : Char} (hfirst : isAssignment first = true)
      (hsecond : isAssignment second = true) (hthird : isAssignment third = true)
      (group artifact version : Quotation) :
      Written group.content artifact.content (some version.content)
        (named "group" first group ++ [','] :: (named "name" second artifact ++
          [','] :: named "version" third version))

theorem isValueChar_of_version {c : Char} (h : isVersionChar c = true) : isValueChar c = true := by
  rw [isVersionChar, Bool.and_eq_true] at h
  exact h.1

theorem ne_colon_of_version {c : Char} (h : isVersionChar c = true) : c ≠ ':' := by
  rintro rfl
  cases h

theorem isVersionChar_of_coordinate {c : Char} (h : isCoordinateChar c = true) :
    isVersionChar c = true := by
  have hcolon : c ≠ ':' := by
    rintro rfl
    cases h
  simp [isVersionChar, isValueChar_of_coordinate h, hcolon]

theorem IsMadeOf.isVersion {version : List Char} (h : IsMadeOf isVersionChar version) :
    IsVersion version := by
  refine ⟨h.ne_nil, fun c hc => isValueChar_of_version (h.all c hc), .inl fun hhead => ?_⟩
  exact ne_colon_of_version (h.all ':' (List.mem_of_mem_head? hhead)) rfl

theorem isAssignment_eq_true_iff {c : Char} : isAssignment c = true ↔ c = ':' ∨ c = '=' := by
  simp [isAssignment]

section Quotations

variable {word group artifact : List Char} {version : Option (List Char)}

/-- Short coordinates in one text. -/
theorem isShort_joined (hgroup : IsMadeOf isCoordinateChar group)
    (hartifact : IsMadeOf isCoordinateChar artifact) (hversion : ∀ text ∈ version, IsVersion text) :
    IsShort (joined group artifact version) group artifact version := by
  have hcolon : IsMadeOf isDivider [':'] := by decide
  have htail : TellsVersion (version.elim [] (':' :: ·)) version := by
    cases version with
    | none => exact .none
    | some text => exact .some hcolon (hversion text rfl)
  exact .parts hgroup hcolon hartifact htail

/-- What a declaration tells that is no list of coordinates and is read as a notation. -/
theorem declaration_of_found {text whole : List Char} {found : Notation}
    (htext : Text.compact text = whole) (hlist : coordinateList? whole = none)
    (hfound : (shortNotation? whole <|> mapNotation? whole <|> kotlinNotation? whole) =
      some found) :
    declaration text = .ok found.coordinates := by
  simp only [declaration, htext, hlist, hfound]

/-- One text, or texts without colons, are no list of coordinates. -/
theorem coordinateList?_eq_none (hne : word ≠ []) (hword : ∀ c ∈ word, Text.isWord c = true)
    {quotations : List Quotation} (hsome : quotations ≠ [])
    (hcontent : ∀ quotation ∈ quotations, ∀ c ∈ quotation.content, isQuote c = false)
    (hfew : quotations.length < 2 ∨ ∀ quotation ∈ quotations, ':' ∉ quotation.content)
    (parens : Bool) :
    coordinateList? (word ++ enclosed parens (separated quotations).flatten) = none := by
  have hcolons : quotations.length < 2 ∨ ¬ ∃ quotation ∈ quotations, ':' ∈ quotation.content := by
    simpa using hfew
  simp only [coordinateList?, wordWithTexts?_separated hne hword hsome hcontent,
    Option.bind_eq_bind, Option.bind_some, List.length_map]
  rw [if_pos]
  simpa using hcolons

/-- Texts without colons are no list of coordinates. -/
theorem coordinateList?_of_plain (hne : word ≠ []) (hword : ∀ c ∈ word, Text.isWord c = true)
    {quotations : List Quotation} (hsome : quotations ≠ [])
    (hplain : ∀ quotation ∈ quotations, IsMadeOf isVersionChar quotation.content)
    (parens : Bool) :
    coordinateList? (word ++ enclosed parens (separated quotations).flatten) = none := by
  refine coordinateList?_eq_none hne hword hsome (fun quotation hmem c hc => ?_)
    (.inr fun quotation hmem hcolon => ?_) parens
  · exact isQuote_of_value (isValueChar_of_version ((hplain quotation hmem).all c hc))
  · exact ne_colon_of_version ((hplain quotation hmem).all ':' hcolon) rfl

/-- What stands between the contents of two quotations. -/
theorem isSeparator_between (first second : Quotation) :
    IsMadeOf isSeparator [first.quote, ',', second.quote] := by
  refine ⟨by simp, ?_⟩
  simp [isSeparator, first.isQuote_quote, second.isQuote_quote]

/-- Short coordinates in one text hold no quotes. -/
theorem IsShort.isQuote_eq {text : List Char} (h : IsShort text group artifact version) :
    ∀ c ∈ text, isQuote c = false := by
  have hdivider {c : Char} (hc : isDivider c = true) : isQuote c = false := by
    simp only [isDivider, Bool.or_eq_true, beq_iff_eq] at hc
    rcases hc with rfl | rfl <;> rfl
  cases h with
  | @parts _ _ _ tail _ hgroup hdividers hartifact htail =>
    have hbehind : ∀ c ∈ tail, isQuote c = false := by
      cases htail with
      | none => simp
      | some hbefore hversion =>
        exact List.forall_mem_append.mpr ⟨fun c hc => hdivider (hbefore.all c hc),
          hversion.isQuote_eq⟩
    simp only [List.forall_mem_append]
    exact ⟨hgroup.isQuote_eq, fun c hc => hdivider (hdividers.all c hc), hartifact.isQuote_eq,
      hbehind⟩

/-- A declaration whose texts are read as short coordinates. -/
theorem declaration_of_readsShort (hne : word ≠ []) (hword : ∀ c ∈ word, Text.isWord c = true)
    {parens : Bool} {text body : List Char} {quotations : List Quotation} {quote : Char}
    (htext : Text.compact text = word ++ enclosed parens (separated quotations).flatten)
    (hlist : coordinateList? (word ++ enclosed parens (separated quotations).flatten) = none)
    (hbody : (separated quotations).flatten = quote :: body) (hquote : isQuote quote = true)
    (hreads : ReadsShort (body ++ closing parens) group artifact version) :
    declaration text = .ok (Notation.coordinates ⟨word, group, artifact, version⟩) := by
  refine declaration_of_found htext hlist ?_
  have hshort := (shortNotation?_eq_some_iff hne hword hquote parens).mpr
    (⟨rfl, hreads⟩ : (⟨word, group, artifact, version⟩ : Notation).configuration = word ∧ _)
  rw [hbody, hshort]
  rfl

/-- A text of short coordinates declares its parts. -/
theorem declaration_of_isShort (hne : word ≠ []) (hword : ∀ c ∈ word, Text.isWord c = true)
    {whole : Quotation} (hwhole : IsShort whole.content group artifact version) {parens : Bool}
    {text : List Char}
    (htext : Text.compact text = word ++ enclosed parens (separated [whole]).flatten) :
    declaration text = .ok (Notation.coordinates ⟨word, group, artifact, version⟩) := by
  have hcontent := hwhole.isQuote_eq
  have hlist := coordinateList?_eq_none hne hword (List.cons_ne_nil whole [])
    (by simpa using hcontent) (.inl (by simp)) parens
  have hreads : ReadsShort (whole.content ++ [whole.quote] ++ closing parens) group artifact
      version := by
    rw [List.append_assoc]
    exact (readsShort_content_iff hcontent whole.isQuote_quote).mpr hwhole
  exact declaration_of_readsShort hne hword htext hlist (by simp [separated, Quotation.text])
    whole.isQuote_quote hreads

/-- Two texts declare a group and an artifact. -/
theorem declaration_of_pair (hne : word ≠ []) (hword : ∀ c ∈ word, Text.isWord c = true)
    {first second : Quotation} (hfirst : IsMadeOf isCoordinateChar first.content)
    (hsecond : IsMadeOf isCoordinateChar second.content) {parens : Bool} {text : List Char}
    (htext : Text.compact text = word ++ enclosed parens (separated [first, second]).flatten) :
    declaration text = .ok (Notation.coordinates ⟨word, first.content, second.content, none⟩) := by
  have hplain : ∀ quotation ∈ [first, second], IsMadeOf isVersionChar quotation.content := by
    simpa using ⟨hfirst.imp fun _ => isVersionChar_of_coordinate,
      hsecond.imp fun _ => isVersionChar_of_coordinate⟩
  have hlist := coordinateList?_of_plain hne hword (List.cons_ne_nil _ _) hplain parens
  have hbody : (separated [first, second]).flatten =
      first.quote :: (first.content ++ ([first.quote, ',', second.quote] ++
        (second.content ++ [second.quote]))) := by
    simp [separated, Quotation.text]
  have hreads := ReadsShort.parts hfirst (isSeparator_between first second) hsecond
    (.bare second.isQuote_quote parens)
  exact declaration_of_readsShort hne hword htext hlist hbody first.isQuote_quote
    (by simpa using hreads)

/-- Three texts declare a group, an artifact and a version. -/
theorem declaration_of_triple (hne : word ≠ []) (hword : ∀ c ∈ word, Text.isWord c = true)
    {first second third : Quotation} (hfirst : IsMadeOf isCoordinateChar first.content)
    (hsecond : IsMadeOf isCoordinateChar second.content)
    (hthird : IsMadeOf isVersionChar third.content) {parens : Bool} {text : List Char}
    (htext : Text.compact text =
      word ++ enclosed parens (separated [first, second, third]).flatten) :
    declaration text =
      .ok (Notation.coordinates ⟨word, first.content, second.content, some third.content⟩) := by
  have hplain : ∀ quotation ∈ [first, second, third], IsMadeOf isVersionChar quotation.content := by
    simpa using ⟨hfirst.imp fun _ => isVersionChar_of_coordinate,
      hsecond.imp fun _ => isVersionChar_of_coordinate, hthird⟩
  have hlist := coordinateList?_of_plain hne hword (List.cons_ne_nil _ _) hplain parens
  have hbody : (separated [first, second, third]).flatten = first.quote ::
      (first.content ++ ([first.quote, ',', second.quote] ++ (second.content ++
        ([second.quote, ',', third.quote] ++ (third.content ++ [third.quote]))))) := by
    simp [separated, Quotation.text]
  have hbetween := isSeparator_between second third
  have hreads := ReadsShort.parts hfirst (isSeparator_between first second) hsecond
    (.version hbetween.ne_nil hbetween.all hthird.isVersion third.isQuote_quote parens)
  exact declaration_of_readsShort hne hword htext hlist hbody first.isQuote_quote
    (by simpa using hreads)

end Quotations

section Named

variable {word rest : List Char} {sign : Char}

/-- A value is read under its name. -/
theorem namedValue?_append {name : String} (hname : ∀ c ∈ name.toList, foldCase c = c)
    (hsign : isAssignment sign = true) {value : Quotation}
    (hvalue : IsMadeOf isValueChar value.content) (rest : List Char) :
    namedValue? name ((named name sign value).flatten ++ rest) = some (value.content, rest) := by
  have hflatten : (named name sign value).flatten ++ rest =
      name.toList ++ sign :: (value.text ++ rest) := by
    simp [named]
  have hassignment : afterChar? (fun c => c == ':' || c == '=') (sign :: (value.text ++ rest)) =
      some (value.text ++ rest) := afterChar?_cons hsign _
  simp only [namedValue?, hflatten, afterKeyword?_append hname, Option.bind_eq_bind,
    Option.bind_some, hassignment, quotedValue?_append hvalue.ne_nil hvalue.all]

/-- Where no quotation stands behind a word, its arguments are neither a list nor short. -/
theorem not_quoted (hne : word ≠ []) (hword : ∀ c ∈ word, Text.isWord c = true)
    (hrest : ∀ c ∈ rest.head?, Text.isWord c = false)
    (h : ∀ c ∈ (skipOpen rest).head?, isQuote c = false) :
    coordinateList? (word ++ rest) = none ∧ shortNotation? (word ++ rest) = none := by
  constructor
  · simp [coordinateList?, wordWithTexts?_eq_none hne hword hrest h]
  · simp [shortNotation?, run?_append hne hword hrest, afterChar?_of_head h]

/-- Where no word for the group stands, arguments are no map. -/
theorem mapNotation?_eq_none (hne : word ≠ []) (hword : ∀ c ∈ word, isLetter c = true)
    (hsuffix : ¬ "group".toList <:+ Text.asciiLower word)
    (hrest : ∀ c ∈ rest.head?, Text.isWord c = false) (hinside : NotInside "group" rest) :
    mapNotation? (word ++ rest) = none := by
  simp only [mapNotation?, wordBeforeKeyword?_eq_none hne hword hsuffix hrest hinside,
    Option.bind_eq_bind, Option.bind_none]

theorem isWord_of_isAssignment (h : isAssignment sign = true) : Text.isWord sign = false := by
  rcases isAssignment_eq_true_iff.mp h with rfl | rfl <;> decide

theorem isQuote_of_isAssignment (h : isAssignment sign = true) : isQuote sign = false := by
  rcases isAssignment_eq_true_iff.mp h with rfl | rfl <;> decide

variable {tail : List (List Char)} {group artifact version : Quotation} {second third : Char}

theorem flatten_named_group (sign : Char) (group : Quotation) (tail : List (List Char)) :
    (named "group" sign group ++ [','] :: tail).flatten =
      "group".toList ++ sign :: (group.text ++ ',' :: tail.flatten) := by
  simp [named]

/-- Arguments that begin with a group under its name are neither a list nor short. -/
theorem not_quoted_group (hne : word ≠ []) (hword : ∀ c ∈ word, Text.isWord c = true)
    (hsign : isAssignment sign = true) (parens : Bool) :
    coordinateList? (word ++ enclosed parens ("group".toList ++ sign :: rest)) = none ∧
      shortNotation? (word ++ enclosed parens ("group".toList ++ sign :: rest)) = none := by
  have hkeyword : ∀ c ∈ "group".toList, Text.isWord c = true :=
    List.all_eq_true.mp (by decide)
  cases parens with
  | true =>
    refine not_quoted hne hword ?_ ?_ <;>
    · rintro _ ⟨⟩
      rfl
  | false =>
    have hopen : sign ≠ '(' := by
      rintro rfl
      cases hsign
    have hskip : skipOpen (sign :: rest) = sign :: rest := by simp [skipOpen, hopen]
    have hjoined : ∀ c ∈ word ++ "group".toList, Text.isWord c = true :=
      List.forall_mem_append.mpr ⟨hword, hkeyword⟩
    rw [enclosed, if_neg (by simp), ← List.append_assoc]
    refine not_quoted (by simp [hne]) hjoined ?_ ?_
    · rintro _ ⟨⟩
      exact isWord_of_isAssignment hsign
    · rw [hskip]
      rintro _ ⟨⟩
      exact isQuote_of_isAssignment hsign

/-- The group is read under its name, whatever comes behind the comma. -/
theorem wordBeforeGroup (hne : word ≠ []) (hword : ∀ c ∈ word, Text.isWord c = true)
    (hsign : isAssignment sign = true) (parens : Bool) :
    wordBeforeKeyword? "group" (word ++ enclosed parens ("group".toList ++ sign :: rest)) =
      some (word, sign :: (rest ++ closing parens)) := by
  have hkeyword : ∀ c ∈ "group".toList, Text.isWord c = true ∧ foldCase c = c :=
    List.all_iff_forall_prop.mp (by decide)
  refine wordBeforeKeyword?_append hne hword hkeyword parens (isWord_of_isAssignment hsign) ?_
  rintro inner hinner
  obtain ⟨rfl, -⟩ := List.cons.inj hinner
  cases hsign

/-- Texts under their names are read as a map. -/
theorem declaration_of_map (hne : word ≠ []) (hword : ∀ c ∈ word, Text.isWord c = true)
    (hsign : isAssignment sign = true) {text : List Char} {parens : Bool} {found : Notation}
    (htext : Text.compact text = word ++ enclosed parens
      (named "group" sign group ++ [','] :: tail).flatten)
    (hmap : mapNotation? (Text.compact text) = some found) :
    declaration text = .ok found.coordinates := by
  obtain ⟨hlist, hshort⟩ := not_quoted_group hne hword hsign parens
  rw [flatten_named_group] at htext
  rw [htext] at hmap
  refine declaration_of_found htext hlist ?_
  rw [hshort, hmap]
  rfl

section Map

variable (hne : word ≠ []) (hword : ∀ c ∈ word, Text.isWord c = true)
  (hsign : isAssignment sign = true) (hsecond : isAssignment second = true)
  (hgroup : IsMadeOf isValueChar group.content)
  (hartifact : IsMadeOf isValueChar artifact.content)
include hne hword hsign hsecond hgroup hartifact

/-- A group and an artifact are read under their names; what closes the declaration, or a version
under its name, is left. -/
theorem mapNotation?_append (parens : Bool) (tail : List (List Char)) :
    mapNotation? (word ++ enclosed parens
        (named "group" sign group ++ [','] :: (named "name" second artifact ++ tail)).flatten) =
      if isClosed (tail.flatten ++ closing parens) then
        some ⟨word, group.content, artifact.content, none⟩
      else
        (afterChar? (· == ',') (tail.flatten ++ closing parens)).bind fun rest =>
          (namedValue? "version" rest).bind fun found =>
            if isClosed found.2 then some ⟨word, group.content, artifact.content, some found.1⟩
            else none := by
  have hafterSign (rest : List Char) :
      afterChar? (fun c => c == ':' || c == '=') (sign :: rest) = some rest :=
    afterChar?_cons hsign _
  have hafterComma (rest : List Char) : afterChar? (· == ',') (',' :: rest) = some rest := rfl
  have hname (rest : List Char) : namedValue? "name" _ = some (artifact.content, rest) :=
    namedValue?_append (List.all_iff_forall_prop.mp (by decide)) hsecond hartifact rest
  rw [flatten_named_group]
  simp only [mapNotation?, wordBeforeGroup hne hword hsign parens, Option.bind_eq_bind,
    Option.bind_some, hafterSign, List.append_assoc, List.cons_append,
    quotedValue?_append hgroup.ne_nil hgroup.all, hafterComma, List.flatten_append, hname]
  rfl

variable {text : List Char} {parens : Bool}

/-- Two texts under their names declare a group and an artifact. -/
theorem declaration_of_named (htext : Text.compact text = word ++ enclosed parens
      (named "group" sign group ++ [','] :: named "name" second artifact).flatten) :
    declaration text =
      .ok (Notation.coordinates ⟨word, group.content, artifact.content, none⟩) := by
  have hclosed : isClosed (closing parens) = true := isClosed_iff.mpr ⟨parens, rfl⟩
  have hmap := mapNotation?_append hne hword hsign hsecond hgroup hartifact parens []
  rw [List.append_nil, List.flatten_nil, List.nil_append, if_pos hclosed, ← htext] at hmap
  exact declaration_of_map hne hword hsign htext hmap

/-- Three texts under their names declare a group, an artifact and a version. -/
theorem declaration_of_namedVersion (hthird : isAssignment third = true)
    (hversion : IsMadeOf isValueChar version.content)
    (htext : Text.compact text = word ++ enclosed parens
      (named "group" sign group ++ [','] :: (named "name" second artifact ++
        [','] :: named "version" third version)).flatten) :
    declaration text =
      .ok (Notation.coordinates ⟨word, group.content, artifact.content, some version.content⟩) := by
  have hclosed : isClosed (closing parens) = true := isClosed_iff.mpr ⟨parens, rfl⟩
  have hopen (rest : List Char) : isClosed (',' :: rest) = false := rfl
  have hafterComma (rest : List Char) : afterChar? (· == ',') (',' :: rest) = some rest := rfl
  have hread : namedValue? "version" _ = some (version.content, closing parens) :=
    namedValue?_append (List.all_iff_forall_prop.mp (by decide)) hthird hversion (closing parens)
  have hmap := mapNotation?_append hne hword hsign hsecond hgroup hartifact parens
    ([','] :: named "version" third version)
  rw [List.flatten_cons, List.append_assoc, List.singleton_append, hopen, hafterComma,
    Option.bind_some, hread, Option.bind_some, if_pos hclosed, ← htext] at hmap
  exact declaration_of_map hne hword hsign htext hmap

end Map

end Named

/-- A known configuration asks for what a notation tells. -/
theorem Names.coordinates {name : List Char} {configuration : String}
    (h : Names name configuration) (group artifact : List Char) (version : Option (List Char)) :
    Notation.coordinates ⟨name, group, artifact, version⟩ =
      [⟨configuration, group, artifact, version⟩] := by
  simp only [Notation.coordinates, h.configuration?_eq]

theorem Spaced.declared {name : List Char} {parens : Bool} {arguments : List (List Char)}
    {text : List Char} (h : Spaced (name :: inParens parens arguments) text) :
    Text.compact text = name ++ enclosed parens arguments.flatten := by
  rw [h.compact_eq, List.flatten_cons, flatten_inParens]

/-- However a group, an artifact and perhaps a version are written behind a known configuration, in
one text, in texts of their own or under names, in either kind of quotes, with or without
parentheses and with any blanks between the tokens: these coordinates are declared, and nothing
else. -/
theorem declaration_of_written {name : List Char} {configuration : String}
    {group artifact : List Char} {version : Option (List Char)} {arguments : List (List Char)}
    {parens : Bool} {text : List Char} (hname : Names name configuration)
    (hgroup : IsMadeOf isCoordinateChar group) (hartifact : IsMadeOf isCoordinateChar artifact)
    (hversion : ∀ text ∈ version, IsMadeOf isVersionChar text)
    (hwritten : Written group artifact version arguments)
    (hspaced : Spaced (name :: inParens parens arguments) text) :
    declaration text = .ok [⟨configuration, group, artifact, version⟩] := by
  have htext := hspaced.declared
  rw [← hname.coordinates]
  cases hwritten with
  | short whole hwhole =>
    have hshort : IsShort whole.content group artifact version :=
      hwhole ▸ isShort_joined hgroup hartifact fun text h => (hversion text h).isVersion
    exact declaration_of_isShort hname.ne_nil hname.words hshort htext
  | positional group artifact =>
    exact declaration_of_pair hname.ne_nil hname.words hgroup hartifact htext
  | positionalVersion group artifact version =>
    exact declaration_of_triple hname.ne_nil hname.words hgroup hartifact (hversion _ rfl) htext
  | named hfirst hsecond group artifact =>
    exact declaration_of_named hname.ne_nil hname.words hfirst hsecond
      (hgroup.imp fun _ => isValueChar_of_coordinate)
      (hartifact.imp fun _ => isValueChar_of_coordinate) htext
  | namedVersion hfirst hsecond hthird group artifact version =>
    exact declaration_of_namedVersion hname.ne_nil hname.words hfirst hsecond
      (hgroup.imp fun _ => isValueChar_of_coordinate)
      (hartifact.imp fun _ => isValueChar_of_coordinate) hthird
      ((hversion _ rfl).imp fun _ => isValueChar_of_version) htext

/-- A version with a template, under its name and on a line of its own. -/
theorem declaration_of_template :
    Names "testimplementation".toList "testImplementation" ∧
      IsMadeOf isCoordinateChar "org.a-b".toList ∧ IsMadeOf isVersionChar "$\x7bv\x7d+".toList ∧
      declaration
          "testimplementation (group: 'org.a-b', name = \"c\",\n\tversion='$\x7bv\x7d+' )".toList =
        .ok [⟨"testImplementation", "org.a-b".toList, ['c'], some "$\x7bv\x7d+".toList⟩] := by
  have hname : Names "testimplementation".toList "testImplementation" := by decide
  have hgroup : IsMadeOf isCoordinateChar "org.a-b".toList := by decide
  have hartifact : IsMadeOf isCoordinateChar ['c'] := by decide
  have hversion : IsMadeOf isVersionChar "$\x7bv\x7d+".toList := by decide
  have hversions : ∀ text ∈ some "$\x7bv\x7d+".toList, IsMadeOf isVersionChar text := by
    rintro _ ⟨⟩
    exact hversion
  have hcolon : isAssignment ':' = true := rfl
  have hequals : isAssignment '=' = true := rfl
  have hwritten := Written.namedVersion hcolon hequals hequals
    ⟨'\'', "org.a-b".toList, rfl⟩ ⟨'"', ['c'], rfl⟩ ⟨'\'', "$\x7bv\x7d+".toList, rfl⟩
  refine ⟨hname, hgroup, hversion, declaration_of_written hname hgroup hartifact hversions hwritten
    (?_ : Spaced (_ :: inParens true _) ([] ++ ("testimplementation".toList ++ ([' '] ++ (['('] ++
      ([] ++ ("group".toList ++ ([] ++ ([':'] ++ ([' '] ++ ("'org.a-b'".toList ++ ([] ++ ([','] ++
      ([' '] ++ ("name".toList ++ ([' '] ++ (['='] ++ ([' '] ++ ("\"c\"".toList ++ ([] ++ ([','] ++
      (['\n', '\t'] ++ ("version".toList ++ ([] ++ (['='] ++ ([] ++ ("'$\x7bv\x7d+'".toList ++
      ([' '] ++ ([')'] ++ [])))))))))))))))))))))))))))))⟩
  repeat refine Spaced.token rfl rfl ?_
  exact .last rfl

end CorpusFacts.Gradle
