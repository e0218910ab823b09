import CorpusFacts.Proofs.Gradle.Notations

/-!
# The Kotlin notation

A module of the Kotlin library is declared by a call inside the arguments. Blanks do not count, so
without parentheses the configuration runs together with the word for the library. A call with one
text is read all the same. One with two texts is then taken for the short notation of a
configuration that does not exist, and declares nothing.
-/

namespace CorpusFacts.Gradle

/-- The tokens of a call for a module of the Kotlin library. -/
def kotlinCall (arguments : List (List Char)) : List (List Char) :=
  "kotlin".toList :: inParens true arguments

/-- The tokens of a call for a module of the Kotlin library, perhaps in a version. -/
inductive WrittenKotlin : (library : List Char) → Option (List Char) → List (List Char) → Prop
  /-- The module alone. -/
  | bare (library : Quotation) : WrittenKotlin library.content none (kotlinCall [library.text])
  /-- The version behind the module. -/
  | positional (library version : Quotation) :
      WrittenKotlin library.content (some version.content)
        (kotlinCall (separated [library, version]))
  /-- The version under its name. -/
  | named (library version : Quotation) :
      WrittenKotlin library.content (some version.content)
        (kotlinCall (library.text :: [','] :: named "version" '=' version))

/-- What the Kotlin notation of a module tells. -/
def kotlinNotation (word library : List Char) (version : Option (List Char)) : Notation :=
  ⟨word, "org.jetbrains.kotlin".toList, "kotlin-".toList ++ library, version⟩

theorem flatten_kotlinCall (library : Quotation) (tail : List (List Char)) :
    (kotlinCall (library.text :: tail)).flatten =
      "kotlin".toList ++ '(' :: (library.text ++ (tail.flatten ++ [')'])) := by
  rw [kotlinCall, List.flatten_cons, flatten_inParens, List.flatten_cons, enclosed, if_pos rfl,
    List.append_assoc]

section Reading

variable {word : List Char} {library : Quotation} (hne : word ≠ [])
  (hword : ∀ c ∈ word, Text.isWord c = true)
  (hlibrary : IsMadeOf isValueChar library.content)
include hne hword hlibrary

/-- A module is read behind the word for the library; what closes the call, or a version, is
left. -/
theorem kotlinNotation?_append (parens : Bool) (tail : List (List Char)) :
    kotlinNotation? (word ++ enclosed parens (kotlinCall (library.text :: tail)).flatten) =
      if closesKotlin (tail.flatten ++ ')' :: closing parens) then
        some (kotlinNotation word library.content none)
      else
        (afterChar? (· == ',') (tail.flatten ++ ')' :: closing parens)).bind fun rest =>
          (quotedValue? ((afterKeyword? "version=".toList rest).getD rest)).bind fun found =>
            if closesKotlin found.2 then
              some (kotlinNotation word library.content (some found.1))
            else none := by
  have hinside : NotInside "kotlin" ('(' :: (library.text ++ (tail.flatten ++ [')']))) := by
    rintro inner ⟨⟩
    exact afterKeyword?_text (by decide) library _
  have hbefore : wordBeforeKeyword? "kotlin" _ =
      some (word, '(' :: (library.text ++ (tail.flatten ++ [')']) ++ closing parens)) :=
    wordBeforeKeyword?_append hne hword (List.all_iff_forall_prop.mp (by decide)) parens (by decide)
      hinside
  have hafterOpen (rest : List Char) : afterChar? (· == '(') ('(' :: rest) = some rest := rfl
  rw [flatten_kotlinCall]
  simp only [kotlinNotation?, hbefore, Option.bind_eq_bind, Option.bind_some, hafterOpen,
    List.append_assoc, quotedValue?_append hlibrary.ne_nil hlibrary.all]
  rfl

/-- A call for a module is read. -/
theorem kotlinNotation?_bare (parens : Bool) :
    kotlinNotation? (word ++ enclosed parens (kotlinCall [library.text]).flatten) =
      some (kotlinNotation word library.content none) := by
  have hclosed : closesKotlin (')' :: closing parens) = true := isClosed_iff.mpr ⟨parens, rfl⟩
  rw [kotlinNotation?_append hne hword hlibrary parens [], List.flatten_nil, List.nil_append,
    if_pos hclosed]

variable {version : Quotation} (hversion : IsMadeOf isValueChar version.content)
include hversion

/-- A call for a module in a version is read, with or without a label in front of the version. -/
theorem kotlinNotation?_version {tail : List (List Char)} {label : List Char}
    (htail : tail.flatten = ',' :: (label ++ version.text))
    (hlabel : ∀ rest, (afterKeyword? "version=".toList (label ++ (version.text ++ rest))).getD
      (label ++ (version.text ++ rest)) = version.text ++ rest) (parens : Bool) :
    kotlinNotation? (word ++ enclosed parens (kotlinCall (library.text :: tail)).flatten) =
      some (kotlinNotation word library.content (some version.content)) := by
  have hclosed : closesKotlin (')' :: closing parens) = true := isClosed_iff.mpr ⟨parens, rfl⟩
  have hopen (rest : List Char) : closesKotlin (',' :: rest) = false := rfl
  have hafterComma (rest : List Char) : afterChar? (· == ',') (',' :: rest) = some rest := rfl
  have hread := kotlinNotation?_append hne hword hlibrary parens tail
  rw [htail, List.cons_append, List.append_assoc, hopen, hafterComma, Option.bind_some, hlabel,
    quotedValue?_append hversion.ne_nil hversion.all, Option.bind_some, if_pos hclosed] at hread
  exact hread

theorem kotlinNotation?_positional (parens : Bool) :
    kotlinNotation? (word ++ enclosed parens (kotlinCall (separated [library, version])).flatten) =
      some (kotlinNotation word library.content (some version.content)) := by
  have hlabel (rest : List Char) : afterKeyword? "version=".toList (version.text ++ rest) = none :=
    afterKeyword?_text (by decide) version rest
  have htail : [[','], version.text].flatten = ',' :: ([] ++ version.text) := by simp
  refine kotlinNotation?_version hne hword hlibrary hversion htail ?_ parens
  intro rest
  rw [List.nil_append, hlabel]
  rfl

theorem kotlinNotation?_named (parens : Bool) :
    kotlinNotation? (word ++ enclosed parens
        (kotlinCall (library.text :: [','] :: named "version" '=' version)).flatten) =
      some (kotlinNotation word library.content (some version.content)) := by
  have htail : ([','] :: named "version" '=' version).flatten =
      ',' :: ("version=".toList ++ version.text) := by
    simp [named]
  refine kotlinNotation?_version hne hword hlibrary hversion htail ?_ parens
  intro rest
  rw [afterKeyword?_append (List.all_iff_forall_prop.mp (by decide))]
  rfl

end Reading

/-- However a call for a module is written, the module and its version are read. -/
theorem WrittenKotlin.kotlinNotation?_eq {word library : List Char} {version : Option (List Char)}
    {arguments : List (List Char)} (h : WrittenKotlin library version arguments) (hne : word ≠ [])
    (hword : ∀ c ∈ word, Text.isWord c = true) (hlibrary : IsMadeOf isValueChar library)
    (hversion : ∀ text ∈ version, IsMadeOf isValueChar text) (parens : Bool) :
    kotlinNotation? (word ++ enclosed parens arguments.flatten) =
      some (kotlinNotation word library version) := by
  cases h with
  | bare library => exact kotlinNotation?_bare hne hword hlibrary parens
  | positional library version =>
    exact kotlinNotation?_positional hne hword hlibrary (hversion _ rfl) parens
  | named library version =>
    exact kotlinNotation?_named hne hword hlibrary (hversion _ rfl) parens

theorem WrittenKotlin.exists_call {library : List Char} {version : Option (List Char)}
    {arguments : List (List Char)} (h : WrittenKotlin library version arguments) :
    ∃ inner, arguments = kotlinCall inner := by
  cases h <;> exact ⟨_, rfl⟩

/-- Without parentheses the word for the library runs on from the configuration. -/
theorem enclosed_kotlinCall (name : List Char) (arguments : List (List Char)) :
    name ++ enclosed false (kotlinCall arguments).flatten =
      name ++ "kotlin".toList ++ enclosed true arguments.flatten := by
  rw [enclosed, if_neg (by simp), kotlinCall, List.flatten_cons, flatten_inParens,
    List.append_assoc]

section Inside

variable {name : List Char} {configuration : String}

/-- In parentheses a call for the Kotlin library is nothing but that. -/
theorem declaration_of_call (hname : Names name configuration) {text : List Char}
    {arguments : List (List Char)} {found : Notation}
    (htext : Text.compact text = name ++ enclosed true (kotlinCall arguments).flatten)
    (hkotlin : kotlinNotation? (Text.compact text) = some found) :
    declaration text = .ok found.coordinates := by
  have hopen : ∀ c ∈ (enclosed true (kotlinCall arguments).flatten).head?,
      Text.isWord c = false := by
    rintro _ ⟨⟩
    rfl
  have hinner : ∀ c ∈ (skipOpen (enclosed true (kotlinCall arguments).flatten)).head?,
      isQuote c = false := by
    rintro _ ⟨⟩
    rfl
  have hinside : NotInside "group" (enclosed true (kotlinCall arguments).flatten) := by
    rintro inner ⟨⟩
    rfl
  obtain ⟨hlist, hshort⟩ := not_quoted hname.ne_nil hname.words hopen hinner
  have hmap := mapNotation?_eq_none hname.ne_nil hname.letters (hname.not_suffix (by decide)) hopen
    hinside
  refine declaration_of_found htext hlist ?_
  rw [hshort, hmap, ← htext, hkotlin]
  rfl

end Inside

section Outside

variable {name : List Char} {configuration : String}

namespace Names

variable (h : Names name configuration)
include h

theorem ne_nil_kotlin : name ++ "kotlin".toList ≠ [] :=
  List.append_ne_nil_of_left_ne_nil h.ne_nil _

theorem letters_kotlin : ∀ c ∈ name ++ "kotlin".toList, isLetter c = true :=
  List.forall_mem_append.mpr ⟨h.letters, List.all_eq_true.mp (by decide)⟩

theorem words_kotlin : ∀ c ∈ name ++ "kotlin".toList, Text.isWord c = true :=
  fun c hc => isWord_of_isLetter (h.letters_kotlin c hc)

/-- A configuration that is run together with the word for the Kotlin library declares nothing. -/
theorem coordinates_kotlin (group artifact : List Char) (version : Option (List Char)) :
    Notation.coordinates ⟨name ++ "kotlin".toList, group, artifact, version⟩ = [] := by
  simp only [Notation.coordinates, h.configuration?_kotlin]

end Names

theorem not_group_suffix_kotlin (name : List Char) :
    ¬ "group".toList <:+ Text.asciiLower (name ++ "kotlin".toList) := by
  intro h
  have hkotlin : Text.asciiLower "kotlin".toList <:+ Text.asciiLower (name ++ "kotlin".toList) :=
    (List.suffix_append name "kotlin".toList).map Char.toLower
  exact absurd (List.suffix_of_suffix_length_le h hkotlin (by decide)) (by decide)

variable {library version : Quotation} {text : List Char}

/-- One text without a colon or a comma is not short. -/
theorem not_isShort_of_coordinate {content group artifact : List Char}
    {version : Option (List Char)} (hcontent : IsMadeOf isCoordinateChar content) :
    ¬ IsShort content group artifact version := by
  intro h
  cases h with
  | @parts _ dividers _ _ _ _ hdividers _ _ =>
    obtain ⟨divider, more, rfl⟩ := List.exists_cons_of_ne_nil hdividers.ne_nil
    have hcoordinate := hcontent.all divider (by simp)
    rw [isCoordinateChar_of_divider (hdividers.all divider (List.mem_cons_self ..))] at hcoordinate
    cases hcoordinate

/-- Without parentheses a call for a module is read as one. -/
theorem declaration_of_bare_outside (hname : Names name configuration)
    (hlibrary : IsMadeOf isCoordinateChar library.content)
    (htext : Text.compact text = name ++ enclosed false (kotlinCall [library.text]).flatten) :
    declaration text = .ok [⟨configuration, "org.jetbrains.kotlin".toList,
      "kotlin-".toList ++ library.content, none⟩] := by
  rw [← hname.coordinates]
  have hvalue := hlibrary.imp fun _ => isValueChar_of_coordinate
  have hquotes : ∀ c ∈ library.content, isQuote c = false :=
    fun c hc => isQuote_of_value (hvalue.all c hc)
  have hkotlin := kotlinNotation?_bare hname.ne_nil hname.words hvalue false
  rw [enclosed_kotlinCall] at hkotlin htext
  have hlist := coordinateList?_eq_none hname.ne_nil_kotlin hname.words_kotlin
    (List.cons_ne_nil library []) (by simpa using hquotes) (.inl (by simp)) true
  have hshort : shortNotation? (name ++ "kotlin".toList ++ enclosed true [library.text].flatten) =
      none := by
    refine Option.eq_none_iff_forall_ne_some.mpr fun found hfound => ?_
    rw [List.flatten_singleton] at hfound
    obtain ⟨-, hreads⟩ := (shortNotation?_eq_some_iff hname.ne_nil_kotlin hname.words_kotlin
      library.isQuote_quote true).mp hfound
    rw [List.append_assoc] at hreads
    exact not_isShort_of_coordinate hlibrary
      ((readsShort_content_iff hquotes library.isQuote_quote).mp hreads)
  have hmap : mapNotation? (name ++ "kotlin".toList ++ enclosed true [library.text].flatten) =
      none := by
    rw [List.flatten_singleton]
    exact mapNotation?_eq_none hname.ne_nil_kotlin hname.letters_kotlin
      (not_group_suffix_kotlin name) (isWord_head_enclosed true library)
      (notInside_enclosed rfl (by decide) true library)
  refine declaration_of_found htext hlist ?_
  rw [hshort, hmap, hkotlin]
  rfl

/-- Without parentheses a call for a module in a version declares nothing: it is taken for a group
and an artifact. -/
theorem declaration_of_positional_outside (hname : Names name configuration)
    (hlibrary : IsMadeOf isCoordinateChar library.content)
    (hversion : IsMadeOf isCoordinateChar version.content)
    (htext : Text.compact text =
      name ++ enclosed false (kotlinCall (separated [library, version])).flatten) :
    declaration text = .ok [] := by
  rw [enclosed_kotlinCall] at htext
  rw [← hname.coordinates_kotlin library.content version.content none]
  exact declaration_of_pair hname.ne_nil_kotlin hname.words_kotlin hlibrary hversion htext

/-- A text and a comma are not followed by a text where no quote comes next. -/
theorem quotedTexts?_eq_none (hquotes : ∀ c ∈ library.content, isQuote c = false)
    {rest : List Char} (hrest : ∀ c ∈ rest.head?, isQuote c = false) (count : Nat) :
    quotedTexts? count (library.text ++ ',' :: rest) = none := by
  have hopen : isClosed (',' :: rest) = false := rfl
  have hafterComma : afterChar? (· == ',') (',' :: rest) = some rest := rfl
  cases count with
  | zero => rfl
  | succ count =>
    have hnone : quotedTexts? count rest = none := by
      cases count with
      | zero => rfl
      | succ count => simp [quotedTexts?, quotedText?_of_head hrest]
    simp [quotedTexts?, quotedText?_append hquotes, hopen, hafterComma, hnone]

section NamedVersion

theorem flatten_named_version (library version : Quotation) :
    (library.text :: [','] :: named "version" '=' version).flatten =
      library.quote :: (library.content ++ ([library.quote, ','] ++ ("version=".toList ++
        version.text))) := by
  simp [named, Quotation.text]

variable {word : List Char} (hne : word ≠ []) (hword : ∀ c ∈ word, Text.isWord c = true)
  (hlibrary : IsMadeOf isCoordinateChar library.content)
include hne hword hlibrary

/-- A text and a version under its name are no list of coordinates. -/
theorem coordinateList?_of_named_version (version : Quotation) :
    coordinateList? (word ++ enclosed true
      (library.text :: [','] :: named "version" '=' version).flatten) = none := by
  have hquotes : ∀ c ∈ library.content, isQuote c = false := hlibrary.isQuote_eq
  have hbehind : ∀ c ∈ (library.text :: [','] :: named "version" '=' version).flatten.head?,
      Text.isWord c = false := by
    rintro _ ⟨⟩
    exact isWord_of_isQuote library.isQuote_quote
  have hlabel : ∀ c ∈ ("version=".toList ++ (version.text ++ [')'])).head?, isQuote c = false := by
    rintro _ ⟨⟩
    rfl
  have hskip : skipOpen (enclosed true
      (library.text :: [','] :: named "version" '=' version).flatten) =
        library.text ++ ',' :: ("version=".toList ++ (version.text ++ [')'])) := by
    rw [flatten_named_version]
    simp [enclosed, skipOpen, Quotation.text]
  simp only [coordinateList?, wordWithTexts?, run?_word hne hword true hbehind, hskip,
    quotedTexts?_eq_none hquotes hlabel, Option.bind_eq_bind, Option.bind_some, Option.bind_none]

/-- The name of the version is taken for an artifact. -/
theorem shortNotation?_of_named_version (hversion : IsMadeOf isCoordinateChar version.content) :
    shortNotation? (word ++ enclosed true
        (library.text :: [','] :: named "version" '=' version).flatten) =
      some ⟨word, library.content, "version=".toList, some version.content⟩ := by
  have hseparators : IsMadeOf isSeparator [library.quote, ','] :=
    ⟨by simp, by simp [isSeparator, library.isQuote_quote]⟩
  have hlabel : IsMadeOf isCoordinateChar "version=".toList := by decide
  have hend : EndsIn ([version.quote] ++ (version.content ++ version.quote :: closing true))
      (some version.content) :=
    .version (by simp) (by simp [isSeparator, version.isQuote_quote])
      (hversion.imp fun _ => isVersionChar_of_coordinate).isVersion version.isQuote_quote true
  have hreads := ReadsShort.parts hlibrary hseparators hlabel hend
  rw [flatten_named_version]
  refine (shortNotation?_eq_some_iff hne hword library.isQuote_quote true).mpr ⟨rfl, ?_⟩
  simpa [Quotation.text] using hreads

end NamedVersion

/-- Nor is it read under its name. -/
theorem declaration_of_named_outside (hname : Names name configuration)
    (hlibrary : IsMadeOf isCoordinateChar library.content)
    (hversion : IsMadeOf isCoordinateChar version.content)
    (htext : Text.compact text = name ++ enclosed false
      (kotlinCall (library.text :: [','] :: named "version" '=' version)).flatten) :
    declaration text = .ok [] := by
  rw [enclosed_kotlinCall] at htext
  rw [← hname.coordinates_kotlin library.content "version=".toList (some version.content)]
  refine declaration_of_found htext (coordinateList?_of_named_version hname.ne_nil_kotlin
    hname.words_kotlin hlibrary version) ?_
  rw [shortNotation?_of_named_version hname.ne_nil_kotlin hname.words_kotlin hlibrary hversion]
  rfl

end Outside

/-- Behind a known configuration a call for a module of the Kotlin library declares the module and
its version, in either kind of quotes and with any blanks between the tokens, if the call is in
parentheses or tells no version. A call that tells a version and is in no parentheses declares
nothing. -/
theorem declaration_of_kotlin {name library : List Char} {configuration : String}
    {version : Option (List Char)} {arguments : List (List Char)} {parens : Bool}
    {text : List Char} (hname : Names name configuration)
    (hlibrary : IsMadeOf isCoordinateChar library)
    (hversion : ∀ text ∈ version, IsMadeOf isCoordinateChar text)
    (hwritten : WrittenKotlin library version arguments)
    (hspaced : Spaced (name :: inParens parens arguments) text) :
    declaration text = .ok
      (if parens = true ∨ version = none then
        [⟨configuration, "org.jetbrains.kotlin".toList, "kotlin-".toList ++ library, version⟩]
      else []) := by
  have htext := hspaced.declared
  cases parens with
  | true =>
    have hcoordinates : (kotlinNotation name library version).coordinates =
        [⟨configuration, "org.jetbrains.kotlin".toList, "kotlin-".toList ++ library, version⟩] :=
      hname.coordinates _ _ _
    have hkotlin := hwritten.kotlinNotation?_eq hname.ne_nil hname.words
      (hlibrary.imp fun _ => isValueChar_of_coordinate)
      (fun text hmem => (hversion text hmem).imp fun _ => isValueChar_of_coordinate) true
    obtain ⟨inner, rfl⟩ := hwritten.exists_call
    rw [if_pos (.inl rfl), ← hcoordinates]
    exact declaration_of_call hname htext (htext ▸ hkotlin)
  | false =>
    cases hwritten with
    | bare library =>
      rw [if_pos (.inr rfl)]
      exact declaration_of_bare_outside hname hlibrary htext
    | positional library version =>
      rw [if_neg (by simp)]
      exact declaration_of_positional_outside hname hlibrary (hversion _ rfl) htext
    | named library version =>
      rw [if_neg (by simp)]
      exact declaration_of_named_outside hname hlibrary (hversion _ rfl) htext

/-- A module in a version, in parentheses. -/
theorem declaration_of_stdlib :
    Names "API".toList "api" ∧ IsMadeOf isCoordinateChar "stdlib".toList ∧
      IsMadeOf isCoordinateChar "1.9.0".toList ∧
      declaration "API ( kotlin('stdlib', version = \"1.9.0\"))".toList =
        .ok [⟨"api", "org.jetbrains.kotlin".toList, "kotlin-stdlib".toList,
          some "1.9.0".toList⟩] := by
  have hname : Names "API".toList "api" := by decide
  have hlibrary : IsMadeOf isCoordinateChar "stdlib".toList := by decide
  have hversion : IsMadeOf isCoordinateChar "1.9.0".toList := by decide
  have hversions : ∀ text ∈ some "1.9.0".toList, IsMadeOf isCoordinateChar text := by
    rintro _ ⟨⟩
    exact hversion
  have hwritten := WrittenKotlin.named ⟨'\'', "stdlib".toList, rfl⟩ ⟨'"', "1.9.0".toList, rfl⟩
  refine ⟨hname, hlibrary, hversion, declaration_of_kotlin hname hlibrary hversions hwritten
    (?_ : Spaced (_ :: inParens true _) ([] ++ ("API".toList ++ ([' '] ++ (['('] ++ ([' '] ++
      ("kotlin".toList ++ ([] ++ (['('] ++ ([] ++ ("'stdlib'".toList ++ ([] ++ ([','] ++ ([' '] ++
      ("version".toList ++ ([' '] ++ (['='] ++ ([' '] ++ ("\"1.9.0\"".toList ++ ([] ++ ([')'] ++
      ([] ++ ([')'] ++ [])))))))))))))))))))))))⟩
  repeat refine Spaced.token rfl rfl ?_
  exact .last rfl

/-- Without parentheses a module in a version is not declared. -/
theorem version_outside_is_not_declared :
    Names "implementation".toList "implementation" ∧ IsMadeOf isCoordinateChar "test".toList ∧
      IsMadeOf isCoordinateChar "1.9.0".toList ∧
      declaration "implementation kotlin(\"test\", \"1.9.0\")".toList ≠
        .ok [⟨"implementation", "org.jetbrains.kotlin".toList, "kotlin-test".toList,
          some "1.9.0".toList⟩] := by
  have hnothing : declaration "implementation kotlin(\"test\", \"1.9.0\")".toList = .ok [] := by
    decide +kernel
  refine ⟨by decide, by decide, by decide, ?_⟩
  rw [hnothing]
  simp

end CorpusFacts.Gradle
