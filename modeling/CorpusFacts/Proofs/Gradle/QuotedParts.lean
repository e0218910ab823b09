import CorpusFacts.Proofs.Gradle.CoordinateLists
import CorpusFacts.Proofs.Gradle.Parts

/-!
# Parts in quotes and between them

Coordinates are read from what stands in quotes, with one exception. In the short notation quotes
are separators like colons and commas, so the artifact or the version may stand where one quotation
has ended and the next one has not begun. Such a text is read as well, as coordinates that it does
not quote.
-/

namespace CorpusFacts.Gradle

/-! ## In quotes and out of them -/

section Quotes

variable {inside : Bool} {first text rest part : List Char} {parts : List (List Char)}

/-- Whether a quotation is open behind a text. `inside` tells whether one is in front of it. -/
def insideAfter (inside : Bool) : List Char → Bool
  | [] => inside
  | c :: text => insideAfter (if isQuote c then !inside else inside) text

/-- The characters of a text that stand in quotes. For `!inside` they are those that do not. -/
def quotedChars (inside : Bool) : List Char → List Char
  | [] => []
  | c :: text =>
    if isQuote c then quotedChars (!inside) text
    else if inside then c :: quotedChars inside text
    else quotedChars inside text

/-- Parts stand in quotes, one behind the other. Quotes of either kind begin a quotation and end
it. -/
inductive InQuotes : (inside : Bool) → List Char → List (List Char) → Prop
  /-- No parts. -/
  | none (inside : Bool) (text : List Char) : InQuotes inside text []
  /-- A character in front of the first part. -/
  | pass {inside : Bool} {c : Char} {text : List Char} {parts : List (List Char)}
      (h : InQuotes (if isQuote c then !inside else inside) text parts) :
      InQuotes inside (c :: text) parts
  /-- The first part, in a quotation that ends behind it. -/
  | part {part rest : List Char} {parts : List (List Char)} (hne : part ≠ [])
      (hplain : ∀ c ∈ part, isQuote c = false) (hends : ∃ c ∈ rest, isQuote c = true)
      (h : InQuotes true rest parts) : InQuotes true (part ++ rest) (part :: parts)

theorem insideAfter_append (inside : Bool) (first text : List Char) :
    insideAfter inside (first ++ text) = insideAfter (insideAfter inside first) text := by
  induction first generalizing inside with
  | nil => rfl
  | cons c first ih => exact ih _

/-- What is in quotes and what is not change places. -/
theorem insideAfter_not (inside : Bool) (text : List Char) :
    insideAfter (!inside) text = !insideAfter inside text := by
  induction text generalizing inside with
  | nil => rfl
  | cons c text ih =>
    rw [insideAfter, insideAfter]
    split
    · exact ih _
    · exact ih _

theorem insideAfter_of_plain (inside : Bool) (h : ∀ c ∈ text, isQuote c = false) :
    insideAfter inside text = inside := by
  induction text with
  | nil => rfl
  | cons c text ih =>
    obtain ⟨hc, htext⟩ := List.forall_mem_cons.mp h
    rw [insideAfter, hc]
    exact ih htext

theorem quotedChars_quote {c : Char} (hc : isQuote c = true) (inside : Bool) (text : List Char) :
    quotedChars inside (c :: text) = quotedChars (!inside) text := by
  rw [quotedChars, if_pos hc]

theorem quotedChars_append (inside : Bool) (first text : List Char) :
    quotedChars inside (first ++ text) =
      quotedChars inside first ++ quotedChars (insideAfter inside first) text := by
  induction first generalizing inside with
  | nil => rfl
  | cons c first ih =>
    rw [List.cons_append, quotedChars, quotedChars, insideAfter]
    split
    · exact ih _
    · cases inside with
      | true => exact congrArg (c :: ·) (ih true)
      | false => exact ih false

theorem quotedChars_true_append (h : ∀ c ∈ first, isQuote c = false) (text : List Char) :
    quotedChars true (first ++ text) = first ++ quotedChars true text := by
  induction first with
  | nil => rfl
  | cons c first ih =>
    obtain ⟨hc, hfirst⟩ := List.forall_mem_cons.mp h
    rw [List.cons_append, quotedChars, hc, ih hfirst]
    rfl

theorem quotedChars_false_append (h : ∀ c ∈ first, isQuote c = false) (text : List Char) :
    quotedChars false (first ++ text) = quotedChars false text := by
  induction first with
  | nil => rfl
  | cons c first ih =>
    obtain ⟨hc, hfirst⟩ := List.forall_mem_cons.mp h
    rw [List.cons_append, quotedChars, hc, ih hfirst]
    rfl

/-- What stands in quotes is part of the text. -/
theorem quotedChars_sublist (inside : Bool) (text : List Char) :
    (quotedChars inside text).Sublist text := by
  induction text generalizing inside with
  | nil => exact .slnil
  | cons c text ih =>
    rw [quotedChars]
    split
    · exact (ih _).cons c
    · split
      · exact (ih _).cons_cons c
      · exact (ih _).cons c

namespace InQuotes

theorem append_left (h : InQuotes (insideAfter inside first) text parts) :
    InQuotes inside (first ++ text) parts := by
  induction first generalizing inside with
  | nil => exact h
  | cons c first ih => exact .pass (ih h)

theorem append_plain (hfirst : ∀ c ∈ first, isQuote c = false) (h : InQuotes inside text parts) :
    InQuotes inside (first ++ text) parts := by
  apply append_left
  rwa [insideAfter_of_plain inside hfirst]

theorem cons_plain {c : Char} (hc : isQuote c = false) (h : InQuotes inside text parts) :
    InQuotes inside (c :: text) parts := by
  refine .pass ?_
  rwa [if_neg (by simp [hc])]

theorem quotation {quote : Char} (hquote : isQuote quote = true) (h : InQuotes true text parts) :
    InQuotes false (quote :: text) parts := by
  refine .pass ?_
  rwa [if_pos hquote]

theorem behind {quote : Char} (hquote : isQuote quote = true) (h : InQuotes false text parts) :
    InQuotes true (quote :: text) parts := by
  refine .pass ?_
  rwa [if_pos hquote]

/-- The parts are not empty, and no quote is among their characters. -/
theorem plain (h : InQuotes inside text parts) :
    ∀ part ∈ parts, part ≠ [] ∧ ∀ c ∈ part, isQuote c = false := by
  induction h with
  | none => simp
  | pass _ ih => exact ih
  | part hne hplain _ _ ih => exact List.forall_mem_cons.mpr ⟨⟨hne, hplain⟩, ih⟩

/-- Taken together, the parts are some of the characters in quotes. -/
theorem flatten_sublist (h : InQuotes inside text parts) :
    parts.flatten.Sublist (quotedChars inside text) := by
  induction h with
  | none => exact List.nil_sublist _
  | @pass inside c text parts _ ih =>
    rw [quotedChars]
    split
    · rename_i hc
      rwa [if_pos hc] at ih
    · rename_i hc
      rw [if_neg hc] at ih
      split
      · exact ih.cons c
      · exact ih
  | @part part rest parts _ hplain _ _ ih =>
    rw [List.flatten_cons, quotedChars_true_append hplain]
    exact (List.Sublist.refl part).append ih

/-- Each part stands in one quotation: behind a quote that is still open, without a quote among its
characters and in front of one. -/
theorem exists_of_mem (h : InQuotes inside text parts) (hpart : part ∈ parts) :
    ∃ before rest, text = before ++ (part ++ rest) ∧ insideAfter inside before = true ∧
      ∃ c ∈ rest, isQuote c = true := by
  induction h with
  | none => cases hpart
  | @pass inside c text parts _ ih =>
    obtain ⟨before, rest, rfl, hopen, hends⟩ := ih hpart
    exact ⟨c :: before, rest, rfl, hopen, hends⟩
  | @part first rest parts _ hplain hends _ ih =>
    rcases List.mem_cons.mp hpart with rfl | hlater
    · exact ⟨[], rest, rfl, rfl, hends⟩
    · obtain ⟨before, after, rfl, hopen, hlast⟩ := ih hlater
      refine ⟨first ++ before, after, (List.append_assoc ..).symm, ?_, hlast⟩
      rwa [insideAfter_append, insideAfter_of_plain true hplain]

end InQuotes

end Quotes

/-! ## What readers find in quotes -/

section Readers

variable {p : Char → Bool} {inside : Bool} {text taken value rest : List Char}
  {parts : List (List Char)}

theorem InQuotes.of_run? (h : run? p text = some (taken, rest))
    (hp : ∀ c, p c = true → isQuote c = false) (hrest : InQuotes inside rest parts) :
    InQuotes inside text parts := by
  obtain ⟨rfl, -, hall, -⟩ := run?_eq_some_iff.mp h
  exact hrest.append_plain fun c hc => hp c (hall c hc)

theorem InQuotes.of_afterChar? (h : afterChar? p text = some rest)
    (hp : ∀ c, p c = true → isQuote c = false) (hrest : InQuotes inside rest parts) :
    InQuotes inside text parts := by
  obtain ⟨c, hc, rfl⟩ := afterChar?_eq_some h
  exact hrest.cons_plain (hp c hc)

theorem isQuote_opening (parens : Bool) : ∀ c ∈ opening parens, isQuote c = false := by
  cases parens <;> exact eq_false_of_any rfl

theorem InQuotes.of_skipOpen (h : InQuotes inside (skipOpen text) parts) :
    InQuotes inside text parts := by
  obtain ⟨parens, hopen⟩ := exists_skipOpen text
  rw [hopen]
  exact h.append_plain (isQuote_opening parens)

theorem InQuotes.of_afterKeyword? {keyword : List Char}
    (hkeyword : ∀ c ∈ keyword, isQuote c = false) (h : afterKeyword? keyword text = some rest)
    (hrest : InQuotes inside rest parts) : InQuotes inside text parts := by
  induction keyword generalizing text with
  | nil => exact (Option.some.inj h) ▸ hrest
  | cons k keyword ih =>
    obtain ⟨hk, hletters⟩ := List.forall_mem_cons.mp hkeyword
    cases text with
    | nil => cases h
    | cons c text =>
      rw [afterKeyword?, Option.ite_none_right_eq_some, beq_iff_eq] at h
      obtain ⟨rfl, h⟩ := h
      have hc : isQuote c = false := by
        by_contra hquote
        simp only [Bool.not_eq_false, isQuote, Bool.or_eq_true, beq_iff_eq] at hquote
        rcases hquote with rfl | rfl <;> exact absurd hk (by decide)
      exact (ih hletters h).cons_plain hc

/-- A text in quotes stands between two of them. -/
theorem quotedText?_eq_some (h : quotedText? text = some (value, rest)) :
    ∃ quote last, isQuote quote = true ∧ isQuote last = true ∧
      (∀ c ∈ value, isQuote c = false) ∧ text = quote :: (value ++ last :: rest) := by
  simp only [quotedText?, Option.bind_eq_bind, Option.bind_eq_some_iff, Option.pure_def,
    Option.some.injEq, Prod.mk.injEq] at h
  obtain ⟨body, hbody, after, hafter, hvalue, rfl⟩ := h
  obtain ⟨quote, hquote, rfl⟩ := afterChar?_eq_some hbody
  obtain ⟨last, hlast, hbehind⟩ := afterChar?_eq_some hafter
  obtain ⟨rfl, hall, -⟩ := span_eq_iff.mp (Prod.ext hvalue hbehind)
  exact ⟨quote, last, hquote, hlast, by simpa using hall, rfl⟩

/-- A value in quotes does too. -/
theorem quotedValue?_eq_some (h : quotedValue? text = some (value, rest)) :
    ∃ quote last, isQuote quote = true ∧ isQuote last = true ∧ IsMadeOf isValueChar value ∧
      text = quote :: (value ++ last :: rest) := by
  simp only [quotedValue?, Option.bind_eq_bind, Option.bind_eq_some_iff, Option.pure_def,
    Option.some.injEq, Prod.mk.injEq] at h
  obtain ⟨body, hbody, ⟨found, behind⟩, hrun, after, hafter, rfl, rfl⟩ := h
  obtain ⟨quote, hquote, rfl⟩ := afterChar?_eq_some hbody
  obtain ⟨last, hlast, rfl⟩ := afterChar?_eq_some hafter
  obtain ⟨rfl, hne, hall, -⟩ := run?_eq_some_iff.mp hrun
  exact ⟨quote, last, hquote, hlast, ⟨hne, hall⟩, rfl⟩

theorem InQuotes.of_quotedValue? (h : quotedValue? text = some (value, rest))
    (hrest : InQuotes false rest parts) : InQuotes false text (value :: parts) := by
  obtain ⟨quote, last, hquote, hlast, hvalue, rfl⟩ := quotedValue?_eq_some h
  exact .quotation hquote (.part hvalue.ne_nil (fun c hc => isQuote_of_value (hvalue.all c hc))
    ⟨last, List.mem_cons_self .., hlast⟩ (hrest.behind hlast))

theorem isQuote_of_isWord {c : Char} (h : Text.isWord c = true) : isQuote c = false := by
  by_contra hquote
  rw [Bool.not_eq_false] at hquote
  rw [isWord_of_isQuote hquote] at h
  cases h

theorem InQuotes.of_wordBeforeKeyword? {keyword : String} {word : List Char}
    (hkeyword : ∀ c ∈ keyword.toList, isQuote c = false)
    (h : wordBeforeKeyword? keyword text = some (word, rest)) (hrest : InQuotes false rest parts) :
    InQuotes false text parts := by
  simp only [wordBeforeKeyword?, Option.bind_eq_bind, Option.bind_eq_some_iff] at h
  obtain ⟨⟨found, behind⟩, hrun, h⟩ := h
  refine .of_run? hrun (fun c => isQuote_of_isWord) ?_
  dsimp only at h
  split at h
  · split at h
    · rename_i hafter
      obtain ⟨_, rfl⟩ := Prod.mk.inj (Option.some.inj h)
      exact (hrest.of_afterKeyword? hkeyword hafter).cons_plain rfl
    · exact splitWord_eq h ▸ hrest
  · exact splitWord_eq h ▸ hrest

theorem InQuotes.of_namedValue? {name : String} (hname : ∀ c ∈ name.toList, isQuote c = false)
    (h : namedValue? name text = some (value, rest)) (hrest : InQuotes false rest parts) :
    InQuotes false text (value :: parts) := by
  simp only [namedValue?, Option.bind_eq_bind, Option.bind_eq_some_iff] at h
  obtain ⟨behind, hbehind, body, hbody, hvalue⟩ := h
  have hin := InQuotes.of_quotedValue? hvalue hrest
  exact (hin.of_afterChar? hbody fun c => isQuote_of_isAssignment).of_afterKeyword? hname hbehind

/-- In the map notation all parts stand in quotes. -/
theorem mapNotation?_inQuotes {found : Notation} (h : mapNotation? text = some found) :
    InQuotes false text (found.group :: found.artifact :: found.version.toList) := by
  have hgroup : ∀ c ∈ "group".toList, isQuote c = false := eq_false_of_any rfl
  have hname : ∀ c ∈ "name".toList, isQuote c = false := eq_false_of_any rfl
  have hversion : ∀ c ∈ "version".toList, isQuote c = false := eq_false_of_any rfl
  have hcomma : ∀ c, (c == ',') = true → isQuote c = false := by simp [isQuote]
  simp only [mapNotation?, Option.bind_eq_bind, Option.bind_eq_some_iff] at h
  obtain ⟨⟨_, rest⟩, hword, body, hbody, ⟨group, behind⟩, hvalue, next, hnext,
    ⟨artifact, last⟩, hartifact, h⟩ := h
  have hin {parts : List (List Char)} (hlast : InQuotes false last parts) :
      InQuotes false text (group :: artifact :: parts) := by
    have hbehind := (InQuotes.of_namedValue? hname hartifact hlast).of_afterChar? hnext hcomma
    exact ((InQuotes.of_quotedValue? hvalue hbehind).of_afterChar? hbody
      fun c => isQuote_of_isAssignment).of_wordBeforeKeyword? hgroup hword
  split at h
  · obtain rfl := Option.some.inj h
    exact hin (.none _ _)
  · simp only [Option.bind_eq_some_iff] at h
    obtain ⟨tail, htail, ⟨version, final⟩, hlabel, h⟩ := h
    split at h
    · obtain rfl := Option.some.inj h
      exact hin ((InQuotes.of_namedValue? hversion hlabel (.none _ _)).of_afterChar? htail hcomma)
    · cases h

/-- In the Kotlin notation the module and the version do. -/
theorem kotlinNotation?_inQuotes {found : Notation} (h : kotlinNotation? text = some found) :
    found.group = "org.jetbrains.kotlin".toList ∧
      ∃ name, found.artifact = "kotlin-".toList ++ name ∧
        InQuotes false text (name :: found.version.toList) := by
  have hkotlin : ∀ c ∈ "kotlin".toList, isQuote c = false := eq_false_of_any rfl
  have hversion : ∀ c ∈ "version=".toList, isQuote c = false := eq_false_of_any rfl
  have hcomma : ∀ c, (c == ',') = true → isQuote c = false := by simp [isQuote]
  have hopen : ∀ c, (c == '(') = true → isQuote c = false := by simp [isQuote]
  simp only [kotlinNotation?, Option.bind_eq_bind, Option.bind_eq_some_iff] at h
  obtain ⟨⟨_, rest⟩, hword, body, hbody, ⟨name, behind⟩, hname, h⟩ := h
  have hin {parts : List (List Char)} (hbehind : InQuotes false behind parts) :
      InQuotes false text (name :: parts) :=
    ((InQuotes.of_quotedValue? hname hbehind).of_afterChar? hbody hopen).of_wordBeforeKeyword?
      hkotlin hword
  split at h
  · obtain rfl := Option.some.inj h
    exact ⟨rfl, name, rfl, hin (.none _ _)⟩
  · simp only [Option.bind_eq_some_iff] at h
    obtain ⟨next, hnext, ⟨version, final⟩, hvalue, h⟩ := h
    have hnextIn : InQuotes false next [version] := by
      have hvalueIn := InQuotes.of_quotedValue? hvalue (.none _ _)
      cases hlabel : afterKeyword? "version=".toList next with
      | none => rwa [hlabel] at hvalueIn
      | some after =>
        rw [hlabel] at hvalueIn
        exact hvalueIn.of_afterKeyword? hversion hlabel
    split at h
    · obtain rfl := Option.some.inj h
      exact ⟨rfl, name, rfl, hin (hnextIn.of_afterChar? hnext hcomma)⟩
    · cases h

end Readers

/-! ## Lists of coordinates -/

/-- The parts of coordinates. -/
def Coordinates.parts (coordinates : Coordinates) : List (List Char) :=
  coordinates.group :: coordinates.artifact :: coordinates.version.toList

section Lists

variable {count : Nat} {text value group artifact : List Char} {version : Option (List Char)}
  {values parts : List (List Char)}

/-- What stands in one of several texts stands in quotes. -/
theorem quotedTexts?_inQuotes (h : quotedTexts? count text = some values) (hvalue : value ∈ values)
    (hparts : (∀ c ∈ value, isQuote c = false) → ∀ last, isQuote last = true → ∀ rest,
      InQuotes true (value ++ last :: rest) parts) : InQuotes false text parts := by
  induction count generalizing text values with
  | zero => cases h
  | succ count ih =>
    obtain ⟨first, rest, hfirst, hvalues⟩ := exists_of_quotedTexts? h
    obtain ⟨quote, last, hquote, hlast, hplain, rfl⟩ := quotedText?_eq_some hfirst
    refine .quotation hquote ?_
    rcases hvalues with ⟨-, rfl⟩ | ⟨next, more, hnext, hmore, rfl⟩
    · obtain rfl := List.mem_singleton.mp hvalue
      exact hparts hplain last hlast rest
    · rcases List.mem_cons.mp hvalue with rfl | hvalue
      · exact hparts hplain last hlast rest
      · have hrest := (ih hmore hvalue).of_afterChar? hnext (by simp [isQuote])
        exact (hrest.behind hlast).append_plain hplain

/-- Out of the quotes of several texts there are only commas, and a parenthesis at the end. -/
theorem quotedTexts?_outside (h : quotedTexts? count text = some values) :
    ∀ c ∈ quotedChars true text, c = ',' ∨ c = ')' := by
  induction count generalizing text values with
  | zero => cases h
  | succ count ih =>
    obtain ⟨first, rest, hfirst, hvalues⟩ := exists_of_quotedTexts? h
    obtain ⟨quote, last, hquote, hlast, hplain, rfl⟩ := quotedText?_eq_some hfirst
    have hrest : quotedChars true (quote :: (first ++ last :: rest)) = quotedChars true rest := by
      rw [quotedChars_quote hquote, Bool.not_true, quotedChars_false_append hplain,
        quotedChars_quote hlast, Bool.not_false]
    rw [hrest]
    rcases hvalues with ⟨hclosed, -⟩ | ⟨next, more, hnext, hmore, -⟩
    · obtain ⟨parens, rfl⟩ := isClosed_iff.mp hclosed
      cases parens with
      | true => exact fun c hc => .inr (List.mem_singleton.mp hc)
      | false => simp [closing, quotedChars]
    · obtain ⟨c, hc, rfl⟩ := afterChar?_eq_some hnext
      obtain rfl : c = ',' := by simpa using hc
      exact List.forall_mem_cons.mpr ⟨.inl rfl, ih hmore⟩

/-- The parts of a text that is cut at its colons stand in its quotes. -/
theorem IsCut.inQuotes (h : IsCut value group artifact version)
    (hplain : ∀ c ∈ value, isQuote c = false) {last : Char} (hlast : isQuote last = true)
    (rest : List Char) :
    InQuotes true (value ++ last :: rest) (group :: artifact :: version.toList) := by
  cases h with
  | @parts _ _ tail _ hgroup hartifact htail =>
    have hends (text : List Char) : ∃ c ∈ text ++ last :: rest, isQuote c = true :=
      ⟨last, List.mem_append_right _ (List.mem_cons_self ..), hlast⟩
    have hcolon {text : List Char} {parts : List (List Char)} (h : InQuotes true text parts) :
        InQuotes true (':' :: text) parts := h.cons_plain rfl
    simp only [List.mem_append, List.mem_cons] at hplain
    have hversion : InQuotes true (tail ++ last :: rest) version.toList := by
      cases htail with
      | none | colon => exact .none _ _
      | some hne =>
        exact hcolon (.part hne (fun c hc => hplain c (by simp [hc])) (hends []) (.none _ _))
    have hbehind : InQuotes true (artifact ++ (tail ++ last :: rest))
        (artifact :: version.toList) :=
      .part hartifact.ne_nil (fun c hc => hplain c (by simp [hc])) (hends tail) hversion
    have hwhole := InQuotes.part hgroup.ne_nil (fun c hc => hplain c (by simp [hc]))
      (hends (':' :: (artifact ++ tail))) (by simpa using hcolon hbehind)
    simpa using hwhole

/-- In a list of coordinates all parts stand in quotes. -/
theorem coordinateList?_inQuotes {list : List Coordinates}
    (h : coordinateList? text = some (.ok list)) :
    ∀ coordinates ∈ list, InQuotes false text coordinates.parts := by
  intro coordinates hmem
  obtain ⟨word, values, configuration, hword, -, value, hvalue, hread⟩ :=
    exists_of_mem_coordinateList? h hmem
  have hcut := (coordinatesIn_eq_ok_iff.mp hread).2
  simp only [wordWithTexts?, Option.bind_eq_bind, Option.bind_eq_some_iff, Option.pure_def,
    Option.some.injEq, Prod.mk.injEq] at hword
  obtain ⟨⟨found, behind⟩, hrun, texts, htexts, -, rfl⟩ := hword
  have hin := quotedTexts?_inQuotes htexts hvalue fun hplain last hlast rest =>
    hcut.inQuotes hplain hlast rest
  exact hin.of_skipOpen.of_run? hrun fun c => isQuote_of_isWord

end Lists

/-! ## Short coordinates across quotes -/

section Across

variable {text body group artifact tail : List Char} {version : Option (List Char)}

/-- Short coordinates behind their first quote, not all of them in quotes: the separators in front
of the artifact, or those in front of the version, end a quotation and begin none. -/
inductive LeavesQuotes : (text group artifact : List Char) → Option (List Char) → Prop
  /-- The artifact stands between two quotations. -/
  | artifact {group separators artifact tail : List Char} {version : Option (List Char)}
      (hgroup : IsMadeOf isCoordinateChar group) (hseparators : IsMadeOf isSeparator separators)
      (hartifact : IsMadeOf isCoordinateChar artifact) (htail : EndsIn tail version)
      (hleaves : insideAfter true separators = false) :
      LeavesQuotes (group ++ (separators ++ (artifact ++ tail))) group artifact version
  /-- The version does. -/
  | version {group separators artifact more version : List Char} {last : Char} {parens : Bool}
      (hgroup : IsMadeOf isCoordinateChar group) (hseparators : IsMadeOf isSeparator separators)
      (hartifact : IsMadeOf isCoordinateChar artifact) (hmore : IsMadeOf isSeparator more)
      (hversion : IsVersion version) (hlast : isQuote last = true)
      (hstays : insideAfter true separators = true) (hleaves : insideAfter true more = false) :
      LeavesQuotes
        (group ++ (separators ++ (artifact ++ (more ++ (version ++ last :: closing parens)))))
        group artifact (some version)

/-- A declaration in the short notation that is not all in quotes, and what it is read as. -/
inductive ReadsAcross : List Char → Coordinates → Prop
  /-- Behind the name of a configuration, perhaps a parenthesis and a quote. -/
  | behind {name body : List Char} {parens : Bool} {quote : Char} {coordinates : Coordinates}
      (hname : Names name coordinates.configuration) (hquote : isQuote quote = true)
      (h : LeavesQuotes body coordinates.group coordinates.artifact coordinates.version) :
      ReadsAcross (name ++ (opening parens ++ quote :: body)) coordinates

theorem LeavesQuotes.readsShort (h : LeavesQuotes text group artifact version) :
    ReadsShort text group artifact version := by
  cases h with
  | artifact hgroup hseparators hartifact htail _ =>
    exact .parts hgroup hseparators hartifact htail
  | version hgroup hseparators hartifact hmore hversion hlast _ _ =>
    exact .parts hgroup hseparators hartifact
      (.version hmore.ne_nil hmore.all hversion hlast _)

/-- The parts of short coordinates are there, and hold no quote. -/
theorem ReadsShort.plain (h : ReadsShort text group artifact version) :
    ∀ part ∈ group :: artifact :: version.toList, part ≠ [] ∧ ∀ c ∈ part, isQuote c = false := by
  cases h with
  | parts hgroup hseparators hartifact htail =>
    refine List.forall_mem_cons.mpr ⟨⟨hgroup.ne_nil, hgroup.isQuote_eq⟩,
      List.forall_mem_cons.mpr ⟨⟨hartifact.ne_nil, hartifact.isQuote_eq⟩, ?_⟩⟩
    cases htail with
    | bare hquote parens => simp
    | version hne hmore hversion hquote parens =>
      exact List.forall_mem_singleton.mpr ⟨hversion.ne_nil, hversion.isQuote_eq⟩

theorem EndsIn.exists_quote (h : EndsIn tail version) : ∃ c ∈ tail, isQuote c = true := by
  cases h with
  | bare hquote parens => exact ⟨_, List.mem_cons_self .., hquote⟩
  | version hne hseparators hversion hquote parens => exact ⟨_, by simp, hquote⟩

/-- Short coordinates stand in quotes, or leave them. -/
theorem ReadsShort.leaves_or_inQuotes (h : ReadsShort text group artifact version) :
    LeavesQuotes text group artifact version ∨
      InQuotes true text (group :: artifact :: version.toList) := by
  cases h with
  | @parts _ separators _ tail _ hgroup hseparators hartifact htail =>
    obtain ⟨last, hmem, hlast⟩ := htail.exists_quote
    -- What follows the artifact decides, once the artifact stands in quotes.
    have hwhole (hstays : insideAfter true separators = true)
        (hversion : InQuotes true tail version.toList) :
        InQuotes true (group ++ (separators ++ (artifact ++ tail)))
          (group :: artifact :: version.toList) := by
      have hbehind :=
        InQuotes.part hartifact.ne_nil hartifact.isQuote_eq ⟨last, hmem, hlast⟩ hversion
      rw [← hstays] at hbehind
      exact .part hgroup.ne_nil hgroup.isQuote_eq ⟨last, by simp [hmem], hlast⟩ hbehind.append_left
    cases hstays : insideAfter true separators with
    | false => exact .inl (.artifact hgroup hseparators hartifact htail hstays)
    | true =>
      cases htail with
      | bare hquote parens => exact .inr (hwhole hstays (.none _ _))
      | @version more found quote hne hmore hversion hquote parens =>
        cases hleaves : insideAfter true more with
        | false =>
          exact .inl (.version hgroup hseparators hartifact ⟨hne, hmore⟩ hversion hquote hstays
            hleaves)
        | true =>
          have hfound : InQuotes true (found ++ quote :: closing parens) [found] :=
            .part hversion.ne_nil hversion.isQuote_eq
              ⟨quote, List.mem_cons_self .., hquote⟩ (.none _ _)
          rw [← hleaves] at hfound
          exact .inr (hwhole hstays hfound.append_left)

theorem isVersionChar_of_separator {c : Char} (h : isSeparator c = true) :
    isVersionChar c = false := by
  simp only [isSeparator, Bool.or_eq_true, beq_iff_eq] at h
  rcases h with (hquote | rfl) | rfl
  · simp [isVersionChar, isValueChar_of_isQuote hquote]
  · rfl
  · rfl

/-! Every part has characters that separate nothing and close nothing; they are counted. -/

theorem countP_separators (h : ∀ c ∈ text, isSeparator c = true) :
    text.countP isVersionChar = 0 :=
  List.countP_eq_zero.mpr fun c hc => by simp [isVersionChar_of_separator (h c hc)]

theorem countP_coordinate_pos (h : IsMadeOf isCoordinateChar text) :
    0 < text.countP isVersionChar := by
  obtain ⟨c, rest, rfl⟩ := List.exists_cons_of_ne_nil h.ne_nil
  have hc := isVersionChar_of_coordinate (h.all c (List.mem_cons_self ..))
  exact List.countP_pos_iff.mpr ⟨c, List.mem_cons_self .., hc⟩

theorem countP_last {last : Char} (hlast : isQuote last = true) (parens : Bool) :
    (last :: closing parens).countP isVersionChar = 0 := by
  have hseparator : isVersionChar last = false :=
    isVersionChar_of_separator (by simp [isSeparator, hlast])
  have hparen : isVersionChar ')' = false := rfl
  cases parens <;> simp [closing, hseparator, hparen]

/-- At the end there are no other such characters than those of the version. -/
theorem EndsIn.countP_eq (h : EndsIn tail version) :
    tail.countP isVersionChar = version.toList.flatten.countP isVersionChar := by
  cases h with
  | bare hquote parens => exact countP_last hquote parens
  | version hne hseparators hversion hquote parens =>
    rw [List.countP_append, List.countP_append, countP_separators hseparators, countP_last hquote]
    simp

/-- A version that is not a lone colon has such a character. -/
theorem IsVersion.countP_pos {version : List Char} (h : IsVersion version)
    (hcolon : version ≠ [':']) : 0 < version.countP isVersionChar := by
  obtain ⟨c, rest, rfl⟩ := List.exists_cons_of_ne_nil h.ne_nil
  have hc : c ≠ ':' := by
    rintro rfl
    exact h.head.elim (fun hhead => hhead rfl) hcolon
  refine List.countP_pos_iff.mpr ⟨c, List.mem_cons_self .., ?_⟩
  simp [isVersionChar, h.values c (List.mem_cons_self ..), hc]

/-- Too few of the characters of such coordinates stand in quotes. -/
theorem LeavesQuotes.not_sublist (h : LeavesQuotes text group artifact version)
    (hcolon : version ≠ some [':']) :
    ¬ (group :: artifact :: version.toList).flatten.Sublist (quotedChars true text) := by
  intro hin
  have hcount {inside : Bool} {separators : List Char}
      (h : ∀ c ∈ separators, isSeparator c = true) :
      (quotedChars inside separators).countP isVersionChar = 0 :=
    Nat.le_zero.mp (countP_separators h ▸ (quotedChars_sublist inside separators).countP_le)
  -- All parts have characters that are no separators, but those of one part are out of quotes.
  have hfew := hin.countP_le (p := isVersionChar)
  simp only [List.flatten_cons, List.countP_append] at hfew
  cases h with
  | @artifact _ separators _ tail _ hgroup hseparators hartifact htail hleaves =>
    have htailCount := (quotedChars_sublist false tail).countP_le (p := isVersionChar)
    have hartifactCount := countP_coordinate_pos hartifact
    rw [htail.countP_eq] at htailCount
    simp only [quotedChars_true_append hgroup.isQuote_eq, quotedChars_append _ separators, hleaves,
      quotedChars_false_append hartifact.isQuote_eq, List.countP_append,
      hcount hseparators.all] at hfew
    omega
  | @version _ separators _ more found last parens hgroup hseparators hartifact hmore hversion hlast
      hstays hleaves =>
    have hfoundCount := hversion.countP_pos fun heq => hcolon (congrArg some heq)
    have hlastCount := (quotedChars_sublist false (last :: closing parens)).countP_le
      (p := isVersionChar)
    rw [countP_last hlast] at hlastCount
    simp only [quotedChars_true_append hgroup.isQuote_eq, quotedChars_append _ separators, hstays,
      quotedChars_true_append hartifact.isQuote_eq, quotedChars_append _ more, hleaves,
      quotedChars_false_append hversion.isQuote_eq, List.countP_append, hcount hseparators.all,
      hcount hmore.all, Option.toList_some, List.flatten_cons, List.flatten_nil,
      List.append_nil] at hfew
    omega

/-- A part of them stands out of quotes. -/
theorem LeavesQuotes.exists_outside (h : LeavesQuotes text group artifact version) :
    ∃ c ∈ quotedChars false text, isValueChar c = true := by
  have hother {separators : List Char} {inside : Bool} (h : insideAfter true separators = inside) :
      insideAfter false separators = !inside := h ▸ insideAfter_not true separators
  cases h with
  | @artifact _ separators _ tail _ hgroup hseparators hartifact htail hleaves =>
    obtain ⟨c, rest, rfl⟩ := List.exists_cons_of_ne_nil hartifact.ne_nil
    refine ⟨c, ?_, isValueChar_of_coordinate (hartifact.all c (List.mem_cons_self ..))⟩
    rw [quotedChars_false_append hgroup.isQuote_eq, quotedChars_append, hother hleaves,
      Bool.not_false, quotedChars_true_append hartifact.isQuote_eq]
    simp
  | @version _ separators _ more found last parens hgroup hseparators hartifact hmore hversion hlast
      hstays hleaves =>
    obtain ⟨c, rest, rfl⟩ := List.exists_cons_of_ne_nil hversion.ne_nil
    refine ⟨c, ?_, hversion.values c (List.mem_cons_self ..)⟩
    rw [quotedChars_false_append hgroup.isQuote_eq, quotedChars_append, hother hstays,
      Bool.not_true, quotedChars_false_append hartifact.isQuote_eq, quotedChars_append,
      hother hleaves, Bool.not_false, quotedChars_true_append hversion.isQuote_eq]
    simp

/-- The short notation is read from a word, perhaps a parenthesis, a quote and short coordinates. -/
theorem exists_of_shortNotation? {found : Notation} (h : shortNotation? text = some found) :
    ∃ parens quote body, isQuote quote = true ∧ IsMadeOf Text.isWord found.configuration ∧
      text = found.configuration ++ (opening parens ++ quote :: body) ∧
      ReadsShort body found.group found.artifact found.version := by
  have hparts := h
  simp only [shortNotation?, Option.bind_eq_bind, Option.bind_eq_some_iff] at hparts
  obtain ⟨⟨word, rest⟩, hword, body, hbody, -⟩ := hparts
  obtain ⟨rfl, hne, hall, -⟩ := run?_eq_some_iff.mp hword
  obtain ⟨quote, hquote, hskip⟩ := afterChar?_eq_some hbody
  obtain ⟨parens, hopen⟩ := exists_skipOpen rest
  rw [hopen, hskip] at h ⊢
  obtain ⟨rfl, hreads⟩ := (shortNotation?_append_iff hne hall hquote parens).mp h
  exact ⟨parens, quote, body, hquote, ⟨hne, hall⟩, rfl, hreads⟩

/-- Such coordinates are declared. -/
theorem ReadsAcross.declaration_eq {coordinates : Coordinates}
    (h : ReadsAcross (Text.compact text) coordinates) : declaration text = .ok [coordinates] := by
  generalize hwhole : Text.compact text = whole at h
  cases h with
  | @behind name body parens quote coordinates hname hquote h =>
    have hlist : coordinateList? (name ++ (opening parens ++ quote :: body)) = none := by
      have htexts : quotedTexts? (name ++ (opening parens ++ quote :: body)).length
          (quote :: body) = none := by
        refine Option.eq_none_iff_forall_ne_some.mpr fun values hvalues => ?_
        obtain ⟨c, hc, hvalue⟩ := h.exists_outside
        rw [← Bool.not_true, ← quotedChars_quote hquote] at hc
        rcases quotedTexts?_outside hvalues c hc with rfl | rfl <;> cases hvalue
      simp only [coordinateList?, wordWithTexts?, run?_word_quote hname.ne_nil hname.words parens
        hquote, Option.bind_eq_bind, Option.bind_some, skipOpen_quote parens hquote, htexts,
        Option.bind_none]
    have hshort := (shortNotation?_append_iff hname.ne_nil hname.words hquote parens).mpr
      (⟨rfl, h.readsShort⟩ : (⟨name, coordinates.group, coordinates.artifact,
        coordinates.version⟩ : Notation).configuration = name ∧ _)
    rw [declaration_of_found hwhole hlist (by rw [hshort]; rfl), hname.coordinates]

/-- They do not stand in quotes, nor anything that is spelled like them, unless the version is a
lone colon. -/
theorem ReadsAcross.not_inQuotes {coordinates : Coordinates} (h : ReadsAcross text coordinates)
    (hcolon : coordinates.version ≠ some [':']) : ¬ InQuotes false text coordinates.parts := by
  intro hin
  have hfew := hin.flatten_sublist
  cases h with
  | @behind name body parens quote coordinates hname hquote h =>
    have hplain : ∀ c ∈ name ++ opening parens, isQuote c = false :=
      List.forall_mem_append.mpr
        ⟨fun c hc => isQuote_of_isWord (hname.words c hc), isQuote_opening parens⟩
    rw [← List.append_assoc, quotedChars_false_append hplain, quotedChars_quote hquote] at hfew
    exact h.not_sublist hcolon hfew

end Across

/-! ## What is declared -/

section Declared

variable {text : List Char}

/-- Coordinates with a known configuration and parts that are not empty and hold no quote and no
blank. -/
structure Coordinates.IsSound (coordinates : Coordinates) : Prop where
  /-- The configuration is in its usual spelling. -/
  configuration : coordinates.configuration ∈ configurations
  /-- The parts are there. -/
  ne_nil : ∀ part ∈ coordinates.parts, part ≠ []
  /-- They hold neither quotes nor blanks. -/
  plain : ∀ part ∈ coordinates.parts, ∀ c ∈ part, isQuote c = false ∧ Text.isBlank c = false

/-- The parts of coordinates stand in the quotes of a text, or in the Kotlin notation the module and
the version do. -/
inductive Coordinates.IsQuoted (text : List Char) (coordinates : Coordinates) : Prop
  /-- All parts. -/
  | parts (h : InQuotes false text coordinates.parts)
  /-- A module of the Kotlin library. -/
  | kotlin {name : List Char} (hgroup : coordinates.group = "org.jetbrains.kotlin".toList)
      (hartifact : coordinates.artifact = "kotlin-".toList ++ name)
      (h : InQuotes false text (name :: coordinates.version.toList))

theorem Names.of_configuration? {name : List Char} {configuration : String}
    (h : configuration? name = some configuration) : Names name configuration := by
  have hlower := List.find?_some h
  exact ⟨List.mem_of_find?_eq_some h, (beq_iff_eq.mp hlower).symm⟩

/-- What a notation tells is quoted by its text, or read across quotes. -/
theorem isQuoted_or_readsAcross {found : Notation} {whole : List Char}
    (h : (shortNotation? whole <|> mapNotation? whole <|> kotlinNotation? whole) = some found) :
    ∀ coordinates ∈ found.coordinates,
      coordinates.IsQuoted whole ∨ ReadsAcross whole coordinates := by
  unfold Notation.coordinates
  split
  · simp
  · rename_i configuration hconfiguration
    rw [List.forall_mem_singleton]
    have hname := Names.of_configuration? hconfiguration
    simp only [Option.orElse_eq_orElse, Option.orElse_eq_or, Option.or_eq_some_iff] at h
    rcases h with hshort | ⟨-, hmap | ⟨-, hkotlin⟩⟩
    · obtain ⟨parens, quote, body, hquote, -, rfl, hreads⟩ := exists_of_shortNotation? hshort
      rcases hreads.leaves_or_inQuotes with hleaves | hin
      · exact .inr (.behind hname hquote hleaves)
      · refine .inl (.parts ?_)
        exact ((hin.quotation hquote).append_plain (isQuote_opening parens)).append_plain
          fun c hc => isQuote_of_isWord (hname.words c hc)
    · exact .inl (.parts (mapNotation?_inQuotes hmap))
    · obtain ⟨hgroup, name, hartifact, hin⟩ := kotlinNotation?_inQuotes hkotlin
      exact .inl (.kotlin hgroup hartifact hin)

theorem declaration_isQuoted_or_readsAcross {found : List Coordinates}
    (h : declaration text = .ok found) : ∀ coordinates ∈ found,
      coordinates.IsQuoted (Text.compact text) ∨ ReadsAcross (Text.compact text) coordinates := by
  rcases declaration_eq_ok h with hlist | ⟨_, hfound, rfl⟩ | rfl
  · exact fun coordinates hmem => .inl (.parts (coordinateList?_inQuotes hlist coordinates hmem))
  · exact isQuoted_or_readsAcross hfound
  · simp

/-- The parts of coordinates are there, and hold no quote. -/
theorem parts_of_isQuoted_or_readsAcross {coordinates : Coordinates}
    (h : coordinates.IsQuoted text ∨ ReadsAcross text coordinates) :
    ∀ part ∈ coordinates.parts, part ≠ [] ∧ ∀ c ∈ part, isQuote c = false := by
  rcases h with (hparts | @⟨name, hgroup, hartifact, hin⟩) | ⟨-, -, h⟩
  · exact hparts.plain
  · obtain ⟨hname, hversion⟩ := List.forall_mem_cons.mp hin.plain
    have hlibrary : ∀ c ∈ "kotlin-".toList, isQuote c = false := eq_false_of_any rfl
    rw [Coordinates.parts, hgroup, hartifact]
    refine List.forall_mem_cons.mpr ⟨⟨by decide, eq_false_of_any rfl⟩,
      List.forall_mem_cons.mpr ⟨?_, hversion⟩⟩
    exact ⟨by simp, List.forall_mem_append.mpr ⟨hlibrary, hname.2⟩⟩
  · exact h.readsShort.plain

/-- Coordinates are sound, whatever text declares them. -/
theorem isSound_of_declaration {found : List Coordinates} (h : declaration text = .ok found) :
    ∀ coordinates ∈ found, coordinates.IsSound := by
  intro coordinates hmem
  have hparts := parts_of_isQuoted_or_readsAcross
    (declaration_isQuoted_or_readsAcross h coordinates hmem)
  have hdeclared := declaration_declaredIn h coordinates hmem
  have hsolid : ∀ c ∈ kotlinText ++ Text.compact text, Text.isBlank c = false := by
    have hlibrary : ∀ c ∈ kotlinText, Text.isBlank c = false := eq_false_of_any rfl
    exact List.forall_mem_append.mpr
      ⟨hlibrary, fun c hc => by simpa using (List.mem_filter.mp hc).2⟩
  have hblank : ∀ part ∈ coordinates.parts, ∀ c ∈ part, Text.isBlank c = false := by
    refine List.forall_mem_cons.mpr ⟨fun c hc => hsolid c (hdeclared.parts.group hc),
      List.forall_mem_cons.mpr ⟨fun c hc => hsolid c (hdeclared.parts.artifact hc), ?_⟩⟩
    intro part hpart c hc
    exact hsolid c (hdeclared.parts.version part (Option.mem_toList.mp hpart) hc)
  exact ⟨hdeclared.configuration, fun part hpart => (hparts part hpart).1,
    fun part hpart c hc => ⟨(hparts part hpart).2 c hc, hblank part hpart c hc⟩⟩

/-- Coordinates that a text declares are sound, and their parts stand in its quotes, except where
the short notation is read across quotes. There the coordinates are declared whose artifact or
version stands between two quotations, and they do not stand in quotes anywhere else, unless the
version is a lone colon. -/
theorem declared_parts_quoted (text : List Char) :
    (∀ found, declaration text = .ok found → ∀ coordinates ∈ found, coordinates.IsSound ∧
      (coordinates.IsQuoted (Text.compact text) ∨ ReadsAcross (Text.compact text) coordinates)) ∧
    ∀ coordinates, ReadsAcross (Text.compact text) coordinates →
      declaration text = .ok [coordinates] ∧
        (coordinates.version ≠ some [':'] →
          ¬ InQuotes false (Text.compact text) coordinates.parts) :=
  ⟨fun _ h coordinates hmem => ⟨isSound_of_declaration h coordinates hmem,
    declaration_isQuoted_or_readsAcross h coordinates hmem⟩,
    fun _ h => ⟨h.declaration_eq, h.not_inQuotes⟩⟩

/-- The sign between two texts is declared as an artifact. -/
theorem sign_between_texts_is_declared :
    ReadsAcross (Text.compact "api \"a\" + \":b\"".toList)
        ⟨"api", "a".toList, "+".toList, some "b".toList⟩ ∧
      declaration "api \"a\" + \":b\"".toList =
        .ok [⟨"api", "a".toList, "+".toList, some "b".toList⟩] ∧
      Coordinates.IsSound ⟨"api", "a".toList, "+".toList, some "b".toList⟩ ∧
      ¬ InQuotes false (Text.compact "api \"a\" + \":b\"".toList)
        ["a".toList, "+".toList, "b".toList] := by
  have hversion : IsVersion "b".toList := ⟨by decide, List.all_eq_true.mp rfl, by decide⟩
  have hleaves : LeavesQuotes ("a".toList ++ ("\"".toList ++ ("+".toList ++ ("\":".toList ++
      ("b".toList ++ '"' :: closing false))))) "a".toList "+".toList (some "b".toList) :=
    .artifact (by decide) (by decide) (by decide)
      (.version (by decide) (List.all_eq_true.mp rfl) hversion rfl false) rfl
  have hreads : ReadsAcross (Text.compact "api \"a\" + \":b\"".toList)
      ⟨"api", "a".toList, "+".toList, some "b".toList⟩ :=
    @ReadsAcross.behind "api".toList _ false '"' _ (by decide +kernel) rfl hleaves
  obtain ⟨hsound, hacross⟩ := declared_parts_quoted "api \"a\" + \":b\"".toList
  obtain ⟨hdeclared, hquoted⟩ := hacross _ hreads
  exact ⟨hreads, hdeclared, (hsound _ hdeclared _ (List.mem_singleton_self _)).1,
    hquoted (by decide)⟩

/-- The sum of two texts declares an artifact that stands in no quotes. -/
theorem sum_of_texts_is_declared :
    declaration "implementation 'junit' + ':junit'".toList =
        .ok [⟨"implementation", "junit".toList, "+".toList, some "junit".toList⟩] ∧
      ¬ InQuotes false (Text.compact "implementation 'junit' + ':junit'".toList) ["+".toList] := by
  refine ⟨by decide +kernel, fun h => ?_⟩
  have hquoted : '+' ∉ quotedChars false
      (Text.compact "implementation 'junit' + ':junit'".toList) := by decide +kernel
  exact hquoted (h.flatten_sublist.subset (by decide))

end Declared

end CorpusFacts.Gradle
