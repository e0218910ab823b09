import CorpusFacts.Proofs.Gradle.Notations
import Mathlib.Data.Set.List

/-!
# Lists of coordinates

Two texts or more, one of them with a colon, are a list of coordinates. Each text in a list is cut
at its first two colons. A text that stands alone is read as the short notation, which allows more
between the parts and fewer characters in them. So a list means the same as its members where they
are written in the usual way, and also where a text that is not short is joined by one that cannot
be cut; nowhere else.
-/

namespace CorpusFacts.Gradle

section Members

variable {ε α β : Type}

/-- A list agrees with its members: it gives what they give, one behind the other, and fails where
one of them fails. -/
structure AgreesWithMembers (whole : Except ε (List β)) (members : List (Except ε (List β))) :
    Prop where
  /-- What the members give is given. -/
  joined : ∀ lists : List (List β), members = lists.map .ok → whole = .ok lists.flatten
  /-- A member that fails is noticed. -/
  fails : ∀ error, .error error ∈ members → ∃ other, whole = .error other

theorem map_ok_inj {bs cs : List β} :
    bs.map (.ok : β → Except ε β) = cs.map .ok ↔ bs = cs :=
  List.map_inj_right fun _ _ => Except.ok.inj

variable {f : α → Except ε β} {as : List α}

theorem mapM_eq_ok_iff {bs : List β} : as.mapM f = .ok bs ↔ as.map f = bs.map .ok := by
  induction as generalizing bs with
  | nil => cases bs <;> simp [pure, Except.pure]
  | cons a as ih =>
    rw [List.mapM_cons]
    cases hfirst : f a with
    | error error => cases bs <;> simp [bind, Except.bind, hfirst]
    | ok b =>
      cases hrest : as.mapM f with
      | error error =>
        have hnone : ∀ bs : List β, as.map f ≠ bs.map .ok := by
          intro bs hbs
          rw [ih.mpr hbs] at hrest
          cases hrest
        cases bs <;> simp [bind, Except.bind, hfirst, hnone]
      | ok rest =>
        have hread := ih.mp hrest
        cases bs <;> simp [bind, Except.bind, pure, Except.pure, hfirst, hread, map_ok_inj]

/-- Each of the members is read as the one beside it. -/
theorem exists_map_eq {γ : Type} {g : α → γ} {k : β → γ} (h : ∀ a ∈ as, ∃ b, g a = k b) :
    ∃ bs : List β, as.map g = bs.map k := by
  have hrange : as.map g ∈ Set.range (List.map k) := by
    rw [Set.range_list_map]
    rintro _ hmem
    obtain ⟨a, ha, rfl⟩ := List.mem_map.mp hmem
    obtain ⟨b, hb⟩ := h a ha
    exact ⟨b, hb.symm⟩
  obtain ⟨bs, hbs⟩ := hrange
  exact ⟨bs, hbs.symm⟩

/-- All steps succeed, or one of them fails. -/
theorem forall_ok_or_exists_error {γ : Type} (g : α → Except ε γ) (as : List α) :
    (∀ a ∈ as, ∃ c, g a = .ok c) ∨ ∃ a ∈ as, ∃ error, g a = .error error := by
  by_cases hfails : ∃ a ∈ as, ∃ error, g a = .error error
  · exact .inr hfails
  · refine .inl fun a ha => ?_
    cases hread : g a with
    | error error => exact absurd ⟨a, ha, error, hread⟩ hfails
    | ok c => exact ⟨c, rfl⟩

/-- Steps fail where one of them does. -/
theorem mapM_eq_error_iff :
    (∃ error, as.mapM f = .error error) ↔ ∃ a ∈ as, ∃ error, f a = .error error := by
  constructor
  · rintro ⟨error, herror⟩
    rcases forall_ok_or_exists_error f as with hok | hfails
    · obtain ⟨bs, hbs⟩ := exists_map_eq hok
      rw [mapM_eq_ok_iff.mpr hbs] at herror
      cases herror
    · exact hfails
  · rintro ⟨a, ha, error, hread⟩
    cases hwhole : as.mapM f with
    | error other => exact ⟨other, rfl⟩
    | ok bs =>
      have hmem : f a ∈ bs.map .ok := mapM_eq_ok_iff.mp hwhole ▸ List.mem_map_of_mem ha
      rw [hread] at hmem
      simp at hmem

/-- What steps give, each by itself. -/
theorem map_singletons {bs : List β} (h : as.map f = bs.map .ok) :
    as.map (fun a => (f a).map ([·])) = (bs.map ([·])).map .ok := by
  have hmap := congrArg (List.map (Except.map ([·]))) h
  rw [List.map_map, List.map_map] at hmap
  rw [List.map_map]
  exact hmap

theorem flatten_singletons (bs : List β) : (bs.map ([·])).flatten = bs := by
  rw [← List.flatMap_def, List.flatMap_singleton']

section Singles

variable {single : α → Except ε (List β)}

/-- A list that is agreed with reads each of its members as it reads alone, if each gives one
thing. -/
theorem AgreesWithMembers.reads (h : AgreesWithMembers (as.mapM f) (as.map single))
    (hok : ∀ a ∈ as, ∃ b, single a = .ok [b]) :
    ∀ a ∈ as, ∃ b, single a = .ok [b] ∧ f a = .ok b := by
  obtain ⟨bs, hbs⟩ := exists_map_eq hok
  have hlists : as.map single = (bs.map ([·])).map .ok := by
    rw [hbs, List.map_map]
    rfl
  have hwhole := h.joined _ hlists
  rw [flatten_singletons, mapM_eq_ok_iff] at hwhole
  have hsame := List.map_inj_left.mp (hlists.trans (map_singletons hwhole).symm)
  intro a ha
  obtain ⟨b, hb⟩ := hok a ha
  have hread := (hsame a ha).symm.trans hb
  cases hf : f a with
  | error error =>
    rw [hf] at hread
    cases hread
  | ok other =>
    rw [hf] at hread
    cases hread
    exact ⟨b, hb, rfl⟩

/-- A list that reads each of its members as it reads alone is agreed with. -/
theorem agreesWithMembers_of_reads (hread : ∀ a ∈ as, ∃ b, single a = .ok [b] ∧ f a = .ok b) :
    AgreesWithMembers (as.mapM f) (as.map single) := by
  obtain ⟨bs, hbs⟩ := exists_map_eq fun a ha => (hread a ha).imp fun _ h => h.2
  have hsame : as.map single = as.map fun a => (f a).map ([·]) := by
    refine List.map_congr_left fun a ha => ?_
    obtain ⟨b, hb, hf⟩ := hread a ha
    rw [hb, hf]
    rfl
  rw [hsame, map_singletons hbs]
  refine ⟨fun lists hlists => ?_, fun error herror => ?_⟩
  · rw [← map_ok_inj.mp hlists, flatten_singletons, mapM_eq_ok_iff]
    exact hbs
  · simp at herror

/-- A list is agreed with whose members give one thing each or fail: if it reads each of them as it
reads alone, or if a member fails and one is not read. -/
theorem agreesWithMembers_mapM_iff
    (hsingle : ∀ a ∈ as, ∀ bs, single a = .ok bs → ∃ b, bs = [b]) :
    AgreesWithMembers (as.mapM f) (as.map single) ↔
      (∀ a ∈ as, ∃ b, single a = .ok [b] ∧ f a = .ok b) ∨
        (∃ a ∈ as, ∃ error, single a = .error error) ∧ ∃ a ∈ as, ∃ error, f a = .error error := by
  constructor
  · intro h
    rcases forall_ok_or_exists_error single as with hok | ⟨a, ha, error, herror⟩
    · refine .inl (h.reads fun a ha => ?_)
      obtain ⟨bs, hread⟩ := hok a ha
      obtain ⟨b, rfl⟩ := hsingle a ha bs hread
      exact ⟨b, hread⟩
    · have hmem : .error error ∈ as.map single := herror ▸ List.mem_map_of_mem ha
      exact .inr ⟨⟨a, ha, error, herror⟩, mapM_eq_error_iff.mp (h.fails error hmem)⟩
  · rintro (hread | ⟨⟨a, ha, error, herror⟩, hfails⟩)
    · exact agreesWithMembers_of_reads hread
    · refine ⟨fun lists hlists => ?_, fun _ _ => mapM_eq_error_iff.mpr hfails⟩
      have hmem : single a ∈ lists.map .ok := hlists ▸ List.mem_map_of_mem ha
      rw [herror] at hmem
      simp at hmem

end Singles

end Members

/-- What stands behind the artifact of a text that is cut at its colons, and the version that it
tells. -/
inductive CutsVersion : List Char → Option (List Char) → Prop
  /-- Nothing. -/
  | none : CutsVersion [] none
  /-- A colon alone. -/
  | colon : CutsVersion [':'] none
  /-- A colon and a version. -/
  | some {version : List Char} (hne : version ≠ []) : CutsVersion (':' :: version) (some version)

/-- A group, an artifact and a version, cut at the first two colons of a text. -/
inductive IsCut : (text group artifact : List Char) → Option (List Char) → Prop
  /-- One behind the other. -/
  | parts {group artifact tail : List Char} {version : Option (List Char)}
      (hgroup : IsMadeOf (· != ':') group) (hartifact : IsMadeOf (· != ':') artifact)
      (htail : CutsVersion tail version) :
      IsCut (group ++ ':' :: (artifact ++ tail)) group artifact version

theorem cutsVersion_iff {tail : List Char} {version : Option (List Char)} :
    CutsVersion tail version ↔ (∀ c ∈ tail.head?, (c != ':') = false) ∧
      version = if (tail.drop 1).isEmpty then none else some (tail.drop 1) := by
  constructor
  · intro h
    cases h with
    | none => simp
    | colon => simp
    | some hne => simp [hne]
  · rintro ⟨hhead, rfl⟩
    cases tail with
    | nil => exact .none
    | cons c tail =>
      obtain rfl : c = ':' := by simpa using hhead
      cases tail with
      | nil => exact .colon
      | cons first more => exact .some (List.cons_ne_nil first more)

/-- Texts in a list are cut at their colons. -/
theorem coordinatesIn_eq_ok_iff {configuration : String} {text : List Char}
    {coordinates : Coordinates} :
    coordinatesIn configuration text = .ok coordinates ↔
      coordinates.configuration = configuration ∧
        IsCut text coordinates.group coordinates.artifact coordinates.version := by
  constructor
  · intro h
    obtain ⟨group, rest, hcut⟩ : ∃ group rest, text.span (· != ':') = (group, rest) := ⟨_, _, rfl⟩
    obtain ⟨artifact, tail, hbehind⟩ :
        ∃ artifact tail, (rest.drop 1).span (· != ':') = (artifact, tail) := ⟨_, _, rfl⟩
    simp only [coordinatesIn, hcut, hbehind] at h
    split at h
    · cases h
    · rename_i hne
      simp only [Bool.or_eq_true, List.isEmpty_iff, not_or] at hne
      obtain ⟨rfl, hgroup, hrest⟩ := span_eq_iff.mp hcut
      obtain ⟨hwhole, hartifact, htail⟩ := span_eq_iff.mp hbehind
      obtain rfl := Except.ok.inj h
      cases rest with
      | nil => exact absurd (List.append_eq_nil_iff.mp hwhole.symm).1 hne.2
      | cons c rest =>
        obtain rfl : c = ':' := by simpa using hrest
        obtain rfl : rest = artifact ++ tail := hwhole
        exact ⟨rfl, .parts ⟨hne.1, hgroup⟩ ⟨hne.2, hartifact⟩ (cutsVersion_iff.mpr ⟨htail, rfl⟩)⟩
  · obtain ⟨known, group, artifact, version⟩ := coordinates
    rintro ⟨rfl, hparts⟩
    cases hparts with
    | @parts _ _ tail _ hgroup hartifact htail =>
      obtain ⟨hhead, rfl⟩ := cutsVersion_iff.mp htail
      have hcut : (group ++ ':' :: (artifact ++ tail)).span (· != ':') =
          (group, ':' :: (artifact ++ tail)) := by
        refine span_eq_iff.mpr ⟨rfl, hgroup.all, ?_⟩
        rintro _ ⟨⟩
        rfl
      have hbehind : (artifact ++ tail).span (· != ':') = (artifact, tail) :=
        span_eq_iff.mpr ⟨rfl, hartifact.all, hhead⟩
      simp only [coordinatesIn, hcut, List.drop_succ_cons, List.drop_zero, hbehind]
      rw [if_neg]
      simpa using ⟨hgroup.ne_nil, hartifact.ne_nil⟩

/-- Coordinates as they are usually written, with one colon between two parts. -/
inductive IsUsual : List Char → Prop
  /-- One behind the other. -/
  | joined {group artifact : List Char} {version : Option (List Char)}
      (hgroup : IsMadeOf isCoordinateChar group) (hartifact : IsMadeOf isCoordinateChar artifact)
      (hversion : ∀ text ∈ version, IsVersion text) : IsUsual (Gradle.joined group artifact version)

theorem ne_colon_of_coordinate {c : Char} (h : isCoordinateChar c = true) : (c != ':') = true := by
  rw [bne_iff_ne]
  rintro rfl
  cases h

/-- Usual coordinates are cut into their parts. -/
theorem isCut_joined {group artifact : List Char} {version : Option (List Char)}
    (hgroup : IsMadeOf isCoordinateChar group) (hartifact : IsMadeOf isCoordinateChar artifact)
    (hversion : ∀ text ∈ version, IsVersion text) :
    IsCut (joined group artifact version) group artifact version := by
  have htail : CutsVersion (version.elim [] (':' :: ·)) version := by
    cases version with
    | none => exact .none
    | some text => exact .some (hversion text rfl).ne_nil
  exact .parts (hgroup.imp fun _ => ne_colon_of_coordinate)
    (hartifact.imp fun _ => ne_colon_of_coordinate) htail

/-- Where a version is read and cut off alike there is one colon in front of it. -/
theorem eq_of_tellsVersion {tail : List Char} {version : Option (List Char)}
    (hshort : TellsVersion tail version) (hcut : CutsVersion tail version) :
    tail = version.elim [] (':' :: ·) ∧ ∀ text ∈ version, IsVersion text := by
  cases hshort with
  | none => exact ⟨rfl, by simp⟩
  | @some dividers version hdividers hversion =>
    generalize hwhole : dividers ++ version = tail at hcut
    cases hcut with
    | some hne => exact ⟨rfl, by simpa using hversion⟩

/-- No colons or commas stand in front of an artifact that comes first. -/
theorem eq_nil_of_dividers {dividers artifact tail rest : List Char}
    (hdividers : ∀ c ∈ dividers, isDivider c = true)
    (hartifact : IsMadeOf isCoordinateChar artifact)
    (h : dividers ++ (artifact ++ tail) = artifact ++ rest) : dividers = [] := by
  cases dividers with
  | nil => rfl
  | cons divider more =>
    obtain ⟨first, letters, rfl⟩ := List.exists_cons_of_ne_nil hartifact.ne_nil
    obtain ⟨rfl, -⟩ := List.cons.inj h
    have hcoordinate := hartifact.all divider (List.mem_cons_self ..)
    rw [isCoordinateChar_of_divider (hdividers divider (List.mem_cons_self ..))] at hcoordinate
    cases hcoordinate

/-- Coordinates are read alike in a list and alone if they are written in the usual way. -/
theorem isUsual_iff {text : List Char} :
    IsUsual text ↔
      ∃ group artifact version, IsShort text group artifact version ∧
        IsCut text group artifact version := by
  constructor
  · rintro ⟨hgroup, hartifact, hversion⟩
    exact ⟨_, _, _, isShort_joined hgroup hartifact hversion,
      isCut_joined hgroup hartifact hversion⟩
  · rintro ⟨group, artifact, version, hshort, hcut⟩
    cases hshort with
    | @parts _ dividers _ tail _ hgroup hdividers hartifact htail =>
      generalize hwhole : group ++ (dividers ++ (artifact ++ tail)) = whole at hcut
      cases hcut with
      | @parts _ _ rest _ _ _ hrest =>
        have hbehind := List.append_cancel_left hwhole
        obtain ⟨divider, more, rfl⟩ := List.exists_cons_of_ne_nil hdividers.ne_nil
        obtain ⟨rfl, hafter⟩ := List.cons.inj hbehind
        have hmore := (List.forall_mem_cons.mp hdividers.all).2
        obtain rfl := eq_nil_of_dividers hmore hartifact hafter
        obtain rfl : tail = rest := List.append_cancel_left hafter
        obtain ⟨rfl, hversion⟩ := eq_of_tellsVersion htail hrest
        exact .joined hgroup hartifact hversion

section Declarations

variable {name : List Char} {configuration : String} (hname : Names name configuration)
include hname

section Alone

variable {quotation : Quotation} {parens : Bool} {text : List Char}
  (htext : Text.compact text = name ++ enclosed parens (separated [quotation]).flatten)
include htext

/-- A text that stands alone declares its parts where it is short. -/
theorem declaration_of_alone {group artifact : List Char} {version : Option (List Char)}
    (hshort : IsShort quotation.content group artifact version) :
    declaration text = .ok [⟨configuration, group, artifact, version⟩] := by
  rw [← hname.coordinates]
  exact declaration_of_isShort hname.ne_nil hname.words hshort htext

/-- A text that stands alone and is not short is an error. -/
theorem declaration_of_not_isShort (hcontent : ∀ c ∈ quotation.content, isQuote c = false)
    (hshort : ¬ ∃ group artifact version, IsShort quotation.content group artifact version) :
    declaration text = .error (.noGroup quotation.content) := by
  have hcontents : ∀ other ∈ [quotation], ∀ c ∈ other.content, isQuote c = false := by
    simpa using hcontent
  have hsome : [quotation] ≠ [] := List.cons_ne_nil quotation []
  have hlist := coordinateList?_eq_none hname.ne_nil hname.words hsome hcontents (.inl (by simp))
    parens
  have htexts := wordWithTexts?_separated hname.ne_nil hname.words hsome hcontents parens
  have hbehind := isWord_head_enclosed parens quotation
  have hshortNone : shortNotation? (name ++ enclosed parens quotation.text) = none := by
    refine Option.eq_none_iff_forall_ne_some.mpr fun found hfound => ?_
    obtain ⟨-, hreads⟩ := (shortNotation?_eq_some_iff hname.ne_nil hname.words
      quotation.isQuote_quote parens).mp hfound
    rw [List.append_assoc] at hreads
    exact hshort ⟨_, _, _, (readsShort_content_iff hcontent quotation.isQuote_quote).mp hreads⟩
  have hmap := mapNotation?_eq_none hname.ne_nil hname.letters (hname.not_suffix (by decide))
    hbehind (notInside_enclosed rfl (by decide) parens quotation)
  have hinside : NotInside "kotlin" (enclosed parens quotation.text) :=
    notInside_enclosed rfl (by decide) parens quotation
  have hkeyword := wordBeforeKeyword?_eq_none hname.ne_nil hname.letters
    (hname.not_suffix (by decide)) hbehind hinside
  have hkotlin : kotlinNotation? (name ++ enclosed parens quotation.text) = none := by
    simp only [kotlinNotation?, hkeyword, Option.bind_eq_bind, Option.bind_none]
  have htokens : (separated [quotation]).flatten = quotation.text := List.flatten_singleton
  rw [htokens] at htext hlist htexts
  simp [declaration, htext, hlist, hshortNone, hmap, hkotlin, htexts, hname.configuration?_eq]

end Alone

/-- Two texts or more, one of them with a colon, are each cut at their colons. -/
theorem declaration_of_list {quotations : List Quotation} (hmany : 2 ≤ quotations.length)
    (hcontent : ∀ quotation ∈ quotations, ∀ c ∈ quotation.content, isQuote c = false)
    (hcolon : ∃ quotation ∈ quotations, ':' ∈ quotation.content) {parens : Bool} {text : List Char}
    (htext : Text.compact text = name ++ enclosed parens (separated quotations).flatten) :
    declaration text =
      quotations.mapM fun quotation => coordinatesIn configuration quotation.content := by
  have hsome : quotations ≠ [] := by
    rintro rfl
    simp at hmany
  have hlist : coordinateList? (Text.compact text) =
      some ((quotations.map Quotation.content).mapM (coordinatesIn configuration)) := by
    have hfew : ¬ quotations.length < 2 := Nat.not_lt.mpr hmany
    rw [htext]
    simp only [coordinateList?, wordWithTexts?_separated hname.ne_nil hname.words hsome hcontent,
      Option.bind_eq_bind, Option.bind_some, List.length_map, hname.configuration?_eq]
    rw [if_neg (by simpa [hfew] using hcolon)]
    rfl
  simp only [declaration, hlist, List.mapM_map]
  rfl

end Declarations

theorem coordinatesIn_eq_error_iff {configuration : String} {text : List Char} :
    (∃ error, coordinatesIn configuration text = .error error) ↔
      ¬ ∃ group artifact version, IsCut text group artifact version := by
  constructor
  · rintro ⟨error, herror⟩ ⟨group, artifact, version, hcut⟩
    have hok : coordinatesIn configuration text = .ok ⟨configuration, group, artifact, version⟩ :=
      coordinatesIn_eq_ok_iff.mpr ⟨rfl, hcut⟩
    rw [herror] at hok
    cases hok
  · intro hnone
    cases hread : coordinatesIn configuration text with
    | error error => exact ⟨error, rfl⟩
    | ok coordinates => exact absurd ⟨_, _, _, (coordinatesIn_eq_ok_iff.mp hread).2⟩ hnone

section Alone

variable {name : List Char} {configuration : String} {quotation : Quotation} {parens : Bool}
  {text : List Char} (hname : Names name configuration)
  (hcontent : ∀ c ∈ quotation.content, isQuote c = false)
  (htext : Text.compact text = name ++ enclosed parens (separated [quotation]).flatten)
include hname hcontent htext

/-- A text that stands alone declares one dependency or is an error. -/
theorem declaration_alone_cases :
    (∃ group artifact version, IsShort quotation.content group artifact version ∧
        declaration text = .ok [⟨configuration, group, artifact, version⟩]) ∨
      (¬ ∃ group artifact version, IsShort quotation.content group artifact version) ∧
        declaration text = .error (.noGroup quotation.content) := by
  by_cases hshort : ∃ group artifact version, IsShort quotation.content group artifact version
  · obtain ⟨group, artifact, version, hshort⟩ := hshort
    exact .inl ⟨group, artifact, version, hshort, declaration_of_alone hname htext hshort⟩
  · exact .inr ⟨hshort, declaration_of_not_isShort hname htext hcontent hshort⟩

theorem declaration_alone_singleton {coordinates : List Coordinates}
    (h : declaration text = .ok coordinates) : ∃ only, coordinates = [only] := by
  obtain ⟨_, _, _, -, hok⟩ | ⟨-, herror⟩ := declaration_alone_cases hname hcontent htext
  · rw [hok] at h
    cases h
    exact ⟨_, rfl⟩
  · rw [herror] at h
    cases h

theorem declaration_alone_eq_error_iff :
    (∃ error, declaration text = .error error) ↔
      ¬ ∃ group artifact version, IsShort quotation.content group artifact version := by
  obtain ⟨group, artifact, version, hshort, hok⟩ | ⟨hnone, herror⟩ :=
    declaration_alone_cases hname hcontent htext
  · rw [hok]
    simpa using ⟨group, artifact, version, hshort⟩
  · simp [herror, hnone]

/-- A text is read alike in a list and alone where it is written in the usual way. -/
theorem declaration_alone_agrees_iff :
    (∃ coordinates, declaration text = .ok [coordinates] ∧
        coordinatesIn configuration quotation.content = .ok coordinates) ↔
      IsUsual quotation.content := by
  rw [isUsual_iff]
  constructor
  · rintro ⟨coordinates, hok, hread⟩
    obtain ⟨group, artifact, version, hshort, hother⟩ | ⟨-, herror⟩ :=
      declaration_alone_cases hname hcontent htext
    · rw [hok] at hother
      cases hother
      exact ⟨group, artifact, version, hshort, (coordinatesIn_eq_ok_iff.mp hread).2⟩
    · rw [hok] at herror
      cases herror
  · rintro ⟨group, artifact, version, hshort, hcut⟩
    exact ⟨⟨configuration, group, artifact, version⟩, declaration_of_alone hname htext hshort,
      coordinatesIn_eq_ok_iff.mpr ⟨rfl, hcut⟩⟩

end Alone

/-- A list of coordinates behind a known configuration, two texts or more and one of them with a
colon, means the same as its members, each behind the configuration alone, exactly in two cases:
where all texts are coordinates as they are usually written, and where one is not short and one
cannot be cut into a group and an artifact. -/
theorem list_agrees_iff {name : List Char} {configuration : String} {quotations : List Quotation}
    {alone : Quotation → List Char} {parens : Bool} {text : List Char}
    (hname : Names name configuration) (hmany : 2 ≤ quotations.length)
    (hcontent : ∀ quotation ∈ quotations, ∀ c ∈ quotation.content, isQuote c = false)
    (hcolon : ∃ quotation ∈ quotations, ':' ∈ quotation.content)
    (hspaced : Spaced (name :: inParens parens (separated quotations)) text)
    (halone : ∀ quotation ∈ quotations, ∃ parens,
      Spaced (name :: inParens parens (separated [quotation])) (alone quotation)) :
    AgreesWithMembers (declaration text) (quotations.map fun quotation =>
        declaration (alone quotation)) ↔
      (∀ quotation ∈ quotations, IsUsual quotation.content) ∨
        (∃ quotation ∈ quotations,
          ¬ ∃ group artifact version, IsShort quotation.content group artifact version) ∧
        ∃ quotation ∈ quotations,
          ¬ ∃ group artifact version, IsCut quotation.content group artifact version := by
  have hdeclared : ∀ quotation ∈ quotations, ∃ parens, Text.compact (alone quotation) =
      name ++ enclosed parens (separated [quotation]).flatten :=
    fun quotation hmem => (halone quotation hmem).imp fun _ hspaced => hspaced.declared
  rw [declaration_of_list hname hmany hcontent hcolon hspaced.declared, agreesWithMembers_mapM_iff]
  · refine or_congr (forall₂_congr fun quotation hmem => ?_)
      (and_congr (exists_congr fun quotation => and_congr_right fun hmem => ?_)
        (exists_congr fun quotation => and_congr_right fun _ => coordinatesIn_eq_error_iff))
    · obtain ⟨parens, htext⟩ := hdeclared quotation hmem
      exact declaration_alone_agrees_iff hname (hcontent quotation hmem) htext
    · obtain ⟨parens, htext⟩ := hdeclared quotation hmem
      exact declaration_alone_eq_error_iff hname (hcontent quotation hmem) htext
  · intro quotation hmem coordinates hread
    obtain ⟨parens, htext⟩ := hdeclared quotation hmem
    exact declaration_alone_singleton hname (hcontent quotation hmem) htext hread

/-- Two texts that are written in the usual way, one of them with a template. -/
theorem usual_list_agrees :
    Names "API".toList "api" ∧ IsUsual "a:b:1".toList ∧ IsUsual "c:d:$\x7bv\x7d".toList ∧
      AgreesWithMembers (declaration "API ('a:b:1', \"c:d:$\x7bv\x7d\")".toList)
        [declaration "API 'a:b:1'".toList, declaration "API \"c:d:$\x7bv\x7d\"".toList] := by
  have hname : Names "API".toList "api" := by decide
  have hfirst : IsUsual (joined ['a'] ['b'] (some ['1'])) := by
    refine .joined (by decide) (by decide) ?_
    rintro _ ⟨⟩
    exact IsMadeOf.isVersion (by decide)
  have hsecond : IsUsual (joined ['c'] ['d'] (some "$\x7bv\x7d".toList)) := by
    refine .joined (by decide) (by decide) ?_
    rintro _ ⟨⟩
    exact IsMadeOf.isVersion (by decide)
  let quotations : List Quotation :=
    [⟨'\'', "a:b:1".toList, rfl⟩, ⟨'"', "c:d:$\x7bv\x7d".toList, rfl⟩]
  have hcolon : ∃ quotation ∈ quotations, ':' ∈ quotation.content :=
    ⟨_, List.mem_cons_self .., by decide⟩
  have hspaced : Spaced ("API".toList :: inParens true (separated quotations))
      ([] ++ ("API".toList ++ ([' '] ++ (['('] ++ ([] ++ ("'a:b:1'".toList ++ ([] ++ ([','] ++
        ([' '] ++ ("\"c:d:$\x7bv\x7d\"".toList ++ ([] ++ ([')'] ++ [])))))))))))) := by
    repeat refine Spaced.token rfl rfl ?_
    exact .last rfl
  have halone : ∀ quotation ∈ quotations, ∃ parens,
      Spaced ("API".toList :: inParens parens (separated [quotation]))
        ([] ++ ("API".toList ++ ([' '] ++ (quotation.text ++ [])))) := by
    have hsolid : ∀ quotation ∈ quotations, quotation.text.any Text.isBlank = false := by decide
    intro quotation hmem
    exact ⟨false, .token rfl rfl (.token rfl (hsolid quotation hmem) (.last rfl))⟩
  have husual : ∀ quotation ∈ quotations, IsUsual quotation.content :=
    List.forall_mem_cons.mpr ⟨hfirst, List.forall_mem_singleton.mpr hsecond⟩
  have hcontent : ∀ quotation ∈ quotations, ∀ c ∈ quotation.content, isQuote c = false := by
    intro quotation hmem
    obtain ⟨_, _, _, hshort, -⟩ := isUsual_iff.mp (husual quotation hmem)
    exact hshort.isQuote_eq
  exact ⟨hname, hfirst, hsecond, (list_agrees_iff hname (by decide) hcontent hcolon hspaced
    halone).mpr (.inl husual)⟩

/-- Two colons are read as one alone, and not in a list. -/
theorem list_with_two_colons_disagrees :
    ¬ AgreesWithMembers (declaration "implementation 'a::b', 'c:d'".toList)
      [declaration "implementation 'a::b'".toList, declaration "implementation 'c:d'".toList] := by
  have hwhole : declaration "implementation 'a::b', 'c:d'".toList =
      .error (.noGroup "a::b".toList) := by
    decide +kernel
  have hfirst : declaration "implementation 'a::b'".toList =
      .ok [⟨"implementation", ['a'], ['b'], none⟩] := by
    decide +kernel
  have hsecond : declaration "implementation 'c:d'".toList =
      .ok [⟨"implementation", ['c'], ['d'], none⟩] := by
    decide +kernel
  intro h
  rw [hwhole, hfirst, hsecond] at h
  have hjoined := h.joined [[⟨"implementation", ['a'], ['b'], none⟩],
    [⟨"implementation", ['c'], ['d'], none⟩]] rfl
  cases hjoined

end CorpusFacts.Gradle
