import CorpusFacts.Text.Words
import Mathlib.Data.List.Basic

/-!
# Trimming and splitting

Trimming takes blanks off the ends of a text and nothing else. Splitting keeps what is between
separators and nothing else: no part has a separator in it, and the parts of two texts with a
separator between them are those of the one and then those of the other.
-/

namespace CorpusFacts.Text

variable {p : Char → Bool} {blanks text rest : List Char}

/-! ## Blanks -/

/-- The code points of blanks. -/
def blankPoints : List Nat :=
  [0x9, 0xa, 0xb, 0xc, 0xd, 0x20, 0x85, 0xa0, 0x1680, 0x2000, 0x2001, 0x2002, 0x2003, 0x2004,
   0x2005, 0x2006, 0x2007, 0x2008, 0x2009, 0x200a, 0x2028, 0x2029, 0x202f, 0x205f, 0x3000]

theorem toNat_mem_blankPoints {c : Char} (h : isBlank c = true) : c.toNat ∈ blankPoints := by
  have hbetween : ∀ {first last : Char}, first ≤ c → c ≤ last →
      first.toNat ≤ c.toNat ∧ c.toNat ≤ last.toNat :=
    fun hfirst hlast => ⟨UInt32.le_iff_toNat_le.mp hfirst, UInt32.le_iff_toNat_le.mp hlast⟩
  simp only [isBlank, Bool.or_eq_true, Bool.and_eq_true, beq_iff_eq, decide_eq_true_eq] at h
  rcases h with (((((((((rfl | ⟨hfirst, hlast⟩) | rfl) | rfl) | rfl) | ⟨hfirst, hlast⟩) | rfl) |
    rfl) | rfl) | rfl) | rfl
  all_goals first
    | decide
    | (obtain ⟨hlow, hhigh⟩ := hbetween hfirst hlast
       simp only [Char.reduceToNat] at hlow hhigh
       simp only [blankPoints, List.mem_cons]
       omega)

/-- Letters and digits are no blanks. -/
theorem isAlphanumeric_of_isBlank {c : Char} (h : isBlank c = true) : isAlphanumeric c = false := by
  have hall : ∀ point ∈ blankPoints, isAlphanumeric (Char.ofNat point) = false := by
    decide +kernel
  rw [← Char.ofNat_toNat c]
  exact hall _ (toNat_mem_blankPoints h)

/-- ASCII letters and digits are no blanks. -/
theorem isBlank_of_isAsciiAlphanumeric {c : Char} (h : isAsciiAlphanumeric c = true) :
    isBlank c = false := by
  have hall : ∀ point ∈ blankPoints, isAsciiAlphanumeric (Char.ofNat point) = false := by
    decide +kernel
  rw [← Bool.not_eq_true]
  intro hblank
  rw [← Char.ofNat_toNat c, hall _ (toNat_mem_blankPoints hblank)] at h
  cases h

/-! ## Trimming -/

/-- What follows a start is what stands behind it. -/
theorem after?_eq_some_iff {start : List Char} :
    after? start text = some rest ↔ text = start ++ rest := by
  induction start generalizing text with
  | nil => rw [after?, Option.some.injEq, List.nil_append]
  | cons c start ih =>
    cases text with
    | nil => simp [after?]
    | cons d text =>
      rw [after?, List.cons_append, List.cons.injEq, ← ih]
      by_cases hc : c = d
      · rw [if_pos (by simpa using hc), and_iff_right hc.symm]
      · rw [if_neg (by simpa using hc)]
        refine ⟨fun h => ?_, fun h => absurd h.1.symm hc⟩
        cases h

theorem dropEndWhile_of_last (hlast : ∀ c ∈ text.getLast?, p c = false) :
    dropEndWhile p text = text := by
  rw [dropEndWhile]
  cases hreverse : text.reverse with
  | nil =>
    rw [List.reverse_eq_nil_iff] at hreverse
    rw [hreverse]
    rfl
  | cons c later =>
    have hc : p c = false := hlast c (by rw [← List.head?_reverse, hreverse]; rfl)
    rw [List.dropWhile_cons_of_neg (by simp [hc]), ← hreverse, List.reverse_reverse]

theorem trimStart_append (hblanks : ∀ c ∈ blanks, isBlank c = true)
    (htext : ∀ c ∈ text.head?, isBlank c = false) : trimStart (blanks ++ text) = text := by
  rw [trimStart, List.dropWhile_append_of_pos hblanks]
  cases text with
  | nil => rfl
  | cons c text => exact List.dropWhile_cons_of_neg (by simp [htext c rfl])

theorem trimStart_of_head (htext : ∀ c ∈ text.head?, isBlank c = false) :
    trimStart text = text := by
  have hnone : ∀ c ∈ ([] : List Char), isBlank c = true := List.forall_mem_nil _
  exact trimStart_append hnone htext

/-- Behind some blanks a text that neither begins nor ends with one is what is left. -/
theorem trim_append (hblanks : ∀ c ∈ blanks, isBlank c = true)
    (hhead : ∀ c ∈ text.head?, isBlank c = false)
    (hlast : ∀ c ∈ text.getLast?, isBlank c = false) : trim (blanks ++ text) = text := by
  rw [trim, trimStart_append hblanks hhead, dropEndWhile_of_last hlast]

/-- A text that neither begins nor ends with a blank has none to be trimmed. -/
theorem trim_of_ends (hhead : ∀ c ∈ text.head?, isBlank c = false)
    (hlast : ∀ c ∈ text.getLast?, isBlank c = false) : trim text = text :=
  trim_append (List.forall_mem_nil _) hhead hlast

theorem trim_of_blanks (hblanks : ∀ c ∈ blanks, isBlank c = true) : trim blanks = [] := by
  have hend : ∀ c ∈ ([] : List Char).head?, isBlank c = false := by simp
  have hstart := trimStart_append hblanks hend
  rw [List.append_nil] at hstart
  rw [trim, hstart]
  rfl

/-! ## Splitting -/

/-- There is always a part. -/
theorem splitWhere_ne_nil (p : Char → Bool) (text : List Char) : splitWhere p text ≠ [] := by
  cases text with
  | nil => simp [splitWhere]
  | cons c rest =>
    rw [splitWhere]
    split
    · simp
    · split <;> simp

/-- A text without a separator is one part. -/
theorem splitWhere_of_none {text : List Char} (h : ∀ c ∈ text, p c = false) :
    splitWhere p text = [text] := by
  induction text with
  | nil => rfl
  | cons c rest ih =>
    have hrest := ih fun d hd => h d (List.mem_cons_of_mem _ hd)
    rw [splitWhere, hrest, h c (List.mem_cons_self ..)]
    rfl

/-- Two texts with a separator between them are split one after the other. -/
theorem splitWhere_append {first second : List Char} {c : Char} (hc : p c = true) :
    splitWhere p (first ++ c :: second) = splitWhere p first ++ splitWhere p second := by
  induction first with
  | nil =>
    have hempty : splitWhere p [] = [[]] := rfl
    rw [List.nil_append, hempty, splitWhere, if_pos hc, List.singleton_append]
  | cons d first ih =>
    rw [List.cons_append, splitWhere, splitWhere, ih]
    split
    · rfl
    · cases hparts : splitWhere p first with
      | nil => exact absurd hparts (splitWhere_ne_nil p first)
      | cons part parts => rfl

/-- The parts of a text with the separator between them are the text. -/
theorem intercalate_split (separator : Char) (text : List Char) :
    [separator].intercalate (split separator text) = text := by
  induction text with
  | nil => rfl
  | cons c rest ih =>
    rw [split] at ih
    rw [split, splitWhere]
    obtain ⟨part, parts, hparts⟩ := List.exists_cons_of_ne_nil
      (splitWhere_ne_nil (· == separator) rest)
    rw [hparts] at ih ⊢
    split
    · rename_i hc
      obtain rfl : c = separator := by simpa using hc
      rw [List.intercalate_cons_cons, ih]
      rfl
    · cases parts <;> simp_all [List.intercalate]

/-- A text without separators is its only part. -/
theorem split_of_notMem {separator : Char} {text : List Char} (h : separator ∉ text) :
    split separator text = [text] :=
  splitWhere_of_none fun _ hc => beq_eq_false_iff_ne.mpr fun heq => h (heq ▸ hc)

/-- Two texts with a separator between them are split one after the other. -/
theorem split_append (separator : Char) (first second : List Char) :
    split separator (first ++ separator :: second) =
      split separator first ++ split separator second :=
  splitWhere_append (beq_self_eq_true separator)

/-- The first part ends at the first separator. -/
theorem split_append_cons {separator : Char} {part : List Char} (h : separator ∉ part)
    (rest : List Char) :
    split separator (part ++ separator :: rest) = part :: split separator rest := by
  rw [split_append, split_of_notMem h, List.singleton_append]

/-- Parts without separators are the parts of the text that has them with separators between. -/
theorem split_intercalate {separator : Char} {parts : List (List Char)} (hparts : parts ≠ [])
    (h : ∀ part ∈ parts, separator ∉ part) :
    split separator ([separator].intercalate parts) = parts := by
  induction parts with
  | nil => exact absurd rfl hparts
  | cons part parts ih =>
    obtain ⟨hpart, hrest⟩ := List.forall_mem_cons.mp h
    cases parts with
    | nil => rw [List.intercalate_singleton, split_of_notMem hpart]
    | cons next parts =>
      rw [List.intercalate_cons_cons, List.append_assoc, List.singleton_append,
        split_append_cons hpart, ih (List.cons_ne_nil next parts) hrest]

/-- What is put together from two lists of parts has a separator between what is put together from
each. -/
theorem intercalate_append {separator : List Char} {first second : List (List Char)}
    (hfirst : first ≠ []) (hsecond : second ≠ []) :
    separator.intercalate (first ++ second) =
      separator.intercalate first ++ separator ++ separator.intercalate second := by
  induction first with
  | nil => exact absurd rfl hfirst
  | cons part first ih =>
    cases first with
    | nil =>
      obtain ⟨next, second, rfl⟩ := List.exists_cons_of_ne_nil hsecond
      rw [List.singleton_append, List.intercalate_cons_cons, List.intercalate_singleton]
    | cons next first =>
      rw [List.cons_append, List.cons_append, List.intercalate_cons_cons, ← List.cons_append,
        ih (List.cons_ne_nil next first), List.intercalate_cons_cons]
      simp only [List.append_assoc]

/-- The parts of one text are the first parts of another if and only if the texts are the same or
the other one goes on with a separator. -/
theorem split_isPrefix_iff {separator : Char} {first second : List Char} :
    split separator first <+: split separator second ↔
      first = second ∨ first ++ [separator] <+: second := by
  constructor
  · rintro ⟨more, hmore⟩
    have hsecond := intercalate_split separator second
    rw [← hmore] at hsecond
    cases more with
    | nil =>
      left
      rwa [List.append_nil, intercalate_split] at hsecond
    | cons part parts =>
      right
      have hfirst : split separator first ≠ [] := splitWhere_ne_nil _ first
      refine ⟨[separator].intercalate (part :: parts), ?_⟩
      rw [← hsecond, intercalate_append hfirst (List.cons_ne_nil part parts), intercalate_split]
  · rintro (rfl | ⟨rest, rfl⟩)
    · exact List.prefix_rfl
    · rw [List.append_assoc, List.singleton_append, split_append]
      exact List.prefix_append _ _

/-- What is put together from parts with a separator is made of their characters and the
separator. -/
theorem of_mem_intercalate {separator c : Char} {parts : List (List Char)}
    (h : c ∈ [separator].intercalate parts) : c = separator ∨ ∃ part ∈ parts, c ∈ part := by
  induction parts with
  | nil => simp [List.intercalate] at h
  | cons part parts ih =>
    cases parts with
    | nil => exact Or.inr ⟨part, by simp, by simpa using h⟩
    | cons next parts =>
      rw [List.intercalate_cons_cons, List.append_assoc, List.mem_append, List.mem_append,
        List.mem_singleton] at h
      rcases h with hpart | rfl | hrest
      · exact Or.inr ⟨part, List.mem_cons_self .., hpart⟩
      · exact Or.inl rfl
      · refine (ih hrest).imp_right ?_
        rintro ⟨other, hother, hc⟩
        exact ⟨other, List.mem_cons_of_mem _ hother, hc⟩

/-- What is put together from parts holds their characters. -/
theorem mem_intercalate {separator : List Char} {part : List Char} {c : Char}
    {parts : List (List Char)} (hpart : part ∈ parts) (hc : c ∈ part) :
    c ∈ separator.intercalate parts := by
  induction parts with
  | nil => cases hpart
  | cons first parts ih =>
    cases parts with
    | nil =>
      obtain rfl := List.mem_singleton.mp hpart
      rwa [List.intercalate_singleton]
    | cons next parts =>
      rw [List.intercalate_cons_cons]
      rcases List.mem_cons.mp hpart with rfl | hpart
      · exact List.mem_append_left _ (List.mem_append_left _ hc)
      · exact List.mem_append_right _ (ih hpart)

/-- What is put together from parts is free of a character, apart from the separator, if the parts
are. -/
theorem notMem_intercalate_iff {separator c : Char} {parts : List (List Char)}
    (hc : c ≠ separator) :
    c ∉ [separator].intercalate parts ↔ ∀ part ∈ parts, c ∉ part := by
  constructor
  · exact fun h part hpart hmem => h (mem_intercalate hpart hmem)
  · intro h hmem
    obtain ⟨part, hpart, hmem⟩ := (of_mem_intercalate hmem).resolve_left hc
    exact h part hpart hmem

/-- What is put together from parts starts as one of them and ends as one of them. -/
theorem ends_of_intercalate (separator : List Char) {parts : List (List Char)} (hparts : parts ≠ [])
    (hne : ∀ part ∈ parts, part ≠ []) :
    (∃ part ∈ parts, (separator.intercalate parts).head? = part.head?) ∧
      ∃ part ∈ parts, (separator.intercalate parts).getLast? = part.getLast? := by
  induction parts with
  | nil => exact absurd rfl hparts
  | cons part parts ih =>
    obtain ⟨hpart, hrest⟩ := List.forall_mem_cons.mp hne
    cases parts with
    | nil =>
      rw [List.intercalate_singleton]
      exact ⟨⟨part, List.mem_cons_self .., rfl⟩, ⟨part, List.mem_cons_self .., rfl⟩⟩
    | cons next parts =>
      obtain ⟨⟨first, hfirst, hhead⟩, last, hlast, hend⟩ := ih (List.cons_ne_nil next parts) hrest
      have hinner : separator.intercalate (next :: parts) ≠ [] := by
        intro hnil
        rw [hnil] at hhead
        exact hrest first hfirst (List.head?_eq_none_iff.mp hhead.symm)
      rw [List.intercalate_cons_cons]
      refine ⟨⟨part, List.mem_cons_self .., ?_⟩, last, List.mem_cons_of_mem _ hlast, ?_⟩
      · rw [List.append_assoc, List.head?_append_of_ne_nil _ hpart]
      · rw [List.getLast?_append_of_ne_nil _ hinner, hend]

/-- No part has a separator in it. -/
theorem not_separator_of_mem_splitWhere {text part : List Char} (h : part ∈ splitWhere p text) :
    ∀ c ∈ part, p c = false := by
  induction text generalizing part with
  | nil =>
    obtain rfl : part = [] := by simpa [splitWhere] using h
    simp
  | cons d rest ih =>
    rw [splitWhere] at h
    split at h
    · rcases List.mem_cons.mp h with rfl | h
      · simp
      · exact ih h
    · rename_i hd
      cases hparts : splitWhere p rest with
      | nil => exact absurd hparts (splitWhere_ne_nil p rest)
      | cons first parts =>
        rw [hparts] at h ih
        rcases List.mem_cons.mp h with rfl | h
        · intro c hc
          rcases List.mem_cons.mp hc with rfl | hc
          · simpa using hd
          · exact ih (List.mem_cons_self ..) c hc
        · exact ih (List.mem_cons_of_mem _ h)

/-- A text is its only part if and only if it has no separator. -/
theorem length_split_eq_one_iff {separator : Char} {text : List Char} :
    (split separator text).length = 1 ↔ separator ∉ text := by
  constructor
  · intro h
    obtain ⟨part, hpart⟩ := List.length_eq_one_iff.mp h
    have htext := intercalate_split separator text
    rw [hpart, List.intercalate_singleton] at htext
    subst htext
    intro hmem
    have hplain := not_separator_of_mem_splitWhere (hpart ▸ List.mem_singleton_self part) _ hmem
    simp at hplain
  · intro h
    rw [split_of_notMem h, List.length_singleton]

/-- Texts that each end in a separator are split one after the other and leave an empty part behind
them. -/
theorem split_flatMap_append (separator : Char) (texts : List (List Char)) :
    split separator (texts.flatMap (· ++ [separator])) =
      texts.flatMap (split separator) ++ [[]] := by
  induction texts with
  | nil => rfl
  | cons text texts ih =>
    rw [List.flatMap_cons, List.append_assoc, List.singleton_append, split_append, ih,
      List.flatMap_cons, List.append_assoc]

/-- The parts of a text are made of its characters. -/
theorem mem_of_mem_splitWhere {text part : List Char} {c : Char} (h : part ∈ splitWhere p text)
    (hc : c ∈ part) : c ∈ text := by
  induction text generalizing part with
  | nil =>
    obtain rfl : part = [] := by simpa [splitWhere] using h
    cases hc
  | cons d rest ih =>
    rw [splitWhere] at h
    split at h
    · rcases List.mem_cons.mp h with rfl | h
      · cases hc
      · exact List.mem_cons_of_mem _ (ih h hc)
    · cases hparts : splitWhere p rest with
      | nil => exact absurd hparts (splitWhere_ne_nil p rest)
      | cons first parts =>
        rw [hparts] at h ih
        rcases List.mem_cons.mp h with rfl | h
        · rcases List.mem_cons.mp hc with rfl | hc
          · exact List.mem_cons_self ..
          · exact List.mem_cons_of_mem _ (ih (List.mem_cons_self ..) hc)
        · exact List.mem_cons_of_mem _ (ih (List.mem_cons_of_mem _ h) hc)

/-! ## Words -/

/-- A text without blanks is one word. -/
theorem words_of_plain (hne : text ≠ []) (hplain : ∀ c ∈ text, isBlank c = false) :
    words text = [text] := by
  rw [words, splitWhere_of_none hplain, List.filter_cons_of_pos (by simpa using hne)]
  rfl

/-- Words go up to a blank. -/
theorem words_append {c : Char} (hc : isBlank c = true) (first second : List Char) :
    words (first ++ c :: second) = words first ++ words second := by
  rw [words, splitWhere_append hc, List.filter_append, words, words]

/-- Blanks between two texts separate their words. -/
theorem words_append_blanks {first second : List Char} (hne : blanks ≠ [])
    (hblanks : ∀ c ∈ blanks, isBlank c = true) :
    words (first ++ (blanks ++ second)) = words first ++ words second := by
  induction blanks generalizing first with
  | nil => exact absurd rfl hne
  | cons c blanks ih =>
    obtain ⟨hc, hrest⟩ := List.forall_mem_cons.mp hblanks
    rw [List.cons_append, words_append hc]
    cases blanks with
    | nil => rfl
    | cons d blanks =>
      have hwords : words ([] ++ (d :: blanks ++ second)) = words [] ++ words second :=
        ih (List.cons_ne_nil d blanks) hrest
      rw [List.nil_append] at hwords
      rw [hwords]
      rfl

end CorpusFacts.Text
