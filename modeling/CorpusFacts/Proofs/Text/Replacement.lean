import CorpusFacts.Proofs.Text.Splitting
import Mathlib.Data.List.Infix

/-!
# Replacing parts of a text

Replacing looks for a part from left to right. What is replaced leaves a trace: either a text stays
as it is, or it has the new part in it afterwards. Where neither part has a separator, a text may be
split before or after the replacement.
-/

namespace CorpusFacts.Text

variable {part new text first rest : List Char} {c separator : Char} {p : Char → Bool}

/-- A text occurs in another if and only if it is an infix of it. -/
theorem occursIn_eq_true_iff : occursIn part text = true ↔ part <:+: text := by
  induction text with
  | nil => simp [occursIn, List.isEmpty_iff]
  | cons c rest ih => rw [occursIn, Bool.or_eq_true, ih, List.isPrefixOf_iff_prefix,
      List.infix_cons_iff]

@[simp] theorem replace_nil (part new : List Char) : replace part new [] = [] := by
  rw [replace, replaceFrom]

/-- The rest of an occurrence is passed over. -/
theorem replaceFrom_append (part new skipped rest : List Char) :
    replaceFrom part new skipped.length (skipped ++ rest) = replace part new rest := by
  induction skipped with
  | nil => rfl
  | cons c skipped ih => rw [List.cons_append, List.length_cons, replaceFrom, ih]

/-- Every character of a text with replacements is one of the text or of what replaces. -/
theorem mem_of_mem_replace {part new text : List Char} {c : Char} (h : c ∈ replace part new text) :
    c ∈ new ∨ c ∈ text := by
  have hfrom : ∀ skip text, c ∈ replaceFrom part new skip text → c ∈ new ∨ c ∈ text := by
    intro skip text hmem
    induction text generalizing skip with
    | nil => simp [replaceFrom] at hmem
    | cons d text ih =>
      have hrest : ∀ skip, c ∈ replaceFrom part new skip text → c ∈ new ∨ c ∈ d :: text :=
        fun skip hmem => (ih skip hmem).imp_right (List.mem_cons_of_mem _)
      cases skip with
      | succ skip => exact hrest skip hmem
      | zero =>
        rw [replaceFrom] at hmem
        split at hmem
        · exact (List.mem_append.mp hmem).elim Or.inl (hrest _)
        · rcases List.mem_cons.mp hmem with rfl | hmem
          · exact Or.inr List.mem_cons_self
          · exact hrest _ hmem
  exact hfrom 0 text h

/-- An occurrence at the start is replaced. -/
theorem replace_append_self (hpart : part ≠ []) (new rest : List Char) :
    replace part new (part ++ rest) = new ++ replace part new rest := by
  obtain ⟨c, tail, rfl⟩ := List.exists_cons_of_ne_nil hpart
  have hskip := replaceFrom_append (c :: tail) new tail rest
  rw [replace, List.cons_append, replaceFrom,
    if_pos (by rw [List.isPrefixOf_iff_prefix]; exact List.prefix_append (c :: tail) rest),
    List.length_cons, Nat.add_sub_cancel, hskip]

/-- A character at which no occurrence starts is kept. -/
theorem replace_cons_of_not_start (h : ¬ part <+: c :: rest) (new : List Char) :
    replace part new (c :: rest) = c :: replace part new rest := by
  rw [replace, replaceFrom, if_neg (by rwa [List.isPrefixOf_iff_prefix]), replace]

/-- Replacing a character writes every character by itself. -/
theorem replace_singleton (c : Char) (new text : List Char) :
    replace [c] new text = text.flatMap fun d => if d = c then new else [d] := by
  induction text with
  | nil => exact replace_nil [c] new
  | cons d rest ih =>
    rw [List.flatMap_cons, ← ih]
    by_cases hd : d = c
    · subst hd
      rw [if_pos rfl]
      exact replace_append_self (List.cons_ne_nil d []) new rest
    · have hstart : ¬ [c] <+: d :: rest := fun h => hd (List.cons_prefix_cons.mp h).1.symm
      rw [if_neg hd, replace_cons_of_not_start hstart, List.singleton_append]

/-- The start of a text is kept where no occurrence can start in it. -/
theorem replace_append_of_notMem (hhead : part.head? = some c) (h : c ∉ first)
    (new rest : List Char) : replace part new (first ++ rest) = first ++ replace part new rest := by
  induction first with
  | nil => rfl
  | cons d first ih =>
    obtain ⟨hne, hrest⟩ := not_or.mp (List.mem_cons.not.mp h)
    have hstart : ¬ part <+: d :: (first ++ rest) := by
      intro hleads
      obtain ⟨tail, rfl⟩ := List.head?_eq_some_iff.mp hhead
      exact hne (List.cons_prefix_cons.mp hleads).1
    rw [List.cons_append, replace_cons_of_not_start hstart, ih hrest, List.cons_append]

/-- A text in which a part does not occur is kept. -/
theorem replace_of_not_infix (h : ¬ part <:+: text) (new : List Char) :
    replace part new text = text := by
  induction text with
  | nil => exact replace_nil part new
  | cons c rest ih =>
    obtain ⟨hleads, hrest⟩ := not_or.mp (List.infix_cons_iff.not.mp h)
    rw [replace_cons_of_not_start hleads, ih hrest]

/-- What is replaced leaves the new part behind. -/
theorem replace_eq_self_or_infix (hpart : part ≠ []) (new text : List Char) :
    replace part new text = text ∨ new <:+: replace part new text := by
  induction text with
  | nil => exact Or.inl (replace_nil part new)
  | cons c rest ih =>
    by_cases hleads : part <+: c :: rest
    · obtain ⟨tail, htail⟩ := hleads
      rw [← htail, replace_append_self hpart]
      exact Or.inr (List.prefix_append _ _).isInfix
    · rw [replace_cons_of_not_start hleads]
      exact ih.imp (congrArg (c :: ·)) List.infix_cons

/-- The new part is left behind where the old one occurs. -/
theorem infix_replace (hpart : part ≠ []) (new : List Char) (h : part <:+: text) :
    new <:+: replace part new text := by
  induction text with
  | nil => exact absurd (List.infix_nil.mp h) hpart
  | cons c rest ih =>
    by_cases hleads : part <+: c :: rest
    · obtain ⟨tail, htail⟩ := hleads
      rw [← htail, replace_append_self hpart]
      exact (List.prefix_append _ _).isInfix
    · rw [replace_cons_of_not_start hleads]
      exact List.infix_cons (ih ((List.infix_cons_iff.mp h).resolve_left hleads))

/-- A text without a separator at the start of another becomes part of the first piece. -/
theorem splitWhere_append_of_none (h : ∀ c ∈ first, p c = false) (rest : List Char) :
    splitWhere p (first ++ rest) = (splitWhere p rest).modifyHead (first ++ ·) := by
  obtain ⟨piece, pieces, hpieces⟩ := List.exists_cons_of_ne_nil (splitWhere_ne_nil p rest)
  induction first with
  | nil => simp [hpieces]
  | cons d first ih =>
    obtain ⟨hd, hfirst⟩ := List.forall_mem_cons.mp h
    rw [List.cons_append, splitWhere, if_neg (by simp [hd]), ih hfirst, hpieces]
    rfl

/-- The first piece of a text is at its start. -/
theorem prefix_of_splitWhere {piece : List Char} {pieces : List (List Char)}
    (h : splitWhere p text = piece :: pieces) : piece <+: text := by
  induction text generalizing piece pieces with
  | nil =>
    obtain ⟨rfl, _⟩ : [] = piece ∧ [] = pieces := by simpa [splitWhere] using h
    exact List.nil_prefix
  | cons d rest ih =>
    rw [splitWhere] at h
    split at h
    · obtain ⟨rfl, _⟩ := List.cons.inj h
      exact List.nil_prefix
    · cases hrest : splitWhere p rest with
      | nil => exact absurd hrest (splitWhere_ne_nil p rest)
      | cons inner inners =>
        rw [hrest] at h
        obtain ⟨rfl, _⟩ := List.cons.inj h
        exact List.cons_prefix_cons.mpr ⟨rfl, ih hrest⟩

/-- Replacing a part without separators by one without them does so in every piece of a text. -/
theorem split_replace (hpart : part ≠ []) (hpartPlain : separator ∉ part)
    (hnewPlain : separator ∉ new) (text : List Char) :
    split separator (replace part new text) = (split separator text).map (replace part new) := by
  have hplain : ∀ piece : List Char, separator ∉ piece →
      ∀ c ∈ piece, (c == separator) = false := by
    intro piece hpiece c hc
    rw [beq_eq_false_iff_ne]
    rintro rfl
    exact hpiece hc
  induction hlength : text.length using Nat.strong_induction_on generalizing text with
  | _ length ih =>
    cases text with
    | nil => simp [split, splitWhere]
    | cons c rest =>
      by_cases hleads : part <+: c :: rest
      · -- an occurrence at the start lies in the first piece
        obtain ⟨tail, htail⟩ := hleads
        have hshorter : tail.length < length := by
          have hsum := congrArg List.length htail
          have := List.length_pos_of_ne_nil hpart
          simp only [List.length_append] at hsum
          omega
        have htailSplit := ih tail.length hshorter tail rfl
        rw [split] at htailSplit
        obtain ⟨piece, pieces, hpieces⟩ := List.exists_cons_of_ne_nil
          (splitWhere_ne_nil (· == separator) tail)
        rw [← htail, replace_append_self hpart, split, split,
          splitWhere_append_of_none (hplain new hnewPlain),
          splitWhere_append_of_none (hplain part hpartPlain), htailSplit, split, hpieces]
        simp [replace_append_self hpart]
      · have hrestSplit := ih rest.length (by simp [← hlength]) rest rfl
        rw [split, split] at hrestSplit
        rw [replace_cons_of_not_start hleads, split, split, splitWhere, splitWhere, hrestSplit]
        split
        · simp
        · obtain ⟨piece, pieces, hpieces⟩ := List.exists_cons_of_ne_nil
            (splitWhere_ne_nil (· == separator) rest)
          have hstart : ¬ part <+: c :: piece := fun h =>
            hleads (h.trans (List.cons_prefix_cons.mpr ⟨rfl, prefix_of_splitWhere hpieces⟩))
          rw [hpieces, List.map_cons, List.map_cons, replace_cons_of_not_start hstart]

end CorpusFacts.Text
