import CorpusFacts.Files.Path
import CorpusFacts.Proofs.Text.Splitting

/-!
# Joining paths

Joining puts the steps of one path behind those of another. A relative text that neither starts nor
ends with a slash may be joined piece by piece or as a whole.
-/

namespace CorpusFacts.Path

/-- A relative text between slashes: it is not empty and neither starts nor ends with a slash. -/
structure IsInner (text : String) : Prop where
  /-- It is not empty. -/
  nonempty : text.toList ≠ []
  /-- It does not start with a slash. -/
  head : text.toList.head? ≠ some '/'
  /-- It does not end with a slash. -/
  last : text.toList.getLast? ≠ some '/'

/-- What is joined to an empty path is the whole path. -/
theorem join_of_empty {base : Path} {inner : String} (hbase : base.text = "") :
    base.join inner = ⟨inner⟩ := by
  rw [join]
  split
  · rfl
  · simp [hbase]

/-- The text of a path joined to one that ends in a slash. -/
theorem join_of_slash {base : Path} {inner : String} (hinner : inner.toList.head? ≠ some '/')
    (hbase : base.text.toList.getLast? = some '/') : base.join inner = ⟨base.text ++ inner⟩ := by
  rw [join, if_neg (by simpa using hinner), hbase]
  rfl

/-- The text of a path joined to one that does not end in a slash. -/
theorem join_of_plain {base : Path} {inner : String} (hinner : inner.toList.head? ≠ some '/')
    (hne : base.text ≠ "") (hbase : base.text.toList.getLast? ≠ some '/') :
    base.join inner = ⟨base.text ++ "/" ++ inner⟩ := by
  rw [join, if_neg (by simpa using hinner)]
  split
  · rename_i hnone
    exact absurd (String.toList_eq_nil_iff.mp (List.getLast?_eq_none_iff.mp hnone)) hne
  · rename_i hlast
    exact absurd hlast hbase
  · rfl

/-- A path joined to one is never empty. -/
theorem join_ne_empty {base : Path} {inner : String} (h : IsInner inner) :
    (base.join inner).text ≠ "" := by
  have hne : inner ≠ "" := fun heq => h.nonempty (by simp [heq])
  by_cases hempty : base.text = ""
  · rw [join_of_empty hempty]
    exact hne
  · by_cases hbase : base.text.toList.getLast? = some '/'
    · rw [join_of_slash h.head hbase]
      intro heq
      exact hempty (by simpa using (String.append_eq_empty_iff.mp heq).1)
    · rw [join_of_plain h.head hempty hbase]
      intro heq
      exact hne (String.append_eq_empty_iff.mp heq).2

/-- A path ends as what was joined to it ends. -/
theorem join_getLast? {base : Path} {inner : String} (h : IsInner inner) :
    (base.join inner).text.toList.getLast? = inner.toList.getLast? := by
  have happend : ∀ text : String, (text ++ inner).toList.getLast? = inner.toList.getLast? := by
    intro text
    rw [String.toList_append, List.getLast?_append_of_ne_nil _ h.nonempty]
  by_cases hempty : base.text = ""
  · rw [join_of_empty hempty]
  · by_cases hbase : base.text.toList.getLast? = some '/'
    · rw [join_of_slash h.head hbase]
      exact happend _
    · rw [join_of_plain h.head hempty hbase]
      exact happend _

/-- Joining one text and then another is joining both with a slash between them. -/
theorem join_join {base : Path} {first second : String} (hfirst : IsInner first)
    (hsecond : second.toList.head? ≠ some '/') :
    (base.join first).join second = base.join (first ++ "/" ++ second) := by
  have hlast : (base.join first).text.toList.getLast? ≠ some '/' := by
    rw [join_getLast? hfirst]
    exact hfirst.last
  have hhead : (first ++ "/" ++ second).toList.head? ≠ some '/' := by
    obtain ⟨c, rest, hfirstText⟩ := List.exists_cons_of_ne_nil hfirst.nonempty
    have := hfirst.head
    simpa [String.toList_append, hfirstText] using this
  rw [join_of_plain hsecond (join_ne_empty hfirst) hlast]
  by_cases hempty : base.text = ""
  · rw [join_of_empty hempty, join_of_empty hempty]
  · by_cases hbase : base.text.toList.getLast? = some '/'
    · rw [join_of_slash hfirst.head hbase, join_of_slash hhead hbase]
      simp [String.append_assoc]
    · rw [join_of_plain hfirst.head hempty hbase, join_of_plain hhead hempty hbase]
      simp [String.append_assoc]

/-- Two inner texts with a slash between them are one. -/
theorem IsInner.append {first second : String} (hfirst : IsInner first)
    (hsecond : IsInner second) : IsInner (first ++ "/" ++ second) where
  nonempty := by simp [String.toList_append]
  head := by
    obtain ⟨c, rest, hfirstText⟩ := List.exists_cons_of_ne_nil hfirst.nonempty
    have := hfirst.head
    simpa [String.toList_append, hfirstText] using this
  last := by
    rw [String.toList_append, List.getLast?_append_of_ne_nil _ hsecond.nonempty]
    exact hsecond.last

/-- A relative text joined to a path that is not empty is put behind it, with a slash between the
two. -/
theorem exists_front {base : Path} (hbase : base.text ≠ "") :
    ∃ front, (base.text.toList = front ∨ base.text.toList = front ++ ['/']) ∧
      ∀ inner : String, inner.toList.head? ≠ some '/' →
        (base.join inner).text.toList = front ++ '/' :: inner.toList := by
  by_cases hlast : base.text.toList.getLast? = some '/'
  · obtain ⟨front, hfront⟩ := List.getLast?_eq_some_iff.mp hlast
    refine ⟨front, Or.inr hfront, fun inner hinner => ?_⟩
    rw [join_of_slash hinner hlast, String.toList_append, hfront]
    simp
  · refine ⟨base.text.toList, Or.inl rfl, fun inner hinner => ?_⟩
    rw [join_of_plain hinner hbase hlast]
    simp [String.toList_append]

/-- A text without slashes does not start with one. -/
theorem head?_ne_slash {inner : String} (h : '/' ∉ inner.toList) :
    inner.toList.head? ≠ some '/' :=
  fun hhead => h (List.mem_of_mem_head? hhead)

/-- The segments of a path joined to a relative text are those of the path and then those of the
text, except that a slash at the end of the path does not count. -/
theorem exists_segments_join {base : Path} (hbase : base.text ≠ "") :
    ∃ steps, (base.segments = steps ∨ base.segments = steps ++ [[]]) ∧ steps ≠ [] ∧
      ∀ inner : String, inner.toList.head? ≠ some '/' →
        (base.join inner).segments = steps ++ (⟨inner⟩ : Path).segments := by
  obtain ⟨front, hfront, hjoin⟩ := exists_front hbase
  refine ⟨Text.split '/' front, ?_, Text.splitWhere_ne_nil _ _, fun inner hinner => ?_⟩
  · refine hfront.imp (fun heq => ?_) fun heq => ?_
    · rw [segments, heq]
    · rw [segments, heq]
      exact Text.splitWhere_append (by simp)
  · rw [segments, hjoin inner hinner]
    exact Text.splitWhere_append (by simp)

/-- A path is spelled by its segments. -/
theorem eq_of_segments {path other : Path} (h : path.segments = other.segments) : path = other := by
  have htext : ['/'].intercalate path.segments = ['/'].intercalate other.segments := congrArg _ h
  rw [segments, segments, Text.intercalate_split, Text.intercalate_split] at htext
  cases path
  cases other
  exact congrArg Path.mk (String.toList_inj.mp htext)

/-- A text without slashes is one segment. -/
theorem segments_of_noSlash {name : String} (h : '/' ∉ name.toList) :
    (⟨name⟩ : Path).segments = [name.toList] :=
  Text.splitWhere_of_none fun c hc => by
    rw [beq_eq_false_iff_ne]
    rintro rfl
    exact h hc

/-- The segments of a path joined to a name are those of the path and then the name, except that a
slash at the end of the path does not count. -/
theorem segments_join {base : Path} {name : String} (hname : '/' ∉ name.toList)
    (hbase : base.text ≠ "") :
    ∃ steps, (base.segments = steps ∨ base.segments = steps ++ [[]]) ∧
      (base.join name).segments = steps ++ [name.toList] := by
  obtain ⟨steps, hsteps, _, hjoin⟩ := exists_segments_join hbase
  refine ⟨steps, hsteps, ?_⟩
  rw [hjoin name (head?_ne_slash hname), segments_of_noSlash hname]

/-- A path joined to a relative text starts where the path starts. -/
theorem isAbsolute_join {base : Path} {inner : String} (hinner : inner.toList.head? ≠ some '/')
    (hbase : base.text ≠ "") : (base.join inner).isAbsolute = base.isAbsolute := by
  obtain ⟨front, hfront, hjoin⟩ := exists_front hbase
  rw [isAbsolute, isAbsolute, hjoin inner hinner]
  rcases hfront with heq | heq
  · have hne : front ≠ [] := fun hnil => hbase (String.toList_eq_nil_iff.mp (heq.trans hnil))
    rw [heq, List.head?_append_of_ne_nil _ hne]
  · rw [heq]
    cases front <;> rfl

/-- The path that names lead to from another. -/
def joins (path : Path) (names : List String) : Path :=
  names.foldl join path

end CorpusFacts.Path
