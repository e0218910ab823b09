import CorpusFacts.Proofs.Syntax.Pieces
import CorpusFacts.Script.Lexer
import Mathlib.Data.List.TakeWhile

/-!
# The pieces of a script

A script is its pieces put together. All of them are read one after the other, except that a first
line that names an interpreter is set apart.
-/

namespace CorpusFacts.Script

/-- Pieces that a script is cut into. -/
inductive ReadsScript (dialect : Dialect) : List Piece → Prop
  /-- A script that names no interpreter is read from its start. -/
  | plain {pieces : List Piece} (hplain : ¬ ['#', '!'] <+: textOf pieces)
      (hreads : (rule dialect).Reads none pieces) : ReadsScript dialect pieces
  /-- A first line that names an interpreter is one piece. -/
  | interpreter {line : List Char} {later : List Piece} (hnames : ['#', '!'] <+: line)
      (hline : '\n' ∉ line) (hend : ∀ c ∈ (textOf later).head?, c = '\n')
      (hreads : (rule dialect).Reads none later) :
      ReadsScript dialect (⟨.interpreter, line⟩ :: later)

/-- A row of characters without a line break before a line break or the end is what is taken up to
the first line break. -/
theorem takeWhile_line {line rest : List Char} (hline : '\n' ∉ line)
    (hend : ∀ c ∈ rest.head?, c = '\n') :
    (line ++ rest).takeWhile (· != '\n') = line ∧ (line ++ rest).dropWhile (· != '\n') = rest := by
  have hall : ∀ c ∈ line, (c != '\n') = true := by
    intro c hc
    have : c ≠ '\n' := fun heq => hline (heq ▸ hc)
    simpa using this
  rw [List.takeWhile_append_of_pos hall, List.dropWhile_append_of_pos hall]
  cases rest with
  | nil => simp
  | cons c rest =>
    obtain rfl : c = '\n' := hend c rfl
    simp

/-- What is taken up to where characters of a kind end has only such characters. -/
theorem notMem_of_dropWhile {p : Char → Bool} {c : Char} {body rest : List Char} (hp : p c = false)
    (h : (body ++ rest).dropWhile p = rest) : c ∉ body := by
  have htake := List.takeWhile_append_dropWhile (p := p) (l := body ++ rest)
  rw [h, List.append_cancel_right_eq] at htake
  rw [← htake]
  intro hmem
  rw [List.mem_takeWhile_imp hmem] at hp
  cases hp

/-- A script that names no interpreter is read from its start. -/
theorem pieces_of_plain (dialect : Dialect) {source : List Char}
    (hplain : ¬ ['#', '!'] <+: source) :
    pieces dialect source = (rule dialect).piecesAfter none source := by
  unfold pieces
  split
  · exact (hplain (by simp)).elim
  · rfl

/-- A script that names an interpreter is read behind its first line. -/
theorem pieces_of_interpreter (dialect : Dialect) {source : List Char}
    (hnames : ['#', '!'] <+: source) :
    pieces dialect source =
      ((rule dialect).piecesAfter none (source.dropWhile (· != '\n'))).map
        (⟨.interpreter, source.takeWhile (· != '\n')⟩ :: ·) := by
  obtain ⟨rest, rfl⟩ := hnames
  unfold pieces
  cases (rule dialect).piecesAfter none (List.dropWhile (· != '\n') (['#', '!'] ++ rest)) <;> rfl

/-- A script is cut into exactly those pieces that make it up and are read one after the other. -/
theorem pieces_eq_ok_iff {dialect : Dialect} {source : List Char} {cut : List Piece} :
    pieces dialect source = .ok cut ↔ ReadsScript dialect cut ∧ textOf cut = source := by
  by_cases hnames : ['#', '!'] <+: source
  · rw [pieces_of_interpreter dialect hnames]
    constructor
    · intro h
      cases hlater : (rule dialect).piecesAfter none (source.dropWhile (· != '\n')) with
      | error ended => simp [hlater, Except.map] at h
      | ok later =>
        simp only [hlater, Except.map, Except.ok.injEq] at h
        subst h
        obtain ⟨hreads, htext⟩ := PieceRule.piecesAfter_eq_ok_iff.mp hlater
        refine ⟨.interpreter ?_ ?_ ?_ hreads, ?_⟩
        · obtain ⟨rest, rfl⟩ := hnames
          exact ⟨rest.takeWhile (· != '\n'), by simp⟩
        · intro hmem
          simpa using List.mem_takeWhile_imp hmem
        · have := List.head?_dropWhile_not (· != '\n') source
          rw [← htext] at this
          intro c hc
          rw [hc] at this
          simpa using this
        · rw [textOf_cons, htext, List.takeWhile_append_dropWhile]
    · rintro ⟨⟨hplain, _⟩ | ⟨_, hline, hend, hreads⟩, rfl⟩
      · exact (hplain hnames).elim
      · obtain ⟨htake, hdrop⟩ := takeWhile_line hline hend
        rw [textOf_cons, htake, hdrop, PieceRule.piecesAfter_eq_ok_iff.mpr ⟨hreads, rfl⟩]
        rfl
  · rw [pieces_of_plain dialect hnames, PieceRule.piecesAfter_eq_ok_iff]
    constructor
    · rintro ⟨hreads, rfl⟩
      exact ⟨.plain hnames hreads, rfl⟩
    · rintro ⟨⟨_, hreads⟩ | ⟨hline, _, _, _⟩, rfl⟩
      · exact ⟨hreads, rfl⟩
      · exact (hnames (hline.trans (List.prefix_append _ _))).elim

/-- No piece of a script is empty. -/
theorem ReadsScript.text_ne_nil {dialect : Dialect} {cut : List Piece}
    (h : ReadsScript dialect cut) : ∀ piece ∈ cut, piece.text ≠ [] := by
  cases h with
  | plain _ hreads => exact hreads.text_ne_nil
  | interpreter hnames _ _ hreads =>
    intro piece hpiece
    rcases List.mem_cons.mp hpiece with rfl | hpiece
    · rintro rfl
      simpa using hnames.length_le
    · exact hreads.text_ne_nil piece hpiece

/-- The pieces from one on that is no first line are read one after the other. -/
theorem ReadsScript.tail {dialect : Dialect} {pre post : List Piece} {piece : Piece}
    (h : ReadsScript dialect (pre ++ piece :: post)) (hpiece : piece.kind ≠ .interpreter) :
    ∃ before, (rule dialect).Reads before (piece :: post) := by
  generalize hcut : pre ++ piece :: post = cut at h
  cases h with
  | plain _ hreads =>
    subst hcut
    exact hreads.tail
  | interpreter _ _ _ hreads =>
    cases pre with
    | nil =>
      rw [List.nil_append, List.cons.injEq] at hcut
      exact (hpiece (by rw [hcut.1])).elim
    | cons first pre =>
      rw [List.cons_append, List.cons.injEq] at hcut
      obtain ⟨_, rfl⟩ := hcut
      exact hreads.tail

/-- A script has tokens where it is cut into pieces. -/
theorem tokens_eq_ok_iff {dialect : Dialect} {source : List Char} {found : List Token} :
    tokens dialect source = .ok found ↔
      ∃ cut, ReadsScript dialect cut ∧ textOf cut = source ∧ tokensFrom 0 1 cut = found := by
  unfold tokens
  cases hcut : pieces dialect source with
  | error ended =>
    have hnone : ¬ ∃ cut, ReadsScript dialect cut ∧ textOf cut = source := by
      rintro ⟨cut, h⟩
      rw [pieces_eq_ok_iff.mpr h] at hcut
      cases hcut
    constructor
    · intro h
      cases h
    · rintro ⟨cut, hreads, htext, _⟩
      exact (hnone ⟨cut, hreads, htext⟩).elim
  | ok cut =>
    constructor
    · intro h
      obtain ⟨hreads, htext⟩ := pieces_eq_ok_iff.mp hcut
      exact ⟨cut, hreads, htext, by simpa [Except.map] using h⟩
    · rintro ⟨other, hreads, htext, rfl⟩
      rw [pieces_eq_ok_iff.mpr ⟨hreads, htext⟩] at hcut
      cases hcut
      rfl

end CorpusFacts.Script
