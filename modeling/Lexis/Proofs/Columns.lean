/-
# Line and column tell a place

Every character leads to a later line or to a later column of the same line, so places are in
the order of their lines and columns (`Position.before_advanceOver`), and no two places have
the same.  The order of positions, and of spans that do not share a character, is the order in
the text (`Source.compare_of_locates`).

Every place of a text is inside a line (`Source.Place`) or at a line end, where the end of the
text counts as one (`Source.exists_place_or`).  The line of a position is found under its number,
and inside the line the column leads to the character at the place
(`Source.exists_line_of_positionAt`).
-/

import Lexis.Proofs.TextLines
import Lexis.Proofs.Tiling

namespace Lexis

/-! ### The order of places -/

namespace Position

/-- The place `p` is on an earlier line than `q`, or on the same line at a smaller column. -/
def Before (p q : Position) : Prop :=
  p.line < q.line ∨ p.line = q.line ∧ p.column < q.column

variable {p q : Position}

theorem Before.trans {r : Position} (hpq : p.Before q) (hqr : q.Before r) : p.Before r := by
  unfold Before at *
  omega

theorem Before.irrefl (p : Position) : ¬ p.Before p := by
  unfold Before
  omega

/-- Every character leads to a later place. -/
theorem before_advance (p : Position) (c : Char) (next : Option Char) :
    p.Before (p.advance c next) := by
  unfold advance
  split
  · exact Or.inl (Nat.lt_succ_self _)
  · exact Or.inr ⟨rfl, Nat.lt_succ_self _⟩

/-- **A run of characters leads to a later place.** -/
theorem before_advanceOver (p : Position) {run : List Char} (hne : run ≠ [])
    (next : Option Char) : p.Before (p.advanceOver run next) := by
  induction run generalizing p with
  | nil => exact absurd rfl hne
  | cons c cs ih =>
    have hstep := p.before_advance c (cs.head?.or next)
    by_cases hcs : cs = []
    · subst hcs
      exact hstep
    · exact hstep.trans (ih _ hcs)

end Position

namespace Source

variable {s : Source} {a b : Nat} {p q : Position}

/-- A position that the table gives is that of the end of a front of the text. -/
theorem eq_advanceOver_of_positionAt (h : s.positionAt a = .ok p) :
    ∃ front rest, s.text = front ++ rest ∧ Text.byteLength front = a ∧
      p = Position.start.advanceOver front rest.head? := by
  obtain ⟨front, rest, htext, rfl⟩ := exists_front_of_positionAt h
  rw [positionAt_byteLength htext] at h
  exact ⟨front, rest, htext, rfl, (Except.ok.inj h).symm⟩

theorem offset_of_positionAt (h : s.positionAt a = .ok p) : p.offset = a := by
  obtain ⟨front, rest, -, rfl, rfl⟩ := eq_advanceOver_of_positionAt h
  rw [Position.offset_advanceOver]
  exact Nat.zero_add _

/-- **The later offset has the later line and column.** -/
theorem before_of_lt (hp : s.positionAt a = .ok p) (hq : s.positionAt b = .ok q) (h : a < b) :
    p.Before q := by
  obtain ⟨front, rest, htext, rfl, rfl⟩ := eq_advanceOver_of_positionAt hp
  obtain ⟨front', rest', htext', rfl, rfl⟩ := eq_advanceOver_of_positionAt hq
  rcases List.append_eq_append_iff.1 (htext.symm.trans htext') with
    ⟨run, rfl, rfl⟩ | ⟨run, rfl, -⟩
  · have hne : run ≠ [] := by
      rintro rfl
      simp at h
    rw [Position.advanceOver_append, ← List.head?_append]
    exact Position.before_advanceOver _ hne _
  · rw [Text.byteLength_append] at h
    omega

theorem before_iff_lt (hp : s.positionAt a = .ok p) (hq : s.positionAt b = .ok q) :
    p.Before q ↔ a < b := by
  refine ⟨fun h => ?_, before_of_lt hp hq⟩
  rcases Nat.lt_trichotomy a b with hab | rfl | hba
  · exact hab
  · obtain rfl := Except.ok.inj (hp.symm.trans hq)
    exact absurd h (Position.Before.irrefl p)
  · exact absurd (h.trans (before_of_lt hq hp hba)) (Position.Before.irrefl p)

/-- Positions are ordered as their offsets are. -/
theorem compare_of_positionAt (hp : s.positionAt a = .ok p) (hq : s.positionAt b = .ok q) :
    compare p q = compare a b := by
  obtain rfl := offset_of_positionAt hp
  obtain rfl := offset_of_positionAt hq
  show (compare p.offset q.offset).then _ = _
  rcases Nat.lt_trichotomy p.offset q.offset with h | h | h
  · rw [Nat.compare_eq_lt.2 h]
    rfl
  · obtain rfl := Except.ok.inj (hp.symm.trans (h ▸ hq))
    simp
  · rw [Nat.compare_eq_gt.2 h]
    rfl

/-- Spans of which one ends before the other begins are ordered as they stand in the text. -/
theorem compare_of_locates {S T : Span} (hS : s.Locates S) (hT : s.Locates T)
    (hne : S.isEmpty = false) (hne' : T.isEmpty = false)
    (h : S.stop.offset ≤ T.start.offset ∨ T.stop.offset ≤ S.start.offset) :
    compare S T = if S.stop.offset ≤ T.start.offset then .lt else .gt := by
  have hlt := Span.isEmpty_eq_false_iff.1 hne
  have hlt' := Span.isEmpty_eq_false_iff.1 hne'
  show (compare S.start T.start).then _ = _
  rw [compare_of_positionAt hS.1 hT.1]
  split
  · rw [Nat.compare_eq_lt.2 (by omega)]
    rfl
  · rw [Nat.compare_eq_gt.2 (by omega)]
    rfl

/-! ### The character at a place -/

/-- The character at the end of a front of the text. -/
theorem charAt_byteLength {front rest : List Char} {c : Char} (h : s.text = front ++ c :: rest) :
    s.charAt (Text.byteLength front) = .ok c := by
  have hsize : ¬ s.size ≤ Text.byteLength front := by
    have := c.utf8Size_pos
    rw [size, h, Text.byteLength_append, Text.byteLength_cons]
    omega
  rw [charAt, if_neg hsize, h, Text.dropBytes?_byteLength_append]

/-- A line that characters are left of begins at its first column. -/
theorem positionAt_lineStart {before after : List TextLine} {l : TextLine}
    (h : LinesOf s.text (before ++ l :: after)) :
    s.positionAt (Text.byteLength (before.flatMap TextLine.chars)) =
      .ok ⟨Text.byteLength (before.flatMap TextLine.chars), before.length + 1, 1⟩ := by
  have hsplit : l.chars = [] ++ l.chars := rfl
  have hstart := h.advanceOver_front hsplit fun hnil =>
    h.standsBefore.isLast.1 (List.append_eq_nil_iff.1 hnil).2
  have htext : s.text = before.flatMap TextLine.chars ++
      (l.chars ++ after.flatMap TextLine.chars) := by
    rw [← h.flatMap_chars]
    simp
  rw [List.append_nil] at hstart
  rw [positionAt_byteLength htext, hstart]
  rfl

end Source

/-! ### Places inside lines -/

/-- **A place inside a line of a unit,** before one of its characters. -/
structure Source.Place (s : Source) where
  /-- The lines before. -/
  before : List TextLine
  /-- What the line has before the place. -/
  front : List Char
  /-- What the line has from the place on. -/
  back : List Char
  /-- What closes the line. -/
  close : List Char
  /-- The lines after it. -/
  after : List TextLine
  /-- These are the lines of the unit. -/
  lines : LinesOf s.text (before ++ ⟨front ++ back, close⟩ :: after)
  /-- The place is before a character of the line. -/
  inside : back ≠ []

namespace Source.Place

variable {s : Source} (p : s.Place)

/-- The line. -/
def line : List Char := p.front ++ p.back

/-- The offset at which the line begins. -/
def lineStart : Nat := Text.byteLength (p.before.flatMap TextLine.chars)

/-- The position of the place. -/
def position : Position :=
  ⟨p.lineStart + Text.byteLength p.front, p.before.length + 1, p.front.length + 1⟩

/-- The text after the line and its line end. -/
def below : List Char := p.after.flatMap TextLine.chars

/-- The text from the place on. -/
def rest : List Char := p.back ++ (p.close ++ p.below)

/-- The line ends no line itself. -/
theorem plain : ∀ c ∈ p.line, isLineEnd c = false := p.lines.standsBefore.plain

theorem closes : Line.Closes p.close p.below := p.lines.standsBefore.closes

/-- **The table has the line** under its number, and the ends of it and of its line end. -/
theorem line?_eq : s.line? p.position.line = some p.line ∧
    s.lineRange? p.position.line = some (p.lineStart,
      p.lineStart + Text.byteLength (p.line ++ p.close)) := by
  have h := line_of_linesOf p.lines
  rwa [Text.byteLength_append] at h

/-- The unit has the text before the place and the text from it on. -/
theorem text_eq : s.text = p.before.flatMap TextLine.chars ++ p.front ++ p.rest := by
  rw [← p.lines.flatMap_chars]
  simp [TextLine.chars, rest, below]

theorem offset_eq :
    p.position.offset = Text.byteLength (p.before.flatMap TextLine.chars ++ p.front) :=
  (Text.byteLength_append _ _).symm

theorem charAt_eq {c : Char} {cs : List Char} (h : p.back = c :: cs) :
    s.charAt p.position.offset = .ok c := by
  have htext := p.text_eq
  rw [rest, h, List.cons_append] at htext
  rw [p.offset_eq, charAt_byteLength htext]

end Source.Place

namespace Source

variable {s : Source} {a : Nat} {p : Position}

/-- **Every place of a text** is inside a line or at a line end, and the table has its line. -/
theorem exists_place_or {front rest : List Char} (htext : s.text = front ++ rest) :
    (∃ p : s.Place, Position.start.advanceOver front rest.head? = p.position ∧ rest = p.rest) ∨
      (∀ c ∈ rest.head?, isLineEnd c = true) ∧
        ∃ row, s.line? (Position.start.advanceOver front rest.head?).line = some row ∧
          row.length < (Position.start.advanceOver front rest.head?).column := by
  obtain ⟨lines, h⟩ := LinesOf.exists_linesOf s.text
  obtain ⟨before, l, after, run, left, rfl, hl, hleft, rfl, rfl⟩ := (htext ▸ h).exists_split
  rw [h.advanceOver_front hl hleft]
  rcases TextLine.exists_content_or hl with ⟨c, cs, hcontent, rfl⟩ | ⟨hle, hclose⟩
  · obtain ⟨content, close⟩ := l
    obtain rfl : content = run ++ c :: cs := hcontent
    refine Or.inl ⟨⟨before, run, c :: cs, close, after, h, by simp⟩, ?_, ?_⟩
    · simp [Place.position, Place.lineStart]
    · simp [Place.rest, Place.below]
  · refine Or.inr ⟨fun c hc => ?_, l.content, (line_of_linesOf h).1, Nat.lt_succ_of_le hle⟩
    cases left with
    | nil => simp [hleft rfl] at hc
    | cons d ds =>
      obtain rfl : d = c := Option.some.inj hc
      exact h.standsBefore.closes.isLineEnd_of_mem (hclose d List.mem_cons_self)

/-- **Column and line of a position lead to its character.** -/
theorem exists_line_of_positionAt (hp : s.positionAt a = .ok p) :
    1 ≤ p.column ∧ ∃ row, s.line? p.line = some row ∧
      if p.column ≤ row.length then
        (∃ c, row[p.column - 1]? = some c ∧ s.charAt a = .ok c) ∧
          ∃ start, start + Text.byteLength (row.take (p.column - 1)) = a ∧
            s.positionAt start = .ok ⟨start, p.line, 1⟩
      else a = s.size ∨ s.charAt a = .ok '\n' ∨ s.charAt a = .ok '\r' := by
  obtain ⟨front, rest, htext, rfl, rfl⟩ := eq_advanceOver_of_positionAt hp
  rcases exists_place_or htext with ⟨q, hq, -⟩ | ⟨hends, row, hrow, hcolumn⟩
  · have hoffset : q.position.offset = Text.byteLength front := by
      rw [← hq]
      exact offset_of_positionAt hp
    obtain ⟨c, cs, hback⟩ := List.exists_cons_of_ne_nil q.inside
    rw [hq]
    refine ⟨Nat.le_add_left _ _, q.line, q.line?_eq.1, ?_⟩
    have hle : q.position.column ≤ q.line.length := by
      simp [Place.position, Place.line, hback]
    rw [if_pos hle, ← hoffset]
    refine ⟨⟨c, by simp [Place.position, Place.line, hback], q.charAt_eq hback⟩, q.lineStart, ?_,
      positionAt_lineStart q.lines⟩
    simp [Place.position, Place.line]
  · refine ⟨Nat.lt_of_le_of_lt (Nat.zero_le _) hcolumn, row, hrow, ?_⟩
    rw [if_neg (Nat.not_le_of_gt hcolumn)]
    cases rest with
    | nil =>
      refine Or.inl ?_
      rw [size, htext, List.append_nil]
    | cons c cs =>
      rw [charAt_byteLength htext]
      rcases isLineEnd_iff.1 (hends c rfl) with rfl | rfl
      · exact Or.inr (Or.inl rfl)
      · exact Or.inr (Or.inr rfl)

end Source

/-- **Line and column tell an offset, in source order,** and they lead to the character there.

* The offsets that have a position are those of the boundaries of the text, its end included.
* Of two of them the smaller one has the smaller line, or the same line and the smaller column;
  positions compare as their offsets do, and line and column alone tell the offset.
* Of two spans of the text that are not empty and have no character in common, the one that
  stands first is the smaller one.
* The line of a position is in the table.  If it has a character in the column, that is the
  character at the offset, and the bytes of those before it lead back to the first column;
  otherwise the offset is at a line end or at the end of the text. -/
theorem positions_in_source_order (s : Source) :
    (∀ a, (∃ p, s.positionAt a = .ok p) ↔
      ∃ front rest, s.text = front ++ rest ∧ Text.byteLength front = a) ∧
      (∀ a b p q, s.positionAt a = .ok p → s.positionAt b = .ok q →
        (a < b ↔ p.Before q) ∧ compare p q = compare a b ∧
          (p.line = q.line → p.column = q.column → a = b)) ∧
      (∀ S T : Span, s.Locates S → s.Locates T → S.isEmpty = false → T.isEmpty = false →
        S.stop.offset ≤ T.start.offset ∨ T.stop.offset ≤ S.start.offset →
          compare S T = if S.stop.offset ≤ T.start.offset then .lt else .gt) ∧
      ∀ a p, s.positionAt a = .ok p → 1 ≤ p.column ∧ ∃ row, s.line? p.line = some row ∧
        if p.column ≤ row.length then
          (∃ c, row[p.column - 1]? = some c ∧ s.charAt a = .ok c) ∧
            ∃ start, start + Text.byteLength (row.take (p.column - 1)) = a ∧
              s.positionAt start = .ok ⟨start, p.line, 1⟩
        else a = s.size ∨ s.charAt a = .ok '\n' ∨ s.charAt a = .ok '\r' := by
  refine ⟨fun a => ⟨?_, ?_⟩, fun a b p q hp hq => ⟨(Source.before_iff_lt hp hq).symm,
    Source.compare_of_positionAt hp hq, fun hline hcolumn => ?_⟩,
    fun _ _ => Source.compare_of_locates, fun _ _ => Source.exists_line_of_positionAt⟩
  · rintro ⟨p, hp⟩
    exact Source.exists_front_of_positionAt hp
  · rintro ⟨front, rest, htext, rfl⟩
    exact ⟨_, Source.positionAt_byteLength htext⟩
  · -- of two different offsets one is before the other
    have hnot : ¬ p.Before q ∧ ¬ q.Before p := by
      unfold Position.Before
      omega
    rw [Source.before_iff_lt hp hq, Source.before_iff_lt hq hp] at hnot
    omega

end Lexis
