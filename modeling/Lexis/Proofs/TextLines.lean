/-
# A text and its lines

A text is a list of lines, each with the line end that closes it, and a last one that the end
of the text closes (`LinesOf`).  There is one such list only (`LinesOf.unique`), since a line
goes up to the first line end and a text begins with one line end only.

Positions are counted over these lines.  A line end leads to the first column of the next
line, and before it the columns count the characters of the line, inside a line end of two
characters too (`Position.advanceOver_of_front`).  So line and column of a place are those of
its line in the list and of the place in its line (`LinesOf.advanceOver_front`).

The table of line starts counts the lines of the text, and under the number of a line it has
the line and its ends (`Source.line_of_linesOf`).  Nothing of a text is lost in the table
(`lines_partition_text`).
-/

import Lexis.Proofs.Lines

namespace Lexis

/-- A line of a text and the line end that closes it. -/
structure TextLine where
  /-- The line. -/
  content : List Char
  /-- What closes it. -/
  close : List Char

/-- The line as it stands in a text. -/
def TextLine.chars (l : TextLine) : List Char := l.content ++ l.close

/-- **The lines of a text,** each with the line end that closes it, and the last one, which
the end of the text closes. -/
inductive LinesOf : List Char → List TextLine → Prop
  /-- The last line goes up to the end of the text. -/
  | last {content} (hplain : ∀ c ∈ content, isLineEnd c = false) :
    LinesOf content [⟨content, []⟩]
  /-- Any other line goes up to a line end, and there are lines after it. -/
  | more {content close text lines} (hplain : ∀ c ∈ content, isLineEnd c = false)
      (hclose : Line.Closes close text) (hne : close ≠ []) (h : LinesOf text lines) :
    LinesOf (content ++ (close ++ text)) (⟨content, close⟩ :: lines)

/-- A place of a line is before one of its characters, or before its line end, or inside it. -/
theorem TextLine.exists_content_or {l : TextLine} {run left : List Char}
    (hl : l.chars = run ++ left) :
    (∃ c cs, l.content = run ++ c :: cs ∧ left = c :: cs ++ l.close) ∨
      l.content.length ≤ run.length ∧ ∀ c ∈ left, c ∈ l.close := by
  rcases List.append_eq_append_iff.1 hl with ⟨passed, rfl, hclose⟩ | ⟨back, hcontent, rfl⟩
  · refine Or.inr ⟨by simp, fun c hc => ?_⟩
    rw [hclose]
    exact List.mem_append_right _ hc
  · cases back with
    | nil => exact Or.inr ⟨by simp [hcontent], fun _ hc => hc⟩
    | cons c cs => exact Or.inl ⟨c, cs, hcontent, rfl⟩

/-! ### Line ends -/

namespace Line

variable {content close after : List Char}

/-- A line is closed by a line feed, by the pair, by a carriage return that stands alone, or
by the end of the text. -/
theorem Closes.cases (h : Closes close after) :
    close = ['\n'] ∨ close = ['\r', '\n'] ∨ close = ['\r'] ∧ after.head? ≠ some '\n' ∨
      close = [] ∧ after = [] := by
  cases h with
  | lineFeed => exact Or.inl rfl
  | pair => exact Or.inr (Or.inl rfl)
  | carriageReturn h => exact Or.inr (Or.inr (Or.inl ⟨rfl, h⟩))
  | endOfText => exact Or.inr (Or.inr (Or.inr ⟨rfl, rfl⟩))

/-- What closes a line is empty or begins with a line end. -/
theorem Closes.isLineEnd_head? (h : Closes close after) :
    ∀ c ∈ (close ++ after).head?, isLineEnd c = true := by
  cases h <;> simp [isLineEnd]

/-- What closes a line consists of line ends. -/
theorem Closes.isLineEnd_of_mem (h : Closes close after) {c : Char} (hc : c ∈ close) :
    isLineEnd c = true := by
  rcases h.cases with rfl | rfl | ⟨rfl, -⟩ | ⟨rfl, -⟩ <;> simp at hc
  · rw [hc]
    rfl
  · rcases hc with rfl | rfl <;> rfl
  · rw [hc]
    rfl

/-- A line end ends its line with its last character. -/
theorem Closes.endsLine_getLast? (h : Closes close after) :
    ∀ c ∈ close.getLast?, endsLine c after.head? = true := by
  cases h with
  | carriageReturn h => simp [endsLine, h]
  | _ => simp [endsLine]

/-- A line end that a place is inside of is the pair. -/
theorem Closes.eq_pair {passed left : List Char} (h : Closes (passed ++ left) after)
    (hpassed : passed ≠ []) (hleft : left ≠ []) : passed = ['\r'] ∧ left = ['\n'] := by
  obtain ⟨c, cs, rfl⟩ := List.exists_cons_of_ne_nil hpassed
  obtain ⟨d, ds, rfl⟩ := List.exists_cons_of_ne_nil hleft
  rcases h.cases with h | h | ⟨h, -⟩ | ⟨h, -⟩ <;> simp [List.append_eq_cons_iff] at h
  simp [h]

/-- The first line of a text is the longest front without a line end. -/
theorem takeWhile_of_closes (hplain : ∀ c ∈ content, isLineEnd c = false)
    (hclose : Closes close after) :
    (content ++ (close ++ after)).takeWhile (fun c => !isLineEnd c) = content := by
  have hstop : (close ++ after).takeWhile (fun c => !isLineEnd c) = [] := by
    cases hclose <;> simp [isLineEnd]
  rw [List.takeWhile_append_of_pos (by simpa using hplain), hstop, List.append_nil]

/-- A text begins with one line end only. -/
theorem Closes.unique {close' after' : List Char} (h : Closes close after)
    (h' : Closes close' after') (heq : close ++ after = close' ++ after') :
    close = close' ∧ after = after' := by
  have hclose : close = close' := by
    rcases h.cases with rfl | rfl | ⟨rfl, hnext⟩ | ⟨rfl, rfl⟩ <;>
      rcases h'.cases with rfl | rfl | ⟨rfl, hnext'⟩ | ⟨rfl, rfl⟩ <;> simp_all
    simp [← heq] at hnext'
  subst hclose
  exact ⟨rfl, List.append_cancel_left heq⟩

end Line

/-! ### Positions over lines -/

namespace Position

/-- Over characters that end no line the column grows. -/
theorem advanceOver_of_plain (p : Position) {run : List Char}
    (hplain : ∀ c ∈ run, isLineEnd c = false) (next : Option Char) :
    p.advanceOver run next = ⟨p.offset + Text.byteLength run, p.line, p.column + run.length⟩ := by
  induction run generalizing p with
  | nil => rfl
  | cons c cs ih =>
    obtain ⟨hc, hcs⟩ := List.forall_mem_cons.1 hplain
    have hends : ¬ endsLine c (cs.head?.or next) = true := by simp [Line.endsLine_of_ne hc]
    rw [advanceOver, advance, if_neg hends, ih _ hcs, Text.byteLength_cons, List.length_cons]
    simp only [Nat.add_assoc, Nat.add_comm 1]

/-- A run of characters leads to no earlier line. -/
theorem line_le_advanceOver (p : Position) (run : List Char) (next : Option Char) :
    p.line ≤ (p.advanceOver run next).line := by
  induction run generalizing p with
  | nil => exact Nat.le_refl _
  | cons c cs ih =>
    refine Nat.le_trans ?_ (ih _)
    unfold advance
    split
    · exact Nat.le_succ _
    · exact Nat.le_refl _

variable (p : Position) {content close after : List Char}

/-- Up to the line end of a line, and inside it, the line stays the same. -/
theorem advanceOver_of_front {run left : List Char}
    (hplain : ∀ c ∈ content, isLineEnd c = false) (hclose : Line.Closes close after)
    (hline : content ++ close = run ++ left) (hleft : left = [] → close = []) :
    p.advanceOver run (left ++ after).head? =
      ⟨p.offset + Text.byteLength run, p.line, p.column + run.length⟩ := by
  rcases List.append_eq_append_iff.1 hline with ⟨passed, rfl, rfl⟩ | ⟨back, rfl, -⟩
  · by_cases hpassed : passed = []
    · subst hpassed
      rw [List.append_nil]
      exact p.advanceOver_of_plain hplain _
    · have hne : left ≠ [] := fun h => hpassed (List.append_eq_nil_iff.1 (hleft h)).1
      obtain ⟨rfl, rfl⟩ := hclose.eq_pair hpassed hne
      rw [advanceOver_append, advanceOver_of_plain p hplain]
      simp [advanceOver, advance, endsLine, Nat.add_assoc]
  · exact p.advanceOver_of_plain (fun c hc => hplain c (List.mem_append_left _ hc)) _

/-- Behind the line end of a line the next one begins. -/
theorem advanceOver_of_closes (hplain : ∀ c ∈ content, isLineEnd c = false)
    (hclose : Line.Closes close after) (hne : close ≠ []) :
    p.advanceOver (content ++ close) after.head? =
      ⟨p.offset + Text.byteLength (content ++ close), p.line + 1, 1⟩ := by
  rcases List.eq_nil_or_concat close with rfl | ⟨cs, c, rfl⟩
  · exact absurd rfl hne
  · rw [List.concat_eq_append] at hclose ⊢
    have hends : endsLine c after.head? = true := hclose.endsLine_getLast? c (by simp)
    have hline : content ++ (cs ++ [c]) = (content ++ cs) ++ [c] :=
      (List.append_assoc _ _ _).symm
    have hfront := p.advanceOver_of_front hplain hclose hline (by simp)
    rw [← List.append_assoc, advanceOver_concat]
    rw [List.singleton_append, List.head?_cons] at hfront
    rw [hfront, advance, if_pos hends]
    simp [Nat.add_assoc]

end Position

/-! ### Lines -/

/-- **A line of a text** and the lines that come after it. -/
structure TextLine.StandsBefore (l : TextLine) (after : List TextLine) : Prop where
  /-- The line holds no line end. -/
  plain : ∀ c ∈ l.content, isLineEnd c = false
  /-- It is closed before the text of the lines after it. -/
  closes : Line.Closes l.close (after.flatMap TextLine.chars)
  /-- Nothing closes the last line, and no other one. -/
  isLast : l.close = [] ↔ after = []
  /-- The text of the lines after it has these lines. -/
  linesOf : after ≠ [] → LinesOf (after.flatMap TextLine.chars) after

namespace LinesOf

variable {text : List Char} {lines before after : List TextLine} {l : TextLine}

/-- Every text has lines. -/
theorem exists_linesOf (text : List Char) : ∃ lines, LinesOf text lines := by
  induction hn : text.length using Nat.strongRecOn generalizing text with
  | ind n ih =>
    obtain ⟨content, close, after, rfl, hplain, hclose⟩ := Line.exists_first text
    by_cases hne : close = []
    · obtain rfl : after = [] := by
        rcases hclose.cases with h | h | h | h <;> simp_all
      subst hne
      rw [List.append_nil, List.append_nil]
      exact ⟨_, .last hplain⟩
    · have hpos := List.length_pos_iff.2 hne
      rw [List.length_append, List.length_append] at hn
      obtain ⟨lines, h⟩ := ih after.length (by omega) after rfl
      exact ⟨_, .more hplain hclose hne h⟩

theorem ne_nil (h : LinesOf text lines) : lines ≠ [] := by
  cases h <;> simp

/-- The lines and their line ends are the text. -/
theorem flatMap_chars (h : LinesOf text lines) : lines.flatMap TextLine.chars = text := by
  induction h with
  | last => simp [TextLine.chars]
  | more _ _ _ _ ih => rw [List.flatMap_cons, ih, TextLine.chars, List.append_assoc]

theorem of_cons (h : LinesOf text (l :: after)) : l.StandsBefore after := by
  cases h with
  | last hplain => exact ⟨hplain, .endOfText, by simp, by simp⟩
  | more hplain hclose hne h =>
    have htext := h.flatMap_chars
    exact ⟨hplain, htext.symm ▸ hclose, iff_of_false hne h.ne_nil, fun _ => htext.symm ▸ h⟩

/-- All lines but one are closed by a line end. -/
theorem countP_close (h : LinesOf text lines) :
    lines.countP (fun l => l.close ≠ []) + 1 = lines.length := by
  induction lines generalizing text with
  | nil => exact absurd rfl h.ne_nil
  | cons l after ih =>
    have hl := h.of_cons
    by_cases hnil : after = []
    · simp [hnil, hl.isLast.2 hnil]
    · have hne : l.close ≠ [] := fun h => hnil (hl.isLast.1 h)
      rw [List.countP_cons_of_pos (by simpa using hne), ih (hl.linesOf hnil), List.length_cons]

/-- Behind some of its lines a text has the other lines. -/
theorem of_append (h : LinesOf text (before ++ l :: after)) :
    LinesOf ((l :: after).flatMap TextLine.chars) (l :: after) := by
  induction before generalizing text with
  | nil =>
    rw [List.nil_append] at h
    rwa [h.flatMap_chars]
  | cons b bs ih => exact ih (h.of_cons.linesOf (by simp))

/-- A line stands before the lines after it, wherever it is in the text. -/
theorem standsBefore (h : LinesOf text (before ++ l :: after)) : l.StandsBefore after :=
  h.of_append.of_cons

/-- **The lines of a text are the only ones.** -/
theorem unique {others : List TextLine} (h : LinesOf text lines) (h' : LinesOf text others) :
    lines = others := by
  induction lines generalizing text others with
  | nil => exact absurd rfl h.ne_nil
  | cons l after ih =>
    obtain ⟨l', after', rfl⟩ := List.exists_cons_of_ne_nil h'.ne_nil
    obtain ⟨hplain, hclose, hlast, htail⟩ := h.of_cons
    obtain ⟨hplain', hclose', hlast', htail'⟩ := h'.of_cons
    have htext := h.flatMap_chars.trans h'.flatMap_chars.symm
    simp only [List.flatMap_cons, TextLine.chars, List.append_assoc] at htext
    have hcontent : l.content = l'.content := by
      rw [← Line.takeWhile_of_closes hplain hclose, htext, Line.takeWhile_of_closes hplain' hclose']
    rw [hcontent] at htext
    obtain ⟨hend, hafter⟩ := hclose.unique hclose' (List.append_cancel_left htext)
    have hl : l = l' := by
      cases l
      cases l'
      simp_all
    by_cases hnil : after = []
    · rw [hnil, hlast'.1 (hend ▸ hlast.2 hnil), hl]
    · have hnil' : after' ≠ [] := fun h => hnil (hlast.1 (hend ▸ hlast'.2 h))
      rw [hl, ih (htail hnil) (hafter ▸ htail' hnil')]

/-- **Behind some lines** the position counts them, and the next line begins. -/
theorem advanceOver (h : LinesOf text (before ++ l :: after)) {p : Position} (hp : p.column = 1) :
    p.advanceOver (before.flatMap TextLine.chars) ((l :: after).flatMap TextLine.chars).head? =
      ⟨p.offset + Text.byteLength (before.flatMap TextLine.chars), p.line + before.length, 1⟩ := by
  induction before generalizing text p with
  | nil => rw [← hp]; rfl
  | cons b bs ih =>
    obtain ⟨hplain, hclose, hlast, htail⟩ := h.of_cons
    have hne : b.close ≠ [] := by simp [hlast]
    rw [List.append_eq, List.flatMap_append] at hclose
    rw [List.flatMap_cons, Position.advanceOver_append, ← List.head?_append, TextLine.chars,
      Position.advanceOver_of_closes p hplain hclose hne, ih (htail (by simp)) rfl]
    simp [Nat.add_assoc, Nat.add_comm 1]

/-- A line of a text is a line at its place. -/
theorem placed (h : LinesOf text (before ++ l :: after)) :
    Line.Placed (before.flatMap TextLine.chars) l.content l.close
      (after.flatMap TextLine.chars) := by
  refine ⟨fun c hc => ?_, h.standsBefore.plain, h.standsBefore.closes⟩
  rcases List.eq_nil_or_concat before with rfl | ⟨bs, b, rfl⟩
  · simp at hc
  · rw [List.concat_eq_append, List.append_assoc, List.singleton_append] at h
    have hb := h.standsBefore
    have hne : b.close ≠ [] := by simp [hb.isLast]
    have hlast : c ∈ b.close.getLast? := by
      obtain ⟨d, hd⟩ := Option.isSome_iff_exists.1 (List.getLast?_isSome.2 hne)
      rw [List.concat_eq_append, List.flatMap_append, List.flatMap_singleton, TextLine.chars,
        List.getLast?_append, List.getLast?_append, hd] at hc
      rw [hd]
      exact hc
    rw [← List.append_assoc, ← TextLine.chars, ← List.flatMap_cons]
    exact hb.closes.endsLine_getLast? c hlast

/-- **A place of a text is on one of its lines.** -/
theorem exists_split {front rest : List Char} (h : LinesOf (front ++ rest) lines) :
    ∃ before l after run left, lines = before ++ l :: after ∧ l.chars = run ++ left ∧
      (left = [] → after = []) ∧ front = before.flatMap TextLine.chars ++ run ∧
      rest = left ++ after.flatMap TextLine.chars := by
  induction lines generalizing front with
  | nil => exact absurd rfl h.ne_nil
  | cons l after ih =>
    have htail := h.of_cons.linesOf
    have htext : l.chars ++ after.flatMap TextLine.chars = front ++ rest := h.flatMap_chars
    -- the place is behind the first line, or some of the line is still to come
    have hplace : (∃ front', front = l.chars ++ front' ∧
        after.flatMap TextLine.chars = front' ++ rest) ∨
        ∃ left, left ≠ [] ∧ l.chars = front ++ left ∧
          rest = left ++ after.flatMap TextLine.chars := by
      rcases List.append_eq_append_iff.1 htext with hbehind | ⟨left, hl, hrest⟩
      · exact Or.inl hbehind
      · by_cases hleft : left = []
        · subst hleft
          exact Or.inl ⟨[], by simpa using hl.symm, hrest.symm⟩
        · exact Or.inr ⟨left, hleft, hl, hrest⟩
    rcases hplace with ⟨front', rfl, hrest⟩ | ⟨left, hleft, hl, rfl⟩
    · by_cases hnil : after = []
      · subst hnil
        obtain ⟨rfl, rfl⟩ := List.append_eq_nil_iff.1 hrest.symm
        exact ⟨[], l, [], l.chars, [], rfl, by simp, by simp, by simp, rfl⟩
      · obtain ⟨before, l', after', run, left, rfl, hl', hleft, rfl, rfl⟩ := ih (hrest ▸ htail hnil)
        exact ⟨l :: before, l', after', run, left, rfl, hl', hleft, by simp, rfl⟩
    · exact ⟨[], l, after, front, left, rfl, hl, fun h => absurd h hleft, rfl, rfl⟩

end LinesOf

/-- **The position of a place** counts the lines before it and the characters passed of its
own line. -/
theorem LinesOf.advanceOver_front {text run left : List Char} {before after : List TextLine}
    {l : TextLine} (h : LinesOf text (before ++ l :: after)) (hl : l.chars = run ++ left)
    (hleft : left = [] → after = []) :
    Position.start.advanceOver (before.flatMap TextLine.chars ++ run)
        (left ++ after.flatMap TextLine.chars).head? =
      ⟨Text.byteLength (before.flatMap TextLine.chars ++ run), before.length + 1,
        run.length + 1⟩ := by
  have hstands := h.standsBefore
  have hhead : run.head?.or (left ++ after.flatMap TextLine.chars).head? =
      ((l :: after).flatMap TextLine.chars).head? := by
    rw [← List.head?_append, List.flatMap_cons, hl, List.append_assoc]
  rw [Position.advanceOver_append, hhead, h.advanceOver rfl,
    Position.advanceOver_of_front _ hstands.plain hstands.closes hl fun hnil =>
      hstands.isLast.2 (hleft hnil)]
  simp [Position.start, Nat.add_comm 1]

/-! ### Lines in the table -/

namespace Source

variable {s : Source} {lines before after : List TextLine} {l : TextLine}

/-- There are as many lines as the table has entries. -/
theorem length_of_linesOf (h : LinesOf s.text lines) : lines.length = s.lineCount := by
  rcases List.eq_nil_or_concat lines with rfl | ⟨before, l, rfl⟩
  · exact absurd rfl h.ne_nil
  · rw [List.concat_eq_append] at h ⊢
    -- the position at the end of the text is on the last line
    have hend := h.advanceOver_front (List.append_nil l.chars).symm fun _ => rfl
    obtain ⟨_, _, -, -, hposition⟩ := exists_line_split s.text none
    have htext : before.flatMap TextLine.chars ++ l.chars = s.text := by
      rw [← h.flatMap_chars]
      simp
    simp only [htext, List.flatMap_nil, List.append_nil, List.head?_nil] at hend
    have hcount : s.lineCount = (0 :: Line.breaksBefore 0 s.text none).length := by
      have hbreaks := Line.breaks_append 0 s.text []
      rw [List.append_nil] at hbreaks
      rw [lineCount, lineStarts, Line.starts_eq, hbreaks]
      simp [Line.breaks]
    rw [hcount, List.length_append, List.length_singleton]
    exact congrArg Position.line (hend.symm.trans hposition)

/-- **What the table gives under the number of a line.** -/
theorem line_of_linesOf (h : LinesOf s.text (before ++ l :: after)) :
    s.line? (before.length + 1) = some l.content ∧
      s.lineRange? (before.length + 1) = some (Text.byteLength (before.flatMap TextLine.chars),
        Text.byteLength (before.flatMap TextLine.chars ++ l.chars)) := by
  have htext : s.text = before.flatMap TextLine.chars ++
      (l.content ++ (l.close ++ after.flatMap TextLine.chars)) := by
    rw [← h.flatMap_chars]
    simp [TextLine.chars]
  have hnumber : (Line.breaksBefore 0 (before.flatMap TextLine.chars)
      (l.content ++ (l.close ++ after.flatMap TextLine.chars)).head?).length = before.length := by
    obtain ⟨_, _, -, -, hposition⟩ := exists_line_split (before.flatMap TextLine.chars)
      (l.content ++ (l.close ++ after.flatMap TextLine.chars)).head?
    have hp := h.advanceOver (p := Position.start) rfl
    rw [List.flatMap_cons, TextLine.chars, List.append_assoc, hposition] at hp
    have := congrArg Position.line hp
    simpa [Position.start, Nat.add_comm 1] using this
  have hline := line?_of_placed htext h.placed
  have hrange := lineRange?_of_placed htext h.placed
  rw [hnumber] at hline hrange
  exact ⟨hline, hrange⟩

/-- The line that a number counts to, and what the table gives for it. -/
theorem line_of_getElem? {i : Nat} (h : LinesOf s.text lines) (hl : lines[i]? = some l) :
    (∀ c ∈ l.content, isLineEnd c = false) ∧ s.line? (i + 1) = some l.content ∧
      ∃ start stop, s.lineRange? (i + 1) = some (start, stop) ∧
        Text.slice? start stop s.text = some l.chars := by
  obtain ⟨hi, rfl⟩ := List.getElem?_eq_some_iff.1 hl
  have hsplit : lines = lines.take i ++ lines[i] :: lines.drop (i + 1) := by
    rw [List.getElem_cons_drop, List.take_append_drop]
  have hlength : (lines.take i).length = i := List.length_take_of_le (Nat.le_of_lt hi)
  rw [hsplit] at h
  obtain ⟨hline, hrange⟩ := line_of_linesOf h
  rw [hlength] at hline hrange
  refine ⟨h.standsBefore.plain, hline, _, _, hrange, ?_⟩
  refine Text.slice?_eq_some_iff.2 ⟨_, (lines.drop (i + 1)).flatMap TextLine.chars, ?_, rfl,
    (Text.byteLength_append _ _).symm⟩
  rw [← h.flatMap_chars]
  simp only [List.flatMap_append, List.flatMap_cons, List.append_assoc]

end Source

/-- **The table of line starts partitions the text** into lines and line ends.  There is a list
of lines, each with what closes it, such that

* one after the other they are the text; the last one is closed by nothing, and each other one
  by a line feed, by a carriage return and a line feed, or by a carriage return that no line
  feed follows;
* they are the only lines of the text in this sense;
* a number has a line in the table exactly from 1 up to the number of lines, and no line that
  the table has holds a line feed or a carriage return;
* there are as many lines as the table counts, one more than are closed by a line end;
* the table has the content of each line under its number, and there the place of the content
  and what closes it. -/
theorem lines_partition_text (s : Source) :
    ∃ lines : List TextLine,
      (lines.flatMap TextLine.chars = s.text ∧
        ∀ before l after, lines = before ++ l :: after →
          if after = [] then l.close = []
          else l.close = ['\n'] ∨ l.close = ['\r', '\n'] ∨
            l.close = ['\r'] ∧ (after.flatMap TextLine.chars).head? ≠ some '\n') ∧
      (∀ others, LinesOf s.text others ↔ others = lines) ∧
      (∀ n, (s.line? n).isSome = true ↔ 1 ≤ n ∧ n ≤ s.lineCount) ∧
      (∀ n line, s.line? n = some line → '\n' ∉ line ∧ '\r' ∉ line) ∧
      (lines.length = s.lineCount ∧ lines.countP (fun l => l.close ≠ []) + 1 = s.lineCount) ∧
      ∀ i l, lines[i]? = some l → s.line? (i + 1) = some l.content ∧
        ∃ start stop, s.lineRange? (i + 1) = some (start, stop) ∧
          Text.slice? start stop s.text = some (l.content ++ l.close) := by
  obtain ⟨lines, h⟩ := LinesOf.exists_linesOf s.text
  have hlength := Source.length_of_linesOf h
  refine ⟨lines, ⟨h.flatMap_chars, fun before l after hlines => ?_⟩,
    fun others => ⟨fun h' => h'.unique h, fun heq => heq ▸ h⟩, fun _ => Source.isSome_line?_iff,
    fun n line hline => ?_, ⟨hlength, h.countP_close.trans hlength⟩,
    fun i l hl => (Source.line_of_getElem? h hl).2⟩
  · have hl := (hlines ▸ h).standsBefore
    split
    · rename_i hnil
      exact hl.isLast.2 hnil
    · rename_i hne
      rcases hl.closes.cases with h | h | h | ⟨h, -⟩
      · exact Or.inl h
      · exact Or.inr (Or.inl h)
      · exact Or.inr (Or.inr h)
      · exact absurd (hl.isLast.1 h) hne
  · obtain ⟨hpos, hle⟩ := Source.isSome_line?_iff.1 (by rw [hline]; rfl)
    obtain ⟨i, rfl⟩ := Nat.exists_eq_add_of_le' hpos
    have hi : i < lines.length := hlength ▸ hle
    obtain ⟨hplain, hcontent, -⟩ := Source.line_of_getElem? h (List.getElem?_eq_getElem hi)
    obtain rfl : line = lines[i].content := Option.some.inj (hline.symm.trans hcontent)
    have hnone : ∀ c, isLineEnd c = true → c ∉ lines[i].content := fun c hc hmem => by
      simp [hplain c hmem] at hc
    exact ⟨hnone _ rfl, hnone _ rfl⟩

end Lexis
