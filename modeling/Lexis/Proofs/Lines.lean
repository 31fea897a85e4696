/-
# The lines of a text

A line of a text begins at the start of the text or after a line end, holds no line end,
and goes up to the next one or to the end of the text (`Line.Placed`).

The table of line starts has the start of each line under the number of line ends before
it, and then the start of the line after it.  So the text between two entries is the line
and its line end, and looking a line up by number gives the line
(`Source.line?_of_placed`).  Every entry of the table is the start of such a line, so a
line is found under each number that the table has, and under no other
(`Source.isSome_line?_iff`).
-/

import Lexis.Proofs.Positions

namespace Lexis

namespace Line

/-- The ways in which a line ends before the rest of a text. -/
inductive Closes : List Char → List Char → Prop
  /-- With a line feed. -/
  | lineFeed {after} : Closes ['\n'] after
  /-- With a carriage return and a line feed. -/
  | pair {after} : Closes ['\r', '\n'] after
  /-- With a carriage return that stands alone. -/
  | carriageReturn {after} (h : after.head? ≠ some '\n') : Closes ['\r'] after
  /-- With the text. -/
  | endOfText : Closes [] []

/-- **A line of a text,** with what stands before it, the line end that closes it, and
what comes after that. -/
structure Placed (before line close after : List Char) : Prop where
  /-- What stands before ends a line. -/
  begun : ∀ c ∈ before.getLast?, endsLine c (line ++ (close ++ after)).head? = true
  /-- The line holds no line end. -/
  plain : ∀ c ∈ line, isLineEnd c = false
  /-- It goes up to a line end or the end of the text. -/
  closed : Closes close after

theorem endsLine_of_ne {c : Char} (h : isLineEnd c = false) (next : Option Char) :
    endsLine c next = false := by
  rw [← Bool.not_eq_true, isLineEnd_iff, not_or] at h
  simp [endsLine, h]

/-- Every text is a line, a line end and the rest. -/
theorem exists_first (text : List Char) : ∃ line close after, text = line ++ (close ++ after) ∧
    (∀ c ∈ line, isLineEnd c = false) ∧ Closes close after := by
  induction text with
  | nil => exact ⟨[], [], [], rfl, by simp, .endOfText⟩
  | cons c cs ih =>
    by_cases hc : isLineEnd c = true
    · rcases isLineEnd_iff.1 hc with rfl | rfl
      · exact ⟨[], ['\n'], cs, rfl, by simp, .lineFeed⟩
      · by_cases hnext : cs.head? = some '\n'
        · obtain ⟨ds, rfl⟩ := List.head?_eq_some_iff.1 hnext
          exact ⟨[], ['\r', '\n'], ds, rfl, by simp, .pair⟩
        · exact ⟨[], ['\r'], cs, rfl, by simp, .carriageReturn hnext⟩
    · obtain ⟨line, close, after, rfl, hplain, hclose⟩ := ih
      exact ⟨c :: line, close, after, rfl,
        List.forall_mem_cons.2 ⟨by simpa using hc, hplain⟩, hclose⟩

/-! ### Lines and the table of line starts -/

/-- What holds no line end begins no line. -/
theorem breaksBefore_of_plain {line : List Char} (h : ∀ c ∈ line, isLineEnd c = false)
    (offset : Nat) (next : Option Char) : breaksBefore offset line next = [] := by
  induction line generalizing offset with
  | nil => rfl
  | cons c cs ih =>
    obtain ⟨hc, hcs⟩ := List.forall_mem_cons.1 h
    rw [breaksBefore, endsLine_of_ne hc, ih hcs]
    rfl

/-- The first line begun after a line is the one after its line end. -/
theorem head?_breaks {line close after : List Char} (hplain : ∀ c ∈ line, isLineEnd c = false)
    (hclose : Closes close after) (offset : Nat) :
    (breaks offset (line ++ (close ++ after))).head? = if close = [] then none
      else some (offset + Text.byteLength (line ++ close)) := by
  rw [breaks_append, breaksBefore_of_plain hplain, List.nil_append, Text.byteLength_append]
  cases hclose with
  | carriageReturn h => simp [breaks, endsLine, h, Nat.add_assoc]
  | pair => simp [breaks, endsLine, Nat.add_assoc]
  | lineFeed => simp [breaks, endsLine, Nat.add_assoc]
  | endOfText => rfl

/-- Every line begun after the first one begins behind a line end, and the lines begun
before are counted by the table. -/
theorem exists_split_of_getElem?_breaks {offset i start : Nat} {text : List Char}
    (h : (breaks offset text)[i]? = some start) :
    ∃ before rest, text = before ++ rest ∧ before ≠ [] ∧
      (∀ c ∈ before.getLast?, endsLine c rest.head? = true) ∧
      (breaksBefore offset before rest.head?).length = i + 1 := by
  induction text generalizing offset i with
  | nil => simp [breaks] at h
  | cons c cs ih =>
    rw [breaks] at h
    by_cases hc : endsLine c cs.head? = true
    · rw [if_pos hc] at h
      cases i with
      | zero =>
        refine ⟨[c], cs, rfl, by simp, by simpa using hc, ?_⟩
        simp [breaksBefore, hc]
      | succ i =>
        obtain ⟨before, rest, rfl, hne, hends, hlength⟩ := ih (by simpa using h)
        refine ⟨c :: before, rest, rfl, by simp, ?_, ?_⟩
        · rw [List.getLast?_cons_of_ne_nil hne]
          exact hends
        · rw [List.head?_append] at hc
          rw [breaksBefore, if_pos hc, List.length_append, hlength, List.length_singleton,
            Nat.add_comm]
    · rw [if_neg hc] at h
      obtain ⟨before, rest, rfl, hne, hends, hlength⟩ := ih h
      refine ⟨c :: before, rest, rfl, by simp, ?_, ?_⟩
      · rw [List.getLast?_cons_of_ne_nil hne]
        exact hends
      · rw [List.head?_append] at hc
        rw [breaksBefore, if_neg hc, List.nil_append, hlength]

/-- Trimming takes away the line end that closes a line, and no more. -/
theorem trimEnds_append {line close after : List Char} (hplain : ∀ c ∈ line, isLineEnd c = false)
    (hclose : Closes close after) : trimEnds (line ++ close) = line := by
  have hends : ∀ c ∈ close.reverse, isLineEnd c = true := by
    cases hclose <;> simp [isLineEnd]
  have hline : line.reverse.dropWhile isLineEnd = line.reverse := by
    cases hr : line.reverse with
    | nil => rfl
    | cons c cs =>
      have hc : isLineEnd c = false := hplain c (by
        rw [← List.mem_reverse, hr]
        exact List.mem_cons_self)
      rw [List.dropWhile_cons_of_neg (by simp [hc])]
  rw [trimEnds, List.reverse_append, List.dropWhile_append_of_pos hends, hline,
    List.reverse_reverse]

end Line

namespace Source

open Line

variable {s : Source} {before line close after : List Char}

/-- The start of a line stands in the table under the number of the lines before it. -/
theorem getElem?_lineStarts {rest : List Char} (htext : s.text = before ++ rest)
    (hbegun : ∀ c ∈ before.getLast?, endsLine c rest.head? = true) :
    s.lineStarts[(breaksBefore 0 before rest.head?).length]? =
      some (Text.byteLength before) := by
  rw [lineStarts, htext, starts_eq, breaks_append]
  rcases List.eq_nil_or_concat before with rfl | ⟨cs, c, rfl⟩
  · rfl
  · have hc : endsLine c rest.head? = true := hbegun c (by simp)
    rw [List.concat_eq_append, breaksBefore_concat, if_pos hc]
    simp

/-- **Where a line begins and where the next one does,** by the table. -/
theorem lineRange?_of_placed (htext : s.text = before ++ (line ++ (close ++ after)))
    (h : Placed before line close after) :
    s.lineRange? ((breaksBefore 0 before (line ++ (close ++ after)).head?).length + 1) =
      some (Text.byteLength before, Text.byteLength (before ++ (line ++ close))) := by
  have hnext : s.lineStarts[(breaksBefore 0 before (line ++ (close ++ after)).head?).length + 1]? =
      if close = [] then none else some (Text.byteLength (before ++ (line ++ close))) := by
    rw [lineStarts, htext, starts_eq, breaks_append, List.getElem?_cons_succ,
      List.getElem?_append_right (Nat.le_refl _), Nat.sub_self, ← List.head?_eq_getElem?,
      Nat.zero_add, head?_breaks h.plain h.closed, ← Text.byteLength_append]
  rw [lineRange?, getElem?_lineStarts htext h.begun]
  simp only [hnext]
  split
  · rename_i hclose
    subst hclose
    obtain rfl : after = [] := by
      have hclosed := h.closed
      generalize hx : ([] : List Char) = x at hclosed
      cases hclosed with
      | endOfText => rfl
      | _ => simp at hx
    simp [size, htext]
  · rfl

/-- A line can be cut out of the text together with its end. -/
theorem slice?_of_text_eq (htext : s.text = before ++ (line ++ (close ++ after))) :
    Text.slice? (Text.byteLength before) (Text.byteLength (before ++ (line ++ close))) s.text =
      some (line ++ close) :=
  Text.slice?_eq_some_iff.2 ⟨before, after, by simp [htext], rfl,
    (Text.byteLength_append _ _).symm⟩

/-- **A line is found under its number.** -/
theorem line?_of_placed (htext : s.text = before ++ (line ++ (close ++ after)))
    (h : Placed before line close after) :
    s.line? ((breaksBefore 0 before (line ++ (close ++ after)).head?).length + 1) =
      some line := by
  rw [line?, lineRange?_of_placed htext h]
  show (Text.slice? _ _ s.text).map Line.trimEnds = some line
  rw [slice?_of_text_eq htext, Option.map_some, trimEnds_append h.plain h.closed]

/-- **Every number in the table is that of a line.** -/
theorem exists_placed_of_le {n : Nat} (hpos : 1 ≤ n) (hle : n ≤ s.lineCount) :
    ∃ before line close after, s.text = before ++ (line ++ (close ++ after)) ∧
      Placed before line close after ∧
      (breaksBefore 0 before (line ++ (close ++ after)).head?).length + 1 = n := by
  obtain ⟨i, rfl⟩ := Nat.exists_eq_add_of_le' hpos
  have hsplit : ∃ before rest, s.text = before ++ rest ∧
      (∀ c ∈ before.getLast?, endsLine c rest.head? = true) ∧
      (breaksBefore 0 before rest.head?).length = i := by
    cases i with
    | zero => exact ⟨[], s.text, rfl, by simp, rfl⟩
    | succ i =>
      have hi : i < (breaks 0 s.text).length := by
        rw [lineCount, lineStarts, length_starts] at hle
        omega
      obtain ⟨before, rest, htext, -, hbegun, hlength⟩ :=
        exists_split_of_getElem?_breaks (List.getElem?_eq_getElem hi)
      exact ⟨before, rest, htext, hbegun, hlength⟩
  obtain ⟨before, rest, htext, hbegun, hlength⟩ := hsplit
  obtain ⟨line, close, after, rfl, hplain, hclose⟩ := exists_first rest
  exact ⟨before, line, close, after, htext, ⟨hbegun, hplain, hclose⟩, by rw [hlength]⟩

/-- The table has the ends of the lines that are counted. -/
theorem isSome_lineRange?_iff {n : Nat} :
    (s.lineRange? n).isSome = true ↔ 1 ≤ n ∧ n ≤ s.lineCount := by
  cases n with
  | zero => simp [lineRange?]
  | succ i =>
    rw [lineRange?, lineCount]
    cases hi : s.lineStarts[i]? with
    | none =>
      have hle := List.getElem?_eq_none_iff.1 hi
      refine iff_of_false (by simp) ?_
      omega
    | some start =>
      obtain ⟨hlt, -⟩ := List.getElem?_eq_some_iff.1 hi
      exact iff_of_true rfl ⟨Nat.le_add_left 1 i, hlt⟩

/-- **A line is found under the numbers of the table and under no other.** -/
theorem isSome_line?_iff {n : Nat} : (s.line? n).isSome = true ↔ 1 ≤ n ∧ n ≤ s.lineCount := by
  constructor
  · intro h
    obtain ⟨line, hline⟩ := Option.isSome_iff_exists.1 h
    obtain ⟨range, hrange, -⟩ := Option.bind_eq_some_iff.1 hline
    exact isSome_lineRange?_iff.1 (by rw [hrange]; rfl)
  · rintro ⟨hpos, hle⟩
    obtain ⟨before, line, close, after, htext, hplaced, rfl⟩ := exists_placed_of_le hpos hle
    rw [line?_of_placed htext hplaced]
    rfl

end Source

end Lexis
