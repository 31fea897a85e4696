/-
# Underlines of reports

Below the line of a report there is a row with one character for each column before the error,
and then one mark for each character of the line that the error covers (`underline_marks_error`).

How wide the underline is follows from the columns if the error ends on the line, and from the
length of the line otherwise.  Both agree with what the span covers (`Span.covered`), since an
error begins at a place inside a line and covers characters of the line, or all that is left of
the line and of the text (`LexError.CoversFrom.exists_covered`).  So there is always something to
mark, and no mark stands below a line end.
-/

import Lexis.Proofs.Extents
import Lexis.Proofs.Rendering
import Mathlib.Data.Nat.Digits.Lemmas

namespace Lexis

/-! ### Characters that spans cover -/

/-- The characters of a text that a span covers, when the text begins at the offset. -/
def Span.covered (s : Span) : Nat → List Char → List Char
  | _, [] => []
  | offset, c :: cs =>
    if s.start.offset ≤ offset ∧ offset < s.stop.offset then
      c :: s.covered (offset + c.utf8Size) cs
    else s.covered (offset + c.utf8Size) cs

namespace Span

variable {s : Span} {offset : Nat} {cs : List Char}

theorem covered_append (s : Span) (offset : Nat) (as bs : List Char) :
    s.covered offset (as ++ bs) =
      s.covered offset as ++ s.covered (offset + Text.byteLength as) bs := by
  induction as generalizing offset with
  | nil => rfl
  | cons c as ih =>
    rw [List.cons_append, covered, ih, covered, Text.byteLength_cons, ← Nat.add_assoc]
    split <;> rfl

/-- Nothing is covered before the span. -/
theorem covered_of_before (h : offset + Text.byteLength cs ≤ s.start.offset) :
    s.covered offset cs = [] := by
  induction cs generalizing offset with
  | nil => rfl
  | cons c cs ih =>
    have hpos := c.utf8Size_pos
    rw [Text.byteLength_cons] at h
    rw [covered, if_neg (by omega), ih (by omega)]

/-- Nothing is covered behind the span. -/
theorem covered_of_behind (h : s.stop.offset ≤ offset) : s.covered offset cs = [] := by
  induction cs generalizing offset with
  | nil => rfl
  | cons c cs ih => rw [covered, if_neg (by omega), ih (by omega)]

/-- All of what stands in the span is covered. -/
theorem covered_of_inside (hstart : s.start.offset ≤ offset)
    (hstop : offset + Text.byteLength cs ≤ s.stop.offset) : s.covered offset cs = cs := by
  induction cs generalizing offset with
  | nil => rfl
  | cons c cs ih =>
    have hpos := c.utf8Size_pos
    rw [Text.byteLength_cons] at hstop
    rw [covered, if_pos (by omega), ih (by omega) (by omega)]

end Span

/-! ### Rows -/

/-- Written out in decimal a positive number has as many characters as it has digits. -/
theorem length_toString_eq {n : Nat} (hn : 0 < n) :
    (toString n).length = (Nat.digits 10 n).length := by
  rw [Nat.toString_eq_repr]
  have hdigits : 0 < (Nat.digits 10 n).length :=
    List.length_pos_iff.2 (Nat.digits_ne_nil_iff_ne_zero.2 hn.ne')
  have hrepr : 0 < n.repr.length := by
    rw [← String.length_toList, Nat.toList_repr]
    exact Nat.length_toDigits_pos
  apply Nat.le_antisymm
  · rw [Nat.length_repr_le_iff hdigits, ← Nat.digits_length_le_iff (by decide)]
  · rw [Nat.digits_length_le_iff (by decide), ← Nat.length_repr_le_iff hrepr]

/-- The rows of a report in plain text, with its line and with what stands below that. -/
def Report.rows (r : Report) (line below : List Char) : List String :=
  let number := toString r.error.span.start.line
  let padding := String.ofList (List.replicate (Nat.digits 10 r.error.span.start.line).length ' ')
  [ "[error]: " ++ r.header,
    "--> " ++ r.identifier ++ ":" ++ number ++ ":" ++ toString r.error.span.start.column,
    padding ++ " |",
    number ++ " | " ++ String.ofList line,
    padding ++ " | " ++ String.ofList below ]

/-! ### The underline -/

/-- **The report of the error has its line with the characters of the error underlined.**  The
underline stands behind an indent and has a width. -/
structure Source.Underlines (s : Source) (e : LexError) (row indent : List Char) (width : Nat) :
    Prop where
  /-- The plain text is these rows, and a help text if there is one. -/
  shown : (Report.ofError s e).render? .plain = some ("\n".intercalate ((Report.ofError s e).rows
    row (indent ++ List.replicate width '^')) ++ (Report.ofError s e).excerpt.footer)
  /-- The line is the one that the error begins on. -/
  line : s.line? e.span.start.line = some row
  /-- The indent has one character for each column before the error. -/
  column : e.span.start.column = indent.length + 1
  /-- They are tabs below tabs and spaces below all other characters. -/
  tabs : List.Forall₂ (fun c d => d = if c = '\t' then '\t' else ' ')
    (row.take indent.length) indent
  /-- The underline has one mark for each character of the line that the error covers, and these
  are the characters above it. -/
  covers : ∃ start stop, s.lineRange? e.span.start.line = some (start, stop) ∧
    width = (e.span.covered start row).length ∧
      (row.drop indent.length).take width = e.span.covered start row
  /-- There are such characters. -/
  pos : 1 ≤ width
  /-- The underline does not go on behind the line. -/
  fits : indent.length + width ≤ row.length
  /-- If the error ends on the line, its columns go forward by the width. -/
  sameLine : e.span.stop.line = e.span.start.line →
    e.span.stop.column = e.span.start.column + width
  /-- Otherwise the underline goes up to the end of the line. -/
  laterLine : e.span.stop.line ≠ e.span.start.line → indent.length + width = row.length

theorem Excerpt.forall₂_underlineIndent (row : List Char) (n : Nat) :
    List.Forall₂ (fun c d => d = if c = '\t' then '\t' else ' ') (row.take n)
      (underlineIndent row n) := by
  rw [underlineIndent, List.forall₂_map_right_iff, List.forall₂_same]
  exact fun _ _ => rfl

/-- The characters of a line that stand in a span are covered by it, if the span begins at the
first of them and the line ends with the last one or the span does. -/
theorem Source.Place.covered_eq {s : Source} {p : s.Place} {span : Span} {run more : List Char}
    (hback : p.back = run ++ more) (hstart : span.start = p.position)
    (hstop : p.position.offset + Text.byteLength run ≤ span.stop.offset)
    (hmore : more = [] ∨ span.stop.offset = p.position.offset + Text.byteLength run) :
    span.covered p.lineStart p.line = run := by
  have hoffset : span.start.offset = p.lineStart + Text.byteLength p.front := by rw [hstart]; rfl
  have hbehind : span.covered (p.lineStart + Text.byteLength (p.front ++ run)) more = [] := by
    rcases hmore with rfl | hmore
    · rfl
    · apply Span.covered_of_behind
      rw [hmore, Text.byteLength_append, ← Nat.add_assoc]
      exact Nat.le_refl _
  rw [line, hback, ← List.append_assoc, Span.covered_append, hbehind, List.append_nil,
    Span.covered_append, Span.covered_of_before (Nat.le_of_eq hoffset.symm), List.nil_append,
    Span.covered_of_inside (Nat.le_of_eq hoffset) hstop]

theorem Excerpt.indent?_eq {x : Excerpt} {n : Nat} (hcolumn : x.span.start.column = n + 1) :
    x.indent? = some n := by
  rw [indent?, hcolumn, difference?_of_le (Nat.le_add_left _ _), Nat.add_sub_cancel]

/-- The rows of gutter and the line between them, in plain text. -/
theorem Excerpt.rows?_plain_eq {x : Excerpt} {row : List Char} {n width : Nat}
    (hcolumn : x.span.start.column = n + 1) (hwidth : x.underlineWidth? row = some width) :
    x.rows? .plain row = some ("\n" ++
      String.ofList (List.replicate (toString x.span.start.line).length ' ') ++ " |\n" ++
      toString x.span.start.line ++ " | " ++ String.ofList row ++ "\n" ++
      String.ofList (List.replicate (toString x.span.start.line).length ' ') ++ " | " ++
      String.ofList (underlineIndent row n) ++ String.ofList (List.replicate width '^')) := by
  rw [rows?, hwidth, Option.bind_some, indent?_eq hcolumn]
  rfl

/-- **The plain text of a report** whose underline has a width. -/
theorem Report.render?_plain_eq {r : Report} {row : List Char} {n width : Nat}
    (hline : r.line = some row) (hnumber : 0 < r.error.span.start.line)
    (hcolumn : r.error.span.start.column = n + 1)
    (hwidth : r.excerpt.underlineWidth? row = some width) :
    r.render? .plain = some ("\n".intercalate (r.rows row
      (Excerpt.underlineIndent row n ++ List.replicate width '^')) ++ r.excerpt.footer) := by
  have hrow : r.excerpt.line = some row := hline
  have hdigits : 0 < r.excerpt.span.start.line := hnumber
  have hrows := Excerpt.rows?_plain_eq hcolumn hwidth
  rw [length_toString_eq hdigits] at hrows
  rw [render?, Excerpt.draw?, hrow]
  simp only [hrows, Option.map_some, errorMessage, Ink.paint_plain, Excerpt.pointer]
  have hmark : "[error]: " = "[error]:" ++ " " := rfl
  have hpointer : "--> " = "-->" ++ " " := rfl
  have hbar : " |\n" = " |" ++ "\n" := rfl
  rw [rows, hmark, hpointer, hbar]
  simp only [String.intercalate_cons_cons, String.intercalate_singleton, String.ofList_append,
    String.append_assoc]
  rfl

/-- The width of an underline, by the columns if the span ends on its first line and otherwise
by what is left of the line. -/
theorem Excerpt.underlineWidth?_eq {x : Excerpt} {row : List Char} {n width : Nat}
    (hcolumn : x.span.start.column = n + 1) (hpos : 1 ≤ width)
    (hsame : x.span.stop.line = x.span.start.line →
      x.span.stop.column = x.span.start.column + width)
    (hlater : x.span.stop.line ≠ x.span.start.line → n + width = row.length) :
    x.underlineWidth? row = some width := by
  unfold underlineWidth?
  split
  · rename_i hline
    rw [hsame hline, difference?_of_le (Nat.le_add_right _ _), Nat.add_sub_cancel_left,
      Option.map_some, Nat.max_eq_right hpos]
  · rename_i hline
    have hleft : row.length - n = width := by
      have := hlater hline
      omega
    rw [indent?_eq hcolumn, Option.map_some, hleft, Nat.max_eq_right hpos]

/-- **The characters of its first line that an error covers:** those from its place up to the
column where it ends, or up to the end of the line. -/
theorem LexError.CoversFrom.exists_covered {s : Source} {e : LexError} {p : s.Place}
    (h : e.CoversFrom p) : ∃ run more, p.back = run ++ more ∧ run ≠ [] ∧
      e.span.covered p.lineStart p.line = run ∧
      (e.span.stop.line = e.span.start.line →
        e.span.stop.column = e.span.start.column + run.length) ∧
      (e.span.stop.line ≠ e.span.start.line → more = []) := by
  cases h with
  | @onLine run more hback hne hstart hstop =>
    have hoffset : e.span.stop.offset = p.position.offset + Text.byteLength run := by rw [hstop]
    refine ⟨run, more, hback, hne,
      Source.Place.covered_eq hback hstart (Nat.le_of_eq hoffset.symm) (Or.inr hoffset),
      fun _ => by rw [hstop, hstart], fun hline => ?_⟩
    rw [hstop, hstart] at hline
    exact absurd rfl hline
  | toEnd hstart hstop hline _ =>
    have hback : p.back = p.back ++ [] := (List.append_nil _).symm
    refine ⟨p.back, [], hback, p.inside,
      Source.Place.covered_eq hback hstart ?_ (Or.inl rfl), fun hsame => ?_, fun _ => rfl⟩
    · rw [hstop, Source.Place.rest, Text.byteLength_append]
      omega
    · rw [hsame, hstart] at hline
      exact absurd hline (Nat.lt_irrefl _)

/-- **The underline of a report marks the error.**  The report of an error against its own unit
is shown with the line that the error begins on.  The rows of gutter above and below the line are
as wide as its number, and the row below it has one character for each column before the error, a
tab below a tab and a space below any other character, and then one mark for each character of
the line that the error covers.  There is a mark, and none stands behind the end of the line. -/
theorem underline_marks_error {s : Source} {e : LexError} (he : e ∈ s.errors) :
    ∃ row indent width, s.Underlines e row indent width := by
  obtain ⟨p, hcovers⟩ := Source.exists_coversFrom_of_mem_errors he
  obtain ⟨run, more, hback, hne, hcovered, hsame, hlater⟩ := hcovers.exists_covered
  obtain ⟨hline, hrange⟩ := p.line?_eq
  have hcolumn : e.span.start.column = p.front.length + 1 := by rw [hcovers.start]; rfl
  have hnumber : 0 < e.span.start.line := by
    rw [hcovers.start]
    exact Nat.succ_pos _
  rw [← hcovers.start] at hline hrange
  have hlength : p.line.length = p.front.length + (run.length + more.length) := by
    rw [Source.Place.line, hback, List.length_append, List.length_append]
  have hmarked : (p.line.drop p.front.length).take run.length = run := by
    rw [Source.Place.line, List.drop_left, hback, List.take_left]
  have hindent : (Excerpt.underlineIndent p.line p.front.length).length = p.front.length := by
    rw [Excerpt.underlineIndent, List.length_map, List.length_take]
    omega
  have hpos : 1 ≤ run.length := List.length_pos_iff.2 hne
  have hrest : e.span.stop.line ≠ e.span.start.line →
      p.front.length + run.length = p.line.length := fun h => by
    rw [hlength, hlater h, List.length_nil, Nat.add_zero]
  have hwidth : (Report.ofError s e).excerpt.underlineWidth? p.line = some run.length :=
    Excerpt.underlineWidth?_eq hcolumn hpos hsame hrest
  exact ⟨p.line, _, run.length, {
    shown := Report.render?_plain_eq hline hnumber hcolumn hwidth
    line := hline
    column := hindent.symm ▸ hcolumn
    tabs := hindent.symm ▸ Excerpt.forall₂_underlineIndent _ _
    covers := ⟨_, _, hrange, by rw [hcovered], by rw [hindent, hcovered, hmarked]⟩
    pos := hpos
    fits := by rw [hindent, hlength]; omega
    sameLine := hsame
    laterLine := hindent.symm ▸ hrest }⟩

/-- Of a comment that is left open the rest of its first line is marked, below a tab and a letter
of two bytes. -/
theorem underline_marks_error_comment :
    ∃ e ∈ (Source.ofString "a" "\té /*b\r\nc").errors,
      (Report.ofError (Source.ofString "a" "\té /*b\r\nc") e).render? .plain = some
        "[error]: unterminated block comment\n--> a:1:4\n  |\n1 | \té /*b\n  | \t  ^^^" ∧
      ∃ row indent width,
        (Source.ofString "a" "\té /*b\r\nc").Underlines e row indent width := by
  have he : ⟨.unterminatedBlockComment, ⟨⟨4, 1, 4⟩, ⟨10, 2, 2⟩, by decide⟩, none⟩ ∈
      (Source.ofString "a" "\té /*b\r\nc").errors := by
    decide +kernel
  exact ⟨_, he, by decide +kernel, underline_marks_error he⟩

end Lexis
