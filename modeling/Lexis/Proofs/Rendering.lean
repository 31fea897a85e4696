/-
# Scanning and rendering never fail

A scan cuts its text at the offsets of positions, and a report cuts a line at the columns
of an error and subtracts its numbers from each other.  Each of these steps can fail: a cut
at an offset that is no boundary of the text, and a subtraction of the greater number.

The cuts of a scan are made by a machine, which has no answer where one of them fails; it
answers as the scan does (`Machine.run_nexts`).

Over a run of characters lines and columns go forward (`Reader.isForward_spanOver`).  An
error covers some characters of its lexeme, so its span goes forward too, and this is all
that showing a report needs of it (`Report.succeeds_of_isForward`): the unit it is shown
against and the line found there have no part in it.
-/

import Lexis.Proofs.Detection
import Lexis.Proofs.Lines
import Lexis.Proofs.Machine.Request
import Lexis.Proofs.Resumption

namespace Lexis

/-! ### Lines and columns go forward -/

/-- The place `q` is on a later line than `p`, or on the same line and not at a smaller
column. -/
def Position.UpTo (p q : Position) : Prop :=
  p.line < q.line ∨ p.line = q.line ∧ p.column ≤ q.column

theorem Position.UpTo.advance {p q : Position} (h : p.UpTo q) (c : Char)
    (next : Option Char) : p.UpTo (q.advance c next) := by
  simp only [UpTo, Position.advance] at h ⊢
  split
  · simp only
    omega
  · simp only
    omega

/-- The lines and columns of the span are counted from one and go forward. -/
structure Span.IsForward (s : Span) : Prop where
  /-- They are counted from one. -/
  counted : s.start.IsCounted
  /-- They go forward. -/
  upTo : s.start.UpTo s.stop

namespace Reader

/-- What each step keeps of a position, any number of steps keeps. -/
theorem position_advanceBy_of_keeps {P : Position → Prop}
    (hkeeps : ∀ p c next, P p → P (p.advance c next)) {r : Reader} (h : P r.position) (n : Nat) :
    P (r.advanceBy n).position := by
  induction n generalizing r with
  | zero => exact h
  | succ n ih =>
    refine ih ?_
    unfold advance
    split
    · exact h
    · exact hkeeps _ _ _ h

/-- **Over a run of characters lines and columns go forward.** -/
theorem isForward_spanOver (s : Source) (n k : Nat) :
    (((ofSource s).advanceBy n).spanOver k).IsForward where
  counted := position_advanceBy_of_keeps (fun _ c next h => h.advance c next)
    ⟨Nat.le_refl 1, Nat.le_refl 1⟩ n
  upTo := position_advanceBy_of_keeps (fun _ c next h => h.advance c next)
    (Or.inr ⟨rfl, Nat.le_refl _⟩) k

end Reader

/-- An error of a unit covers some characters that a reader comes by. -/
theorem Source.exists_spanOver_of_mem_errors {s : Source} {e : LexError} (he : e ∈ s.errors) :
    ∃ n k, e.span = ((Reader.ofSource s).advanceBy n).spanOver k := by
  rw [errors_eq] at he
  obtain ⟨l, r, hstep, he⟩ := Reader.mem_ahead.1 he
  obtain ⟨-, hl, n, rfl⟩ := Reader.of_mem_steps hstep
  obtain ⟨m, k, -, -, hspan⟩ := Lexeme.exists_spanOver_of_mem_errors hl he
  exact ⟨n + m, k, by rw [hspan, Reader.advanceBy_add]⟩

/-! ### Reports -/

/-- **Nothing fails when a report is shown.** -/
structure Report.Succeeds (r : Report) (palette : Palette) : Prop where
  /-- The length of the span is at least zero. -/
  length : Excerpt.difference? r.error.span.stop.offset r.error.span.start.offset =
    some r.error.span.length
  /-- The line of the span has an index. -/
  index : Excerpt.difference? r.error.span.start.line 1 = some (r.error.span.start.line - 1)
  /-- There are no fewer than zero characters before the span. -/
  indent : r.excerpt.indent? = some (r.error.span.start.column - 1)
  /-- Whatever the line holds, the underline has a width. -/
  width : ∀ line, ∃ n, r.excerpt.underlineWidth? line = some n
  /-- So the report is shown. -/
  shown : ∃ text, r.render? palette = some text

theorem Excerpt.difference?_of_le {a b : Nat} (h : b ≤ a) : difference? a b = some (a - b) := by
  rw [difference?, if_pos h]

/-- **A report is shown if the span of its error goes forward,** whatever its line is. -/
theorem Report.succeeds_of_isForward {r : Report} (h : r.error.span.IsForward)
    (palette : Palette) : r.Succeeds palette := by
  have hindent : r.excerpt.indent? = some (r.error.span.start.column - 1) :=
    Excerpt.difference?_of_le h.counted.2
  have hwidth : ∀ line, ∃ n, r.excerpt.underlineWidth? line = some n := by
    intro line
    unfold Excerpt.underlineWidth?
    split
    · rename_i hline
      have hcolumns : r.error.span.start.column ≤ r.error.span.stop.column := by
        have hup := h.upTo
        have hline' : r.error.span.stop.line = r.error.span.start.line := hline
        unfold Position.UpTo at hup
        omega
      exact ⟨_, Option.map_eq_some_iff.2 ⟨_, Excerpt.difference?_of_le hcolumns, rfl⟩⟩
    · exact ⟨_, Option.map_eq_some_iff.2 ⟨_, hindent, rfl⟩⟩
  refine ⟨Excerpt.difference?_of_le r.error.span.ordered,
    Excerpt.difference?_of_le h.counted.1, hindent, hwidth, ?_⟩
  have hdraw : ∃ text, r.excerpt.draw? palette = some text := by
    unfold Excerpt.draw?
    split
    · exact ⟨_, rfl⟩
    · rename_i line _
      obtain ⟨n, hn⟩ := hwidth line
      rw [Excerpt.rows?, hn, Option.bind_some, hindent]
      exact ⟨_, rfl⟩
  obtain ⟨text, htext⟩ := hdraw
  exact ⟨_, Option.map_eq_some_iff.2 ⟨text, htext, rfl⟩⟩

/-- **The report of an error is shown against any unit.** -/
theorem Report.succeeds_of_mem_errors {s u : Source} {e : LexError} (he : e ∈ s.errors)
    (palette : Palette) : (Report.ofError u e).Succeeds palette := by
  obtain ⟨n, m, hspan⟩ := Source.exists_spanOver_of_mem_errors he
  exact succeeds_of_isForward (hspan ▸ Reader.isForward_spanOver s n m) palette

/-- If each item has an answer, the answers make up a list. -/
theorem exists_mapM_eq_some {α β : Type} {f : α → Option β} {xs : List α}
    (h : ∀ x ∈ xs, ∃ y, f x = some y) :
    ∃ ys, xs.mapM f = some ys ∧ List.Forall₂ (fun x y => f x = some y) xs ys := by
  induction xs with
  | nil => exact ⟨[], rfl, .nil⟩
  | cons x xs ih =>
    obtain ⟨⟨y, hy⟩, hxs⟩ := List.forall_mem_cons.1 h
    obtain ⟨ys, hys, hall⟩ := ih hxs
    refine ⟨y :: ys, ?_, .cons hy hall⟩
    rw [List.mapM_cons, hy, hys]
    rfl

/-- **Errors that can be shown one by one can be shown together,** with a blank line between
any two. -/
theorem exists_renderErrors?_eq_some {errors : List LexError} {u : Source} {palette : Palette}
    (h : ∀ e ∈ errors, (Report.ofError u e).Succeeds palette) :
    ∃ shown, renderErrors? errors u palette = some ("\n\n".intercalate shown) ∧
      List.Forall₂ (fun e text => (Report.ofError u e).render? palette = some text)
        errors shown := by
  obtain ⟨shown, hshown, hall⟩ := exists_mapM_eq_some fun e he => (h e he).shown
  exact ⟨shown, by rw [renderErrors?, hshown]; rfl, hall⟩

/-! ### The table of line starts -/

namespace Source

/-- **The table of line starts is used within its range,** and what it leads to are cuts at
boundaries of the text. -/
structure TableHolds (u : Source) : Prop where
  /-- The table has an entry for the lines of the unit and for no others. -/
  range : ∀ line, (u.lineRange? line).isSome = true ↔ 1 ≤ line ∧ line ≤ u.lineCount
  /-- A line can be cut out of the text. -/
  cut : ∀ line start stop, u.lineRange? line = some (start, stop) →
    ∃ text, Text.slice? start stop u.text = some text ∧ u.line? line = some (Line.trimEnds text)
  /-- Before every place some line has begun, the last one under its number, and the text
  between its start and the place can be cut out. -/
  begun : ∀ before after, u.text = before ++ after →
    ∃ line start, (u.lineStarts.takeWhile (· ≤ Text.byteLength before)).length = line + 1 ∧
      u.lineStarts[line]? = some start ∧
      ∃ text, Text.slice? start (Text.byteLength before) u.text = some text

/-- What the table gives as the ends of a line are boundaries. -/
theorem exists_slice?_of_lineRange? {u : Source} {line start stop : Nat}
    (h : u.lineRange? line = some (start, stop)) :
    ∃ text, Text.slice? start stop u.text = some text ∧
      u.line? line = some (Line.trimEnds text) := by
  obtain ⟨hpos, hle⟩ := isSome_lineRange?_iff.1 (by rw [h]; rfl)
  obtain ⟨before, content, close, after, htext, hplaced, hline⟩ := exists_placed_of_le hpos hle
  have hrange := lineRange?_of_placed htext hplaced
  rw [hline, h] at hrange
  obtain ⟨rfl, rfl⟩ := Prod.mk.inj (Option.some.inj hrange)
  have hslice := slice?_of_text_eq htext
  refine ⟨_, hslice, ?_⟩
  rw [line?, h]
  show (Text.slice? _ _ u.text).map Line.trimEnds = _
  rw [hslice, Option.map_some]

theorem tableHolds (u : Source) : u.TableHolds where
  range _ := isSome_lineRange?_iff
  cut _ _ _ := exists_slice?_of_lineRange?
  begun before after htext := by
    obtain ⟨front, line, hsplit, hlast, -⟩ := exists_line_split before after.head?
    have hbegun : u.lineStarts.takeWhile (· ≤ Text.byteLength before) =
        0 :: Line.breaksBefore 0 before after.head? := by
      rw [lineStarts, htext, Line.takeWhile_starts]
    have hentry : u.lineStarts[(Line.breaksBefore 0 before after.head?).length]? =
        some (Text.byteLength front) := by
      obtain ⟨later, hlater⟩ : 0 :: Line.breaksBefore 0 before after.head? <+: u.lineStarts :=
        hbegun ▸ List.takeWhile_prefix _
      have hentry : (0 :: Line.breaksBefore 0 before after.head?).getLast? =
          some (Text.byteLength front) := by
        rw [← hlast, List.getLast?_cons, List.getLastD_cons, List.getLastD_eq_getLast?]
      rw [← hlater, List.getElem?_append_left (Nat.lt_succ_self _), ← hentry,
        List.getLast?_eq_getElem?]
      rfl
    refine ⟨_, _, by rw [hbegun]; rfl, hentry, line, ?_⟩
    exact Text.slice?_eq_some_iff.2 ⟨front, after, by rw [htext, hsplit], rfl, by
      rw [hsplit, Text.byteLength_append]⟩

end Source

/-- **Scanning and rendering never fail.**  Let a unit be scanned up to its end and beyond,
and the errors met be reported and shown against any unit.

* However many requests are made, a machine has answered them all, with the tokens of the
  scan, and is where the scan is.  It would have no answer if one of its cuts, of the text
  ahead, of the text since a mark or of the digits behind the mark of a radix, were made
  elsewhere than at boundaries or from a mark ahead of it.
* The report of each error is shown, every difference that is taken for it being no less
  than zero, and so are all of them together.
* The table of line starts is used within its range, and lines are cut out of the text at
  boundaries. -/
theorem scan_and_render_never_fail (s u : Source) (palette : Palette) :
    (∀ k, (Machine.nexts k).run (Machine.ofSource s) =
        some ((List.range k).map s.request, (s.scanAfter k).machine)) ∧
      (∀ k, (∀ e ∈ (s.scanAfter k).errors, (Report.ofError u e).Succeeds palette) ∧
        ∃ text, renderErrors? (s.scanAfter k).errors u palette = some text) ∧
      u.TableHolds := by
  refine ⟨fun k => Machine.run_nexts (Scan.standsIn_ofSource s) k, fun k => ?_, u.tableHolds⟩
  have hall : ∀ e ∈ (s.scanAfter k).errors, (Report.ofError u e).Succeeds palette :=
    fun e he => Report.succeeds_of_mem_errors ((s.errors_scanAfter_prefix k).subset he) palette
  obtain ⟨shown, hshown, -⟩ := exists_renderErrors?_eq_some hall
  exact ⟨hall, _, hshown⟩

end Lexis
