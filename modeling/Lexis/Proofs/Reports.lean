/-
# Tokenizing is scanning and reporting

Tokenizing a text answers with the tokens of its scan and reports the errors of the scan,
one report for each and in the same order; what the reporter makes of them has no part in
the tokens (`tokenize_is_scan_and_reports`).

A report has the line that its error begins on.  There always is one: an error begins at a
place inside a line (`Source.exists_coversFrom_of_mem_errors`), and that line is found under
the number in the position (`Source.Place.line?_eq`).
-/

import Lexis.Proofs.Extents
import Lexis.Proofs.Rendering

namespace Lexis

/-! ### Lines that hold a place -/

/-- **The line of the unit that holds the place** at the offset. -/
def Source.LineAt (s : Source) (offset : Nat) (line : List Char) : Prop :=
  ∃ before close after, s.text = before ++ (line ++ (close ++ after)) ∧
    Line.Placed before line close after ∧ Text.byteLength before ≤ offset ∧
      offset < Text.byteLength (before ++ line)

/-- The line of a place is the line that holds it. -/
theorem Source.Place.lineAt {s : Source} (p : s.Place) : s.LineAt p.position.offset p.line := by
  have hpos := Text.byteLength_pos p.inside
  refine ⟨p.before.flatMap TextLine.chars, p.close, p.below, ?_, p.lines.placed, ?_, ?_⟩
  · rw [p.text_eq, rest, line]
    simp only [List.append_assoc]
  · exact Nat.le_add_right _ _
  · simp only [position, lineStart, line, Text.byteLength_append]
    omega

/-- **The line that an error begins on** is found under its number. -/
theorem Source.exists_lineAt_of_mem_errors {s : Source} {e : LexError} (he : e ∈ s.errors) :
    ∃ line, s.line? e.span.start.line = some line ∧ s.LineAt e.span.start.offset line := by
  obtain ⟨p, h⟩ := exists_coversFrom_of_mem_errors he
  rw [h.start]
  exact ⟨p.line, p.line?_eq.1, p.lineAt⟩

/-! ### Reports -/

/-- The report tells of the error in the unit, and it has the line that the error begins
on. -/
structure Report.Describes (r : Report) (s : Source) (e : LexError) : Prop where
  /-- The unit is named. -/
  identifier : r.identifier = s.identifier
  /-- The error is the one met. -/
  error : r.error = e
  /-- The line is there, and it holds the place where the error begins. -/
  line : ∃ line, r.line = some line ∧ s.LineAt e.span.start.offset line

/-- The report of an error in its own unit describes it. -/
theorem Report.describes_ofError {s : Source} {e : LexError} (he : e ∈ s.errors) :
    (Report.ofError s e).Describes s e where
  identifier := rfl
  error := rfl
  line := Source.exists_lineAt_of_mem_errors he

/-- What is reported of a scan that has run to its end. -/
theorem Source.tokenize_eq {σ : Type} (s : Source) (reporter : Reporter σ Report) (memory : σ) :
    s.tokenize reporter memory =
      (s.scan.1, reporter.receiveAll memory (s.errors.map (Report.ofError s))) := by
  rw [tokenize, TokenFeed.drain_ofSource]
  rfl

/-- **Tokenizing is the whole way from a text to its tokens, and loses nothing.**  Let the
text be scanned by `n + 1` requests, the last one being the first that is answered with the
end of the input.  There are as many reports as errors met, and each describes the error in
its place, so that

* tokenizing answers with the answers to the requests, and the reporter receives these
  reports one after the other, whatever it remembers and does with them;
* a reporter that prints has printed afterwards if it had before or if an error has been
  met, and only then;
* the errors shown together are the reports as they are shown one by one, with a blank line
  between any two. -/
theorem tokenize_is_scan_and_reports (identifier text : String) :
    let s := Source.ofString identifier text
    ∃ (n : Nat) (reports : List Report),
      ((∀ j < n, (s.request j).isEnd = false) ∧ (s.request n).isEnd = true) ∧
      List.Forall₂ (fun r e => Report.Describes r s e) reports (s.scanAfter (n + 1)).errors ∧
      (∀ (σ : Type) (reporter : Reporter σ Report) (memory : σ),
        tokenize identifier text reporter memory =
          ((List.range (n + 1)).map s.request, reports.foldl reporter.receive memory)) ∧
      (∀ printed, (tokenize identifier text .print printed).2 = true ↔
        printed = true ∨ (s.scanAfter (n + 1)).errors ≠ []) ∧
      ∀ palette, ∃ shown,
        List.Forall₂ (fun r text => Report.render? r palette = some text) reports shown ∧
          renderErrors? (s.scanAfter (n + 1)).errors s palette =
            some ("\n\n".intercalate shown) := by
  intro s
  obtain ⟨hscan, hbefore, hend⟩ := s.scan_eq_requests
  have herrors : (s.scanAfter (s.tokens.length + 1)).errors = s.errors := by
    rw [Source.errors, hscan]
  have htokenize : ∀ (σ : Type) (reporter : Reporter σ Report) (memory : σ),
      tokenize identifier text reporter memory =
        ((List.range (s.tokens.length + 1)).map s.request,
          reporter.receiveAll memory (s.errors.map (Report.ofError s))) := by
    intro σ reporter memory
    rw [tokenize, Source.tokenize_eq]
    exact congrArg (·, _) (Prod.ext_iff.1 hscan).1
  refine ⟨s.tokens.length, s.errors.map (Report.ofError s), ⟨hbefore, hend⟩, ?_, htokenize,
    fun printed => ?_, fun palette => ?_⟩
  · rw [herrors, List.forall₂_map_left_iff]
    exact List.forall₂_same.2 fun e he => Report.describes_ofError he
  · rw [htokenize, Reporter.receiveAll_print, herrors]
    simp
  · obtain ⟨shown, hshown, hall⟩ := exists_renderErrors?_eq_some fun e he =>
      Report.succeeds_of_mem_errors (u := s) (s := s) (e := e) he palette
    rw [herrors]
    exact ⟨shown, List.forall₂_map_left_iff.2 hall, hshown⟩

end Lexis
