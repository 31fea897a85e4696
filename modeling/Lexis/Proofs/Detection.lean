/-
# The order of detection

A scan never goes back over an error: what a request adds lies in the text that it
passes, and what has been met before stays as it is.  So the errors stand in the order
in which they end, one after the other, but for the escapes of a literal that is left
open, whose error comes last and holds theirs (`errors_detected_in_order`).

This is not the order in which they begin.  An open literal begins before the malformed
escapes in it, and its error comes after theirs.  There is no other exception: the
errors begin in source order if no malformed escape stands in an open literal, and only
then (`errors_inSourceOrder_iff`).

The order among all errors of a text is `Reader.pairwise_ahead_precedes`; here it is
found again in the errors met so far, which are the first ones of the text
(`Source.errors_scanAfter_prefix`).
-/

import Lexis.Proofs.Requests
import Lexis.Tokenize

namespace Lexis

/-! ### The errors of a unit -/

namespace Source

variable {s : Source}

theorem pairwise_errors_precedes (s : Source) : s.errors.Pairwise LexError.Precedes := by
  rw [errors_eq]
  exact (Reader.ofSource s).pairwise_ahead_precedes

theorem start_lt_stop_of_mem_errors {e : LexError} (he : e ∈ s.errors) :
    e.span.start.offset < e.span.stop.offset := by
  rw [errors_eq] at he
  obtain ⟨l, r, hstep, he⟩ := Reader.mem_ahead.1 he
  obtain ⟨-, hl, -⟩ := Reader.of_mem_steps hstep
  exact (Lexeme.bounds_of_mem_errors hl he).2.1

/-- An error inside an open literal is detected before that of the literal. -/
theorem not_precedes_of_insideOpen {e f : LexError} (he : e ∈ s.errors) (h : e.InsideOpen f) :
    ¬ f.Precedes e := by
  rintro (hbefore | hinside)
  · have hnonempty := start_lt_stop_of_mem_errors he
    have hstop := h.stop
    have hleft := hbefore.2
    omega
  · exact Nat.lt_asymm h.start hinside.start

/-- An error is inside one open literal at most. -/
theorem eq_of_insideOpen {e f g : LexError} (hf : f ∈ s.errors) (hg : g ∈ s.errors)
    (hef : e.InsideOpen f) (heg : e.InsideOpen g) : f = g := by
  refine List.Pairwise.forall_of_forall_of_flip
    (R := fun f g : LexError => e.InsideOpen f → e.InsideOpen g → f = g) (fun _ _ _ _ => rfl)
    (s.pairwise_errors_precedes.imp fun h hef heg => (h.not_insideOpen hef heg).elim)
    (s.pairwise_errors_precedes.imp fun h hef heg => (h.not_insideOpen heg hef).elim)
    hf hg hef heg

/-! ### The errors met so far -/

variable (s : Source) (k : Nat)

/-- The errors met so far are the first ones of the unit. -/
theorem errors_scanAfter_prefix : (s.scanAfter k).errors <+: s.errors :=
  ⟨_, (s.standsIn_scanAfter k).errors⟩

/-- A request adds the errors that the reader finds. -/
theorem errors_scanAfter_succ : (s.scanAfter (k + 1)).errors =
    (s.scanAfter k).errors ++ (s.scanAfter k).reader.seek.errors := by
  rw [scanAfter_succ, Scan.errors_record]

/-- **Errors that have been met** stay as they are. -/
theorem errors_scanAfter_prefix_add (n : Nat) :
    (s.scanAfter k).errors <+: (s.scanAfter (k + n)).errors := by
  induction n with
  | zero => exact List.prefix_rfl
  | succ n ih =>
    refine ih.trans ?_
    rw [← Nat.add_assoc, errors_scanAfter_succ]
    exact List.prefix_append _ _

/-- **No error that has been met** ends behind the place reached. -/
theorem stop_le_of_mem_errors_scanAfter {e : LexError} (he : e ∈ (s.scanAfter k).errors) :
    e.span.stop.offset ≤ (s.scanAfter k).position.offset := by
  induction k with
  | zero => simp [scanAfter, Scan.after, Scan.ofSource] at he
  | succ k ih =>
    rw [position_scanAfter_succ]
    rw [errors_scanAfter_succ, List.mem_append] at he
    rcases he with he | he
    · exact Nat.le_trans (ih he) (Reader.offset_le_seek _)
    · exact (Reader.bounds_of_mem_errors_seek he).2

end Source

/-- **Errors are kept in the order of detection.**  After `k` requests to a scan

* the errors met stand in the order in which they end, and none ends behind the position
  reached;
* those that the next request adds lie in the text that it passes, and those met before
  stay in front of all that further requests add;
* of any two, one ends before the other begins, unless the one met first is that of an
  escape inside the open literal that the other one is about;
* there is only one such literal for an escape. -/
theorem errors_detected_in_order (s : Source) (k : Nat) :
    ((s.scanAfter k).errors.Pairwise fun e f => e.span.stop.offset ≤ f.span.stop.offset) ∧
      (∀ e ∈ (s.scanAfter k).errors, e.span.stop.offset ≤ (s.scanAfter k).position.offset) ∧
      (∃ found, (s.scanAfter (k + 1)).errors = (s.scanAfter k).errors ++ found ∧
        ∀ e ∈ found, (s.scanAfter k).position.offset ≤ e.span.start.offset ∧
          e.span.stop.offset ≤ (s.scanAfter (k + 1)).position.offset) ∧
      (∀ n, (s.scanAfter k).errors <+: (s.scanAfter (k + n)).errors) ∧
      ((s.scanAfter k).errors.Pairwise fun e f => e.span.Before f.span ∨ e.InsideOpen f) ∧
      ∀ e ∈ (s.scanAfter k).errors, ∀ f ∈ (s.scanAfter k).errors,
        ∀ g ∈ (s.scanAfter k).errors, e.InsideOpen f → e.InsideOpen g → f = g := by
  have hfirst := s.errors_scanAfter_prefix k
  have horder : (s.scanAfter k).errors.Pairwise LexError.Precedes :=
    s.pairwise_errors_precedes.sublist hfirst.sublist
  refine ⟨horder.imp LexError.Precedes.stop_le,
    fun e he => s.stop_le_of_mem_errors_scanAfter k he,
    ⟨_, s.errors_scanAfter_succ k, fun e he => ?_⟩, s.errors_scanAfter_prefix_add k, horder,
    fun e _ f hf g hg => Source.eq_of_insideOpen (hfirst.subset hf) (hfirst.subset hg)⟩
  rw [s.position_scanAfter_succ]
  exact Reader.bounds_of_mem_errors_seek he

/-! ### Source order -/

/-- No error begins before the one in front of it. -/
def InSourceOrder (errors : List LexError) : Prop :=
  errors.Pairwise fun e f => e.span.start.offset ≤ f.span.start.offset

instance (errors : List LexError) : Decidable (InSourceOrder errors) :=
  inferInstanceAs (Decidable (errors.Pairwise _))

namespace Source

/-- No malformed escape stands in a literal that is left open. -/
def NoEscapeInOpen (s : Source) : Prop := ∀ e ∈ s.errors, ∀ f ∈ s.errors, ¬ e.InsideOpen f

/-- The errors of a unit begin in source order exactly if none is inside another one. -/
theorem inSourceOrder_errors_iff (s : Source) : InSourceOrder s.errors ↔ s.NoEscapeInOpen := by
  have horder := s.pairwise_errors_precedes
  constructor
  · intro h e he f hf hinside
    have hboth : s.errors.Pairwise fun e f =>
        e.Precedes f ∧ e.span.start.offset ≤ f.span.start.offset := horder.and h
    -- neither is the inner error detected after the outer one, nor does it begin before it
    refine List.Pairwise.forall_of_forall_of_flip
      (R := fun e f : LexError => e ∈ s.errors → e.InsideOpen f → False)
      (fun e _ _ hself => Nat.lt_irrefl _ hself.start)
      (hboth.imp fun hef _ hin => hef.1.start_le_iff.1 hef.2 hin)
      (horder.imp fun hfe he hin => not_precedes_of_insideOpen he hin hfe) he hf he hinside
  · intro h
    exact horder.imp_of_mem fun he hf hef => hef.start_le_iff.2 (h _ he _ hf)

/-- The reports of the errors come in the order in which the errors are kept. -/
theorem map_error_tokenize (s : Source) :
    (s.tokenize .collect []).2.map Report.error = s.errors := by
  have hreports : (s.tokenize .collect []).2 = s.errors.map (Report.ofError s) := by
    rw [tokenize, TokenFeed.drain_ofSource]
    exact Reporter.receiveAll_collect [] _
  rw [hreports, List.map_map]
  exact List.map_id _

end Source

/-- **When errors begin in source order:** exactly if no malformed escape stands in a literal
that is left open.  This holds of the errors of a scan at all times, and of the reports of
them. -/
theorem errors_inSourceOrder_iff (s : Source) :
    ((∀ k, InSourceOrder (s.scanAfter k).errors) ↔ s.NoEscapeInOpen) ∧
      (InSourceOrder ((s.tokenize .collect []).2.map Report.error) ↔ s.NoEscapeInOpen) := by
  rw [s.map_error_tokenize, ← s.inSourceOrder_errors_iff]
  refine ⟨⟨fun h => ?_, fun h k => h.sublist (s.errors_scanAfter_prefix k).sublist⟩, Iff.rfl⟩
  rw [Source.errors, s.scan_eq_requests.1]
  exact h _

/-- The escape begins behind the start of the literal, which is left open, and its error is
the first one. -/
theorem openLiteral_not_inSourceOrder :
    ((Source.ofString "a" "\"\\q").scanAfter 1).errors.map
        (fun e => (e.kind, e.span.start.offset)) =
      [(.invalidEscapeSequence, 1), (.unterminatedString, 0)] ∧
    ¬ InSourceOrder ((Source.ofString "a" "\"\\q").scanAfter 1).errors ∧
    ¬ InSourceOrder ((tokenize "a" "\"\\q" .collect []).2.map Report.error) := by
  decide +kernel

end Lexis
