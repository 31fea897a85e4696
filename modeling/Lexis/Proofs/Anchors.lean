/-
# Where errors are anchored

Every error of a scan tells what is wrong with one lexeme, so its span is that of
a token or of a trivia, or lies inside a token (`Source.Anchors`).  Conversely
nothing is skipped in silence: what is skipped is the span of an error, and of
one only.

An error covers some of the characters of its lexeme
(`Lexeme.exists_spanOver_of_mem_errors`).  So the errors of different lexemes stand
one after the other, since lexemes follow each other.  Those of one lexeme do as well,
the suffix of a number behind the numeral and the escapes of a literal in their order,
but for one case: the error of a literal that is left open comes after those of the
escapes inside it.  `LexError.Precedes` is this order, in which all errors are found
(`Reader.pairwise_ahead_precedes`); no two of them begin at the same place.
-/

import Lexis.Proofs.Lookahead.Lexeme
import Lexis.Proofs.Tiling
import Mathlib.Data.List.Nodup

namespace Lexis

/-! ### Places within a lexeme -/

namespace Reader

variable {r : Reader} {m n : Nat}

theorem offset_advanceBy_le (r : Reader) (h : m ≤ n) :
    (r.advanceBy m).position.offset ≤ (r.advanceBy n).position.offset := by
  obtain ⟨k, rfl⟩ := Nat.exists_eq_add_of_le h
  rw [advanceBy_add]
  exact offset_le_advanceBy _ k

/-- Before the end of the text a reader moves on with every character. -/
theorem offset_advanceBy_lt (h : m < n) (hm : m < r.rest.length) :
    (r.advanceBy m).position.offset < (r.advanceBy n).position.offset := by
  have hne : (r.advanceBy m).rest ≠ [] := by
    rw [rest_advanceBy, ← List.length_pos_iff, List.length_drop]
    omega
  obtain ⟨c, cs, hc⟩ := List.exists_cons_of_ne_nil hne
  have hstep : (r.advanceBy (m + 1)).position.offset =
      (r.advanceBy m).position.offset + c.utf8Size := by
    rw [advanceBy_add, advanceBy, advanceBy, advance, hc, Position.offset_advance]
  calc (r.advanceBy m).position.offset
      < (r.advanceBy (m + 1)).position.offset := by rw [hstep]; have := c.utf8Size_pos; omega
    _ ≤ (r.advanceBy n).position.offset := r.offset_advanceBy_le h

end Reader

/-! ### The order of detection -/

namespace LexError

/-- The error `e` is that of an escape, and it lies inside the literal of the error `f`,
which is left open. -/
structure InsideOpen (e f : LexError) : Prop where
  /-- The inner error is that of an escape. -/
  escape : e.kind = .invalidEscapeSequence
  /-- The outer error is that of a literal. -/
  literal : f.kind = .unterminatedString
  /-- The escape begins behind the start of the literal. -/
  start : f.span.start.offset < e.span.start.offset
  /-- The escape ends with the literal or before. -/
  stop : e.span.stop.offset ≤ f.span.stop.offset

/-- **The order in which errors are detected:** one of them ends before the other
begins, or it is the error of an escape in the open literal that the other one is
about. -/
def Precedes (e f : LexError) : Prop := e.span.Before f.span ∨ e.InsideOpen f

variable {e f : LexError}

/-- Errors are detected in the order in which they end. -/
theorem Precedes.stop_le (h : e.Precedes f) : e.span.stop.offset ≤ f.span.stop.offset := by
  rcases h with h | h
  · exact Nat.le_trans h.2 f.span.ordered
  · exact h.stop

/-- Two errors begin at different places. -/
theorem Precedes.start_ne (h : e.Precedes f) : e.span.start.offset ≠ f.span.start.offset := by
  rcases h with h | h
  · exact Nat.ne_of_lt h.1
  · exact Nat.ne_of_gt h.start

/-- The error detected first begins first unless it is inside the other one. -/
theorem Precedes.start_le_iff (h : e.Precedes f) :
    e.span.start.offset ≤ f.span.start.offset ↔ ¬ e.InsideOpen f := by
  rcases h with h | h
  · exact iff_of_true (Nat.le_of_lt h.1) fun hin => Nat.lt_asymm h.1 hin.start
  · exact iff_of_false (Nat.not_le_of_gt h.start) fun hnot => hnot h

/-- A place is inside one open literal at most. -/
theorem Precedes.not_insideOpen {g : LexError} (h : f.Precedes g) (hf : e.InsideOpen f)
    (hg : e.InsideOpen g) : False := by
  rcases h with h | h
  · have hstart := hg.start
    have hstop := hf.stop
    have hordered := e.span.ordered
    have hbefore := h.2
    omega
  · have hkind := h.escape
    rw [hf.literal] at hkind
    simp at hkind

end LexError

namespace Lexeme

variable {l : Lexeme} {r : Reader} {e : LexError}

/-- **An error covers some characters of its lexeme.** -/
theorem exists_spanOver_of_mem_errors (hl : read? r.rest = some l) (he : e ∈ l.errors r) :
    ∃ m k, 0 < k ∧ m + k ≤ l.chars.length ∧ e.span = (r.advanceBy m).spanOver k := by
  have hpos : 0 < l.chars.length := List.length_pos_iff.2 (chars_ne_nil_of_read? hl)
  cases mem_errors_iff.1 he with
  | @overflow numeral suffix _ =>
    have hnumeral := text_payload?_ne_nil hl rfl
    rw [Payload.text_ofNumeral] at hnumeral
    refine ⟨0, numeral.chars.length, List.length_pos_iff.2 hnumeral, ?_, rfl⟩
    rw [chars, List.length_append]
    omega
  | @attached numeral suffix h =>
    refine ⟨numeral.chars.length, suffix.length, List.length_pos_iff.2 h, ?_, rfl⟩
    rw [chars, List.length_append]
  | @escape literal before u after hunits _ =>
    refine ⟨literal.form.delimiter.length + (before.flatMap QuoteUnit.chars).length,
      u.chars.length, u.length_chars_pos, ?_, by rw [Reader.advanceBy_add]⟩
    simp only [chars, Quoted.chars, QuoteForm.body, hunits, List.flatMap_append,
      List.flatMap_cons, List.length_append]
    omega
  | literal _ => exact ⟨0, _, hpos, Nat.le_of_eq (Nat.zero_add _), rfl⟩
  | comment => exact ⟨0, _, hpos, Nat.le_of_eq (Nat.zero_add _), rfl⟩
  | character => exact ⟨0, 1, Nat.one_pos, Nat.le_of_eq (Nat.zero_add _), rfl⟩

/-- An error lies between where its lexeme begins and where it ends, and is not empty. -/
theorem bounds_of_mem_errors (hl : read? r.rest = some l) (he : e ∈ l.errors r) :
    r.position.offset ≤ e.span.start.offset ∧ e.span.start.offset < e.span.stop.offset ∧
      e.span.stop.offset ≤ (r.advanceBy l.chars.length).position.offset := by
  obtain ⟨m, k, hk, hmk, hspan⟩ := exists_spanOver_of_mem_errors hl he
  have hlen := (isPrefix_chars_read? hl).length_le
  have hstop : e.span.stop = (r.advanceBy (m + k)).position := by
    rw [hspan, Reader.advanceBy_add]
    rfl
  rw [hstop, hspan]
  exact ⟨r.offset_le_advanceBy m, Reader.offset_advanceBy_lt (by omega) (by omega),
    r.offset_advanceBy_le hmk⟩

/-- Escapes stand behind the place where the units begin. -/
theorem offset_le_of_mem_escapeErrors {units : List QuoteUnit} (he : e ∈ escapeErrors units r) :
    r.position.offset ≤ e.span.start.offset := by
  obtain ⟨before, u, after, -, -, rfl⟩ := mem_escapeErrors_iff.1 he
  exact r.offset_le_advanceBy _

/-- The malformed escapes of a literal stand one after the other. -/
theorem pairwise_escapeErrors {units : List QuoteUnit}
    (h : (units.flatMap QuoteUnit.chars).length ≤ r.rest.length) :
    (escapeErrors units r).Pairwise fun e f => e.span.Before f.span := by
  induction units generalizing r with
  | nil => exact List.Pairwise.nil
  | cons u units ih =>
    have hu := u.length_chars_pos
    rw [List.flatMap_cons, List.length_append] at h
    rw [escapeErrors_cons]
    refine List.pairwise_append.2 ⟨by split <;> simp, ih ?_, fun e he f hf => ?_⟩
    · rw [Reader.rest_advanceBy, List.length_drop]
      omega
    · have hspan : e.span = r.spanOver u.chars.length := by
        split at he
        · rw [List.mem_singleton.1 he]
        · simp at he
      have hlt : r.position.offset < (r.advanceBy u.chars.length).position.offset :=
        Reader.offset_advanceBy_lt hu (by omega)
      have hle := offset_le_of_mem_escapeErrors hf
      rw [hspan]
      exact ⟨Nat.lt_of_lt_of_le hlt hle, hle⟩

/-- The suffix of a number stands behind its numeral. -/
theorem pairwise_errors_number {numeral : Numeral} {suffix : List Char}
    (hl : read? r.rest = some (.number numeral suffix)) :
    ((number numeral suffix).errors r).Pairwise fun e f => e.span.Before f.span := by
  have hlen := (isPrefix_chars_read? hl).length_le
  have hnumeral := text_payload?_ne_nil hl rfl
  rw [Payload.text_ofNumeral, ← List.length_pos_iff] at hnumeral
  rw [chars, List.length_append] at hlen
  have hlt : r.position.offset < (r.advanceBy numeral.chars.length).position.offset :=
    Reader.offset_advanceBy_lt hnumeral (by omega)
  rw [errors_number]
  refine List.pairwise_append.2 ⟨by split <;> simp, by split <;> simp, fun e he f hf => ?_⟩
  split at he
  · split at hf
    · simp at hf
    · rw [List.mem_singleton.1 he, List.mem_singleton.1 hf]
      exact ⟨hlt, Nat.le_refl _⟩
  · simp at he

/-- The escapes of a literal are detected first, and they are inside it. -/
theorem pairwise_errors_quoted {literal : Quoted} (hl : read? r.rest = some (.quoted literal)) :
    ((quoted literal).errors r).Pairwise LexError.Precedes := by
  have hlen := (isPrefix_chars_read? hl).length_le
  have hdelim := List.length_pos_iff.2 literal.form.delimiter_ne_nil
  rw [chars, Quoted.chars, QuoteForm.body, List.length_append, List.length_append] at hlen
  have hlt : r.position.offset < (r.advanceBy literal.form.delimiter.length).position.offset :=
    Reader.offset_advanceBy_lt hdelim (by omega)
  have hunits : (literal.units.flatMap QuoteUnit.chars).length ≤
      (r.advanceBy literal.form.delimiter.length).rest.length := by
    rw [Reader.rest_advanceBy, List.length_drop]
    omega
  rw [errors_quoted]
  refine List.pairwise_append.2
    ⟨(pairwise_escapeErrors hunits).imp Or.inl, by split <;> simp, fun e he f hf => Or.inr ?_⟩
  have hwhole : e ∈ (quoted literal).errors r := by
    rw [errors_quoted]
    exact List.mem_append_left _ he
  have hstop := (bounds_of_mem_errors hl hwhole).2.2
  have hstart := Nat.lt_of_lt_of_le hlt (offset_le_of_mem_escapeErrors he)
  obtain ⟨before, u, after, -, -, rfl⟩ := mem_escapeErrors_iff.1 he
  split at hf
  · simp at hf
  · rw [List.mem_singleton.1 hf]
    exact ⟨rfl, rfl, hstart, hstop⟩

/-- **The errors of a lexeme** are found in the order of detection. -/
theorem pairwise_errors (hl : read? r.rest = some l) :
    (l.errors r).Pairwise LexError.Precedes := by
  cases l with
  | number numeral suffix => exact (pairwise_errors_number hl).imp Or.inl
  | quoted literal => exact pairwise_errors_quoted hl
  | blockComment run closed =>
    rw [errors_blockComment]
    split <;> simp
  | unexpected c =>
    rw [errors_unexpected]
    exact List.pairwise_singleton _ _
  | _ => exact List.Pairwise.nil

/-- What is skipped is the span of an error. -/
theorem exists_mem_errors_of_skipped {t : Trivia} (ht : t ∈ l.trivia r) (hk : t.kind = .skipped) :
    ∃ e ∈ l.errors r, e.span = t.span := by
  cases hp : l.payload? with
  | some p =>
    rw [trivia_of_payload? hp] at ht
    split at ht
    · simp at ht
    · rename_i hsuffix
      obtain rfl := List.mem_singleton.1 ht
      cases l with
      | number numeral suffix =>
        obtain rfl := Option.some.inj hp
        rw [Payload.text_ofNumeral]
        exact ⟨_, mem_errors_iff.2 (.attached hsuffix), rfl⟩
      | _ => exact absurd rfl hsuffix
  | none =>
    cases l with
    | unexpected c =>
      rw [trivia_unexpected] at ht
      obtain rfl := List.mem_singleton.1 ht
      exact ⟨_, mem_errors_iff.2 .character, rfl⟩
    | _ => simp_all [trivia, payload?]

/-- An error about a comment is that of one that is left open. -/
theorem eq_blockComment_of_mem_errors (he : e ∈ l.errors r)
    (hk : e.kind = .unterminatedBlockComment) : ∃ run, l = .blockComment run false := by
  cases mem_errors_iff.1 he with
  | comment => exact ⟨_, rfl⟩
  | _ => simp at hk

end Lexeme

/-! ### What begins inside a lexeme -/

/-- Whether the span begins between two offsets. -/
def Span.beginsIn (start stop : Nat) (span : Span) : Bool :=
  decide (start ≤ span.start.offset) && decide (span.start.offset < stop)

theorem Span.beginsIn_iff {start stop : Nat} {span : Span} :
    span.beginsIn start stop = true ↔ start ≤ span.start.offset ∧ span.start.offset < stop := by
  rw [beginsIn, Bool.and_eq_true, decide_eq_true_eq, decide_eq_true_eq]

/-- **What lexemes leave begins inside them.** -/
def Lexeme.LeavesInside {α : Type} (f : Lexeme → Reader → List α) (span : α → Span) : Prop :=
  ∀ {l : Lexeme} {r : Reader}, read? r.rest = some l → ∀ x ∈ f l r,
    (span x).beginsIn r.position.offset (r.advanceBy l.chars.length).position.offset = true

namespace Lexeme

theorem leavesInside_errors : LeavesInside errors LexError.span := fun hl e he => by
  obtain ⟨hstart, hlt, hstop⟩ := bounds_of_mem_errors hl he
  exact Span.beginsIn_iff.2 ⟨hstart, Nat.lt_of_lt_of_le hlt hstop⟩

/-- The spans of tokens and trivia begin inside the lexeme that leaves them. -/
theorem beginsIn_of_mem_pieces {l : Lexeme} {r : Reader} (hl : read? r.rest = some l) {span : Span}
    (hspan : span ∈ l.pieces r) :
    span.beginsIn r.position.offset (r.advanceBy l.chars.length).position.offset = true := by
  obtain ⟨hstart, hlt, hstop⟩ := (tiles_pieces hl).bounds.2 span hspan
  exact Span.beginsIn_iff.2 ⟨hstart, Nat.lt_of_lt_of_le hlt hstop⟩

theorem leavesInside_tokens : LeavesInside tokens Token.span := fun hl _ ht =>
  beginsIn_of_mem_pieces hl (List.mem_append_left _ (List.mem_map_of_mem ht))

theorem leavesInside_trivia : LeavesInside trivia Trivia.span := fun hl _ ht =>
  beginsIn_of_mem_pieces hl (List.mem_append_right _ (List.mem_map_of_mem ht))

end Lexeme

namespace Reader

section Inside

variable {α : Type} {f : Lexeme → Reader → List α} {span : α → Span}

theorem offset_le_of_mem_ahead (hf : Lexeme.LeavesInside f span) {r : Reader} {x : α}
    (hx : x ∈ r.ahead f) : r.position.offset ≤ (span x).start.offset := by
  obtain ⟨l, r', hstep, hx⟩ := mem_ahead.1 hx
  obtain ⟨-, hl, n, rfl⟩ := of_mem_steps hstep
  exact Nat.le_trans (r.offset_le_advanceBy n) (Span.beginsIn_iff.1 (hf hl x hx)).1

/-- **What a lexeme leaves** is what begins inside it, of all that is left ahead. -/
theorem filter_ahead (hf : Lexeme.LeavesInside f span) {r r' : Reader} {l : Lexeme}
    (hstep : (l, r') ∈ r.steps) :
    (r.ahead f).filter (fun x => (span x).beginsIn r'.position.offset
      (r'.advanceBy l.chars.length).position.offset) = f l r' := by
  induction r using byLexemes with
  | atEnd r hr => simp [steps_of_rest_eq_nil hr] at hstep
  | lexeme r k hk ih =>
    rw [ahead_of_read? _ hk, List.filter_append]
    rw [steps_of_read? hk] at hstep
    rcases List.mem_cons.1 hstep with hhead | htail
    · obtain ⟨rfl, rfl⟩ := Prod.mk.inj hhead
      have hlater : ∀ x ∈ (r'.advanceBy l.chars.length).ahead f,
          ¬ (span x).beginsIn r'.position.offset
            (r'.advanceBy l.chars.length).position.offset = true := fun x hx => by
        have hstart := offset_le_of_mem_ahead hf hx
        rw [Span.beginsIn_iff]
        omega
      rw [List.filter_eq_self.2 (hf hk), List.filter_eq_nil_iff.2 hlater, List.append_nil]
    · obtain ⟨-, -, n, hn⟩ := of_mem_steps htail
      have hearlier : ∀ x ∈ f k r, ¬ (span x).beginsIn r'.position.offset
          (r'.advanceBy l.chars.length).position.offset = true := fun x hx => by
        have hlt := (Span.beginsIn_iff.1 (hf hk x hx)).2
        have hle := (r.advanceBy k.chars.length).offset_le_advanceBy n
        rw [← hn] at hle
        rw [Span.beginsIn_iff]
        omega
      rw [List.filter_eq_nil_iff.2 hearlier, List.nil_append, ih htail]

end Inside

end Reader

/-! ### Errors ahead -/

/-- Whether the error begins between two offsets. -/
def LexError.beginsIn (start stop : Nat) (e : LexError) : Bool :=
  decide (start ≤ e.span.start.offset) && decide (e.span.start.offset < stop)

namespace Reader

/-- **The errors ahead of a reader** are found in the order of detection. -/
theorem pairwise_ahead_precedes (r : Reader) :
    (r.ahead Lexeme.errors).Pairwise LexError.Precedes := by
  induction r using byLexemes with
  | atEnd r hr =>
    rw [ahead_of_rest_eq_nil _ hr]
    exact List.Pairwise.nil
  | lexeme r l hl ih =>
    rw [ahead_of_read? _ hl]
    refine List.pairwise_append.2 ⟨Lexeme.pairwise_errors hl, ih, fun e he f hf => Or.inl ?_⟩
    -- `f` is an error of a lexeme behind that of `e`
    obtain ⟨k, r', hstep, hf⟩ := mem_ahead.1 hf
    obtain ⟨-, hk, n, rfl⟩ := of_mem_steps hstep
    have hbehind := (r.advanceBy l.chars.length).offset_le_advanceBy n
    have he' := Lexeme.bounds_of_mem_errors hl he
    have hf' := Lexeme.bounds_of_mem_errors hk hf
    exact ⟨by omega, by omega⟩

/-- The errors ahead of a reader begin at different places. -/
theorem pairwise_ahead_errors (r : Reader) : (r.ahead Lexeme.errors).Pairwise
    fun e f => e.span.start.offset ≠ f.span.start.offset :=
  r.pairwise_ahead_precedes.imp LexError.Precedes.start_ne

/-- No error comes after that of a comment that is left open, which takes all of the text. -/
theorem pairwise_ahead_unterminatedBlockComment (r : Reader) :
    (r.ahead Lexeme.errors).Pairwise fun e _ => e.kind ≠ .unterminatedBlockComment := by
  induction r using byLexemes with
  | atEnd r hr =>
    rw [ahead_of_rest_eq_nil _ hr]
    exact List.Pairwise.nil
  | lexeme r l hl ih =>
    rw [ahead_of_read? _ hl]
    refine List.pairwise_append.2 ⟨?_, ih, fun e he f hf hk => ?_⟩
    · cases l with
      | blockComment run closed =>
        rw [Lexeme.errors_blockComment]
        split <;> simp
      | _ =>
        refine List.pairwise_of_forall_mem_list fun e he _ _ hk => ?_
        obtain ⟨run, hrun⟩ := Lexeme.eq_blockComment_of_mem_errors he hk
        simp at hrun
    · obtain ⟨run, rfl⟩ := Lexeme.eq_blockComment_of_mem_errors he hk
      have hall := Lexeme.chars_of_isOpen hl rfl
      rw [hall, ← toEnd, ahead_toEnd] at hf
      simp at hf

end Reader

/-- The errors of the unit that begin inside the span. -/
def Source.errorsWithin (s : Source) (span : Span) : List LexError :=
  s.errors.filter (LexError.beginsIn span.start.offset span.stop.offset)

/-- **The errors of a unit that begin inside a lexeme** are the errors of the lexeme. -/
theorem Source.errorsWithin_eq {s : Source} {l : Lexeme} {r : Reader}
    (hstep : (l, r) ∈ (Reader.ofSource s).steps) :
    s.errorsWithin (r.spanOver l.chars.length) = l.errors r := by
  rw [errorsWithin, errors_eq]
  exact Reader.filter_ahead Lexeme.leavesInside_errors hstep

/-- The errors over a span that begins with a lexeme are errors of the lexeme. -/
theorem Source.filter_errors_spanOver {s : Source} {l : Lexeme} {r : Reader}
    (hstep : (l, r) ∈ (Reader.ofSource s).steps) (n : Nat) :
    s.errors.filter (fun e => decide (e.span = r.spanOver n)) =
      (l.errors r).filter fun e => decide (e.span = r.spanOver n) := by
  obtain ⟨-, hl, -⟩ := Reader.of_mem_steps hstep
  have hpos := List.length_pos_iff.2 (Lexeme.chars_ne_nil_of_read? hl)
  have hrest := hpos.trans_le (Lexeme.isPrefix_chars_read? hl).length_le
  have hlt : r.position.offset < (r.advanceBy l.chars.length).position.offset :=
    Reader.offset_advanceBy_lt hpos hrest
  rw [← errorsWithin_eq hstep, errorsWithin, List.filter_filter]
  refine List.filter_congr fun e _ => ?_
  by_cases h : e.span = r.spanOver n
  · have hin : e.span.beginsIn r.position.offset
        (r.advanceBy l.chars.length).position.offset = true := by
      rw [h]
      exact Span.beginsIn_iff.2 ⟨Nat.le_refl _, hlt⟩
    rw [decide_eq_true h, Bool.true_and]
    exact hin.symm
  · rw [decide_eq_false h, Bool.false_and]

/-- An error over a span that begins with a lexeme is an error of the lexeme. -/
theorem Source.mem_errors_iff_of_span {s : Source} {l : Lexeme} {r : Reader} {e : LexError}
    {n : Nat} (hstep : (l, r) ∈ (Reader.ofSource s).steps) (hspan : e.span = r.spanOver n) :
    e ∈ s.errors ↔ e ∈ l.errors r := by
  have hfilter := congrArg (e ∈ ·) (filter_errors_spanOver hstep n)
  simpa [List.mem_filter, hspan] using hfilter

/-! ### Anchors -/

/-- Whether the token is a number. -/
def Token.IsNumber (t : Token) : Prop := t.kind = .integerLiteral ∨ t.kind = .floatLiteral

/-- The span begins behind the start of the token and ends with the token or before. -/
def Token.Encloses (t : Token) (span : Span) : Prop :=
  t.span.start.offset < span.start.offset ∧ span.stop.offset ≤ t.span.stop.offset

/-- **Where an error is anchored** among the tokens and the trivia of the unit. -/
def Source.Anchors (s : Source) (e : LexError) : Prop :=
  match e.kind with
  | .unexpectedCharacter =>
    (∃ c, s.slice? e.span = some [c]) ∧ ∃ t ∈ s.trivia, t.kind = .skipped ∧ t.span = e.span
  | .invalidNumericLiteral =>
    (∃ t ∈ s.tokens, t.IsNumber ∧ t.span = e.span) ∨
      ∃ t ∈ s.tokens, ∃ u ∈ s.trivia, t.IsNumber ∧ u.kind = .skipped ∧
        u.span.start = t.span.stop ∧ u.span = e.span
  | .unterminatedString => ∃ t ∈ s.tokens, t.kind = .stringLiteral ∧ t.span = e.span
  | .invalidEscapeSequence =>
    ∃! t, t ∈ s.tokens ∧ (∃ text value multiline, t.payload = .string text value false multiline) ∧
      t.Encloses e.span
  | .unterminatedBlockComment =>
    ∃ t ∈ s.trivia, t.kind = .blockComment ∧ t.span.stop.offset = s.size ∧ t.span = e.span

/-- The token of a number is one. -/
theorem Payload.kind_ofNumeral (n : Numeral) :
    (ofNumeral n).kind = .integerLiteral ∨ (ofNumeral n).kind = .floatLiteral := by
  unfold ofNumeral
  split
  · exact Or.inr rfl
  · exact Or.inl rfl

/-- In a raw literal nothing is an escape. -/
theorem QuoteForm.isMalformed_of_isRaw {f : QuoteForm} (hf : f.isRaw = true) {text : List Char}
    {u : QuoteUnit} (hu : u ∈ (f.readUnits text).1) : u.isMalformed = false := by
  fun_induction readUnits f text with
  | case1 => simp at hu
  | case2 => simp at hu
  | case3 text _ v hv units closed hread ih =>
    rcases List.mem_cons.1 hu with rfl | hu
    · cases text with
      | nil => simp [unit?] at hv
      | cons c cs =>
        simp only [unit?, hf] at hv
        split at hv
        · simp at hv
        · obtain rfl : QuoteUnit.plain c = u := by simpa using hv
          rfl
    · exact ih (by rw [hread]; exact hu)

namespace Lexeme

/-- The units of a literal are those of some content. -/
theorem exists_readUnits_of_read? {text : List Char} {literal : Quoted}
    (hl : read? text = some (.quoted literal)) :
    ∃ content, literal.form.readUnits content = (literal.units, literal.closed) := by
  obtain ⟨c, cs, rfl, -, rfl⟩ := quoted_of_read? hl
  exact ⟨_, rfl⟩

/-- A literal with a malformed escape is not raw. -/
theorem isRaw_of_isMalformed {text : List Char} {literal : Quoted} {u : QuoteUnit}
    (hl : read? text = some (.quoted literal)) (hu : u ∈ literal.units)
    (h : u.isMalformed = true) : literal.form.isRaw = false := by
  obtain ⟨content, hread⟩ := exists_readUnits_of_read? hl
  rw [← Bool.not_eq_true]
  intro hraw
  have hfine : u ∈ (literal.form.readUnits content).1 → u.isMalformed = false :=
    QuoteForm.isMalformed_of_isRaw hraw
  rw [hread] at hfine
  simp [hfine hu] at h

end Lexeme

namespace Source

variable {s : Source} {l : Lexeme} {r : Reader}

theorem mem_tokens_of_mem_steps {p : Payload} (hstep : (l, r) ∈ (Reader.ofSource s).steps)
    (hp : l.payload? = some p) : ⟨p, r.spanOver p.text.length⟩ ∈ s.tokens := by
  rw [tokens_eq]
  refine Reader.mem_ahead.2 ⟨l, r, hstep, ?_⟩
  rw [Lexeme.tokens_eq, hp]
  exact List.mem_singleton_self _

/-- What is not empty is enclosed by one token at most. -/
theorem eq_of_encloses {t u : Token} (ht : t ∈ s.tokens) (hu : u ∈ s.tokens) {span : Span}
    (hspan : span.start.offset < span.stop.offset) (htspan : t.Encloses span)
    (huspan : u.Encloses span) : t = u := by
  have hpair := List.pairwise_map.1 (s.tiles_pieces.pairwise.sublist s.tokens_sublist_pieces)
  -- of two tokens the one that comes first ends before what the other one encloses
  have happart : ∀ {t u : Token}, t.span.Before u.span → t.Encloses span → u.Encloses span →
      False := fun hb htspan huspan => by
    have hstop := hb.2
    have hleft := huspan.1
    have hright := htspan.2
    omega
  refine List.Pairwise.forall_of_forall_of_flip
    (R := fun t u : Token => t.Encloses span → u.Encloses span → t = u) (fun _ _ _ _ => rfl)
    (hpair.imp fun hb ht hu => (happart hb ht hu).elim)
    (hpair.imp fun hb ht hu => (happart hb hu ht).elim) ht hu htspan huspan

/-- A malformed escape is enclosed by the token of its literal, which is not raw. -/
theorem existsUnique_encloses {literal : Quoted} {before after : List QuoteUnit} {u : QuoteUnit}
    (hstep : (.quoted literal, r) ∈ (Reader.ofSource s).steps)
    (hunits : literal.units = before ++ u :: after) (hu : u.isMalformed = true) :
    ∃! t, t ∈ s.tokens ∧ (∃ text value multiline, t.payload = .string text value false multiline) ∧
      t.Encloses (((r.advanceBy literal.form.delimiter.length).advanceBy
        (before.flatMap QuoteUnit.chars).length).spanOver u.chars.length) := by
  obtain ⟨-, hl, -⟩ := Reader.of_mem_steps hstep
  obtain ⟨-, hspan, hstop⟩ := Lexeme.bounds_of_mem_errors hl
    (Lexeme.mem_errors_iff.2 (.escape hunits hu))
  have hraw : literal.form.isRaw = false :=
    Lexeme.isRaw_of_isMalformed hl (hunits ▸ List.mem_append_right _ List.mem_cons_self) hu
  have hdelim := List.length_pos_iff.2 literal.form.delimiter_ne_nil
  have hrest := (List.length_pos_iff.2 (Lexeme.chars_ne_nil_of_read? hl)).trans_le
    (Lexeme.isPrefix_chars_read? hl).length_le
  have hstart : r.position.offset < ((r.advanceBy literal.form.delimiter.length).advanceBy
      (before.flatMap QuoteUnit.chars).length).position.offset := by
    rw [← Reader.advanceBy_add]
    exact Reader.offset_advanceBy_lt (Nat.add_pos_left hdelim _) hrest
  have ht := mem_tokens_of_mem_steps hstep rfl
  refine ⟨_, ⟨ht, ⟨_, _, _, by rw [hraw]⟩, hstart, hstop⟩, fun t h => ?_⟩
  exact eq_of_encloses h.1 ht hspan h.2.2 ⟨hstart, hstop⟩

/-- **Every error is anchored** where its lexeme stands. -/
theorem anchors_of_mem_errors {e : LexError} (he : e ∈ s.errors) : s.Anchors e := by
  rw [errors_eq] at he
  obtain ⟨l, r, hstep, he⟩ := Reader.mem_ahead.1 he
  obtain ⟨-, hl, -⟩ := Reader.of_mem_steps hstep
  have hr : r.StandsIn s := (Reader.standsIn_ofSource s).of_mem_steps hstep
  have hmalformed := Lexeme.mem_errors_iff.1 he
  unfold Anchors
  cases hmalformed with
  | @overflow numeral suffix h =>
    have ht := mem_tokens_of_mem_steps hstep rfl
    rw [Payload.text_ofNumeral] at ht
    exact Or.inl ⟨_, ht, Payload.kind_ofNumeral numeral, rfl⟩
  | @attached numeral suffix h =>
    have ht := mem_tokens_of_mem_steps hstep rfl
    have hu := Lexeme.trivia_of_payload? (l := .number numeral suffix) rfl r
    rw [Lexeme.suffix, if_neg h] at hu
    rw [Payload.text_ofNumeral] at ht hu
    exact Or.inr ⟨_, ht, _, mem_trivia_of_mem_steps hstep (hu ▸ List.mem_singleton_self _),
      Payload.kind_ofNumeral numeral, rfl, rfl, rfl⟩
  | escape hunits h => exact existsUnique_encloses hstep hunits h
  | literal h => exact ⟨_, mem_tokens_of_mem_steps hstep rfl, rfl, rfl⟩
  | @comment run =>
    have hu := Lexeme.trivia_blockComment run false r
    have hall : run = r.rest := Lexeme.chars_of_isOpen hl rfl
    have hend : (r.advanceBy run.length).position.offset = s.size := by
      rw [hall]
      exact (hr.advanceBy _).offset_eq_size (Reader.rest_toEnd r)
    exact ⟨_, mem_trivia_of_mem_steps hstep (hu ▸ List.mem_singleton_self _), rfl, hend, rfl⟩
  | @character c =>
    have hu := Lexeme.trivia_unexpected c r
    exact ⟨⟨c, hr.slice? (Lexeme.chars_append_drop hl).symm⟩,
      _, mem_trivia_of_mem_steps hstep (hu ▸ List.mem_singleton_self _), rfl, rfl⟩

end Source

/-- What nothing comes after is the last, and there is one of it at most. -/
theorem countP_le_one_of_pairwise {α : Type} {p : α → Bool} {xs : List α}
    (h : xs.Pairwise fun x _ => p x = false) :
    xs.countP p ≤ 1 ∧ ∀ x ∈ xs, p x = true → xs.getLast? = some x := by
  induction xs with
  | nil => simp
  | cons x xs ih =>
    obtain ⟨hx, hxs⟩ := List.pairwise_cons.1 h
    obtain ⟨hcount, hlast⟩ := ih hxs
    cases xs with
    | nil =>
      refine ⟨List.countP_le_length, fun y hy _ => ?_⟩
      rw [List.mem_singleton.1 hy]
      rfl
    | cons y ys =>
      have hpx : p x = false := hx y List.mem_cons_self
      refine ⟨by rwa [List.countP_cons_of_neg (by simp [hpx])], fun z hz hpz => ?_⟩
      rw [List.getLast?_cons_cons]
      rcases List.mem_cons.1 hz with rfl | hz
      · simp [hpx] at hpz
      · exact hlast z hz hpz

/-- **Every error is anchored, and what is skipped is reported.**  After a complete
scan of a source unit

* every error is anchored among the tokens and the trivia as its kind demands;
* at most one error is that of a comment that is left open, and it is the last;
* what is skipped is the span of exactly one error;
* no two errors have the same span, and none of the spans is empty. -/
theorem errors_anchored (s : Source) :
    (∀ e ∈ s.errors, s.Anchors e) ∧
      (s.errors.countP (·.kind = .unterminatedBlockComment) ≤ 1 ∧
        ∀ e ∈ s.errors, e.kind = .unterminatedBlockComment → s.errors.getLast? = some e) ∧
      (∀ t ∈ s.trivia, t.kind = .skipped → (s.errors.map LexError.span).count t.span = 1) ∧
      (s.errors.map LexError.span).Nodup ∧ ∀ e ∈ s.errors, e.span.isEmpty = false := by
  have hnodup : (s.errors.map LexError.span).Nodup := by
    rw [Source.errors_eq]
    refine List.pairwise_map.2 ((Reader.ofSource s).pairwise_ahead_errors.imp ?_)
    intro e f hstart hspan
    exact hstart (congrArg (fun span => span.start.offset) hspan)
  have hlast : s.errors.Pairwise fun e _ =>
      decide (e.kind = .unterminatedBlockComment) = false := by
    rw [Source.errors_eq]
    exact (Reader.ofSource s).pairwise_ahead_unterminatedBlockComment.imp decide_eq_false
  obtain ⟨hcount, hlast⟩ := countP_le_one_of_pairwise hlast
  refine ⟨fun e he => Source.anchors_of_mem_errors he,
    ⟨hcount, fun e he hk => hlast e he (decide_eq_true hk)⟩, fun t ht hk => ?_, hnodup,
    fun e he => ?_⟩
  · rw [Source.trivia_eq] at ht
    obtain ⟨l, r, hstep, ht⟩ := Reader.mem_ahead.1 ht
    obtain ⟨e, he, hspan⟩ := Lexeme.exists_mem_errors_of_skipped ht hk
    refine List.nodup_iff_count_eq_one.1 hnodup _ (hspan ▸ List.mem_map_of_mem ?_)
    exact Source.mem_errors_of_mem_steps hstep he
  · rw [Source.errors_eq] at he
    obtain ⟨l, r, hstep, he⟩ := Reader.mem_ahead.1 he
    obtain ⟨-, hl, -⟩ := Reader.of_mem_steps hstep
    exact Span.isEmpty_eq_false_iff.2 (Lexeme.bounds_of_mem_errors hl he).2.1

end Lexis
