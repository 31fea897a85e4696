/-
# Scanning with other line ends

Whether the lines of a text end with line feeds, with carriage returns or with pairs
of both makes no difference to a scan (`scan_withLineEnd`).  The tokens, the trivia
and the errors of the two texts match one by one: they are of the same kind and begin
and end in the same lines and columns, and only in a multi-line string the value
shows which line ends there are.

Two readers are led over the two texts.  Over any run of characters they keep to the
same line and column (`Reader.Matches.advanceBy`), and so each lexeme leaves what
matches (`Lexeme.forall₂_tokens`, `Lexeme.forall₂_trivia`, `Lexeme.forall₂_errors`).
-/

import Lexis.Proofs.Composition
import Lexis.Proofs.LineEnds.Lexeme
import Mathlib.Data.List.Forall2

namespace Lexis

/-! ### Readers of the two texts -/

/-- The places have the same line and column. -/
def Position.Matches (p q : Position) : Prop := q.line = p.line ∧ q.column = p.column

/-- The spans begin and end in the same lines and columns. -/
def Span.Matches (s t : Span) : Prop := s.start.Matches t.start ∧ s.stop.Matches t.stop

/-- **A character leads to the same line and column** as it does with its line end
converted. -/
theorem Position.Matches.advance {p q : Position} (h : p.Matches q) (e : LineEnd) {c : Char}
    (hcr : c ≠ '\r') (next : Option Char) (cs : List Char) :
    (p.advance c next).Matches (q.advanceOver (e.convert [c]) (e.convert cs).head?) := by
  have hlf (x : Option Char) : endsLine '\n' x = true := rfl
  by_cases hc : c = '\n'
  · subst hc
    rw [e.convert_singleton]
    cases e with
    | carriageReturn =>
      have hends : endsLine '\r' (LineEnd.carriageReturn.convert cs).head? = true := by
        simp [endsLine, LineEnd.head?_convert_ne]
      simp only [Matches, LineEnd.chars, advanceOver, List.head?_nil, Option.none_or,
        Position.advance, hlf, hends, if_true, h.1, and_self]
    | pair =>
      have hends : endsLine '\r' (some '\n') = false := rfl
      simp only [Matches, LineEnd.chars, advanceOver, List.head?_cons, Option.some_or,
        Position.advance, hlf, hends, if_true, Bool.false_eq_true, if_false, h.1, and_self]
  · have hends (x : Option Char) : endsLine c x = false := by simp [endsLine, hc, hcr]
    rw [e.convert_eq_self (by simpa using Ne.symm hc)]
    simp only [Matches, advanceOver, Position.advance, hends, Bool.false_eq_true, if_false,
      h.1, h.2, and_self]

namespace Reader

/-- The reader `r'` stands where `r` does, in the text with its line ends converted. -/
structure Matches (e : LineEnd) (r r' : Reader) : Prop where
  /-- The line and the column are the same. -/
  position : r.position.Matches r'.position
  /-- The text ahead is the same but for the line ends. -/
  rest : r'.rest = e.convert r.rest
  /-- All lines ahead end with line feeds. -/
  noReturn : '\r' ∉ r.rest

variable {e : LineEnd} {r r' : Reader}

/-- **One character** leads both readers to the same line and column. -/
theorem Matches.advance (h : r.Matches e r') {c : Char} {cs : List Char} (hr : r.rest = c :: cs) :
    r.advance.Matches e (r'.advanceBy (e.convert [c]).length) := by
  have hr' : r'.rest = e.convert [c] ++ e.convert cs := by
    rw [h.rest, hr, ← e.convert_append]
    rfl
  have hnot := h.noReturn
  rw [hr, List.mem_cons, not_or] at hnot
  have hstep : r.advance = ⟨r.source, r.position.advance c cs.head?, cs⟩ := by
    simp only [Reader.advance, hr]
  rw [hstep, advanceBy_length hr']
  exact ⟨h.position.advance e (Ne.symm hnot.1) _ cs, rfl, hnot.2⟩

/-- **Over a run of characters** both readers keep to the same line and column. -/
theorem Matches.advanceBy (h : r.Matches e r') {run after : List Char}
    (hr : r.rest = run ++ after) :
    (r.advanceBy run.length).Matches e (r'.advanceBy (e.convert run).length) := by
  induction run generalizing r r' with
  | nil => exact h
  | cons c cs ih =>
    have hstep := h.advance hr
    have hcs : r.advance.rest = cs ++ after := by rw [rest_advance, hr]; rfl
    have hsplit : (e.convert (c :: cs)).length =
        (e.convert [c]).length + (e.convert cs).length := by
      rw [← List.length_append, ← e.convert_append]
      rfl
    rw [hsplit, advanceBy_add]
    exact ih hstep hcs

theorem Matches.spanOver (h : r.Matches e r') {run after : List Char}
    (hr : r.rest = run ++ after) :
    (r.spanOver run.length).Matches (r'.spanOver (e.convert run).length) :=
  ⟨h.position, (h.advanceBy hr).position⟩

theorem Matches.toEnd (h : r.Matches e r') : r.toEnd.Matches e r'.toEnd := by
  have hall := h.advanceBy (List.append_nil r.rest).symm
  rwa [← h.rest] at hall

end Reader

/-! ### What the lexemes leave -/

/-- **The tokens match:** they are of one kind, begin and end in the same lines and
columns, and have the same text but for the line ends.  Only a multi-line string has
another payload. -/
structure Token.Matches (e : LineEnd) (t t' : Token) : Prop where
  /-- The class is the same. -/
  kind : t'.kind = t.kind
  /-- The lines and columns of the ends are the same. -/
  span : t.span.Matches t'.span
  /-- The text is the same but for the line ends. -/
  text : t'.text = e.convert t.text
  /-- Both tokens are multi-line strings, or neither of them. -/
  multiline : t'.payload.isMultiline = t.payload.isMultiline
  /-- The data are the same unless the line ends belong to the value. -/
  payload : t.payload.isMultiline = false → t'.payload = t.payload

/-- The trivia are of one kind and begin and end in the same lines and columns. -/
structure Trivia.Matches (t t' : Trivia) : Prop where
  /-- The sort is the same. -/
  kind : t'.kind = t.kind
  /-- The lines and columns of the ends are the same. -/
  span : t.span.Matches t'.span

/-- The recovered token with its line ends converted. -/
def Recovered.convert (e : LineEnd) (t : Recovered) : Recovered :=
  { t with text := e.convert t.text }

theorem Recovered.convert_eq_self (e : LineEnd) {t : Recovered} (h : '\n' ∉ t.text) :
    t.convert e = t := by
  rw [Recovered.convert, e.convert_eq_self h]

/-- The errors are of one kind and begin and end in the same lines and columns, and the
token that is recovered has the same text but for the line ends. -/
structure LexError.Matches (e : LineEnd) (x x' : LexError) : Prop where
  /-- What is wrong is the same. -/
  kind : x'.kind = x.kind
  /-- The lines and columns of the ends are the same. -/
  span : x.span.Matches x'.span
  /-- The token made of it is the same but for the line ends. -/
  recovered : x'.recovered = x.recovered.map (Recovered.convert e)

namespace Lexeme

variable {e : LineEnd} {l l' : Lexeme} {r r' : Reader}

/-- **The tokens of a lexeme match.** -/
theorem forall₂_tokens (h : r.Matches e r') (hl : read? r.rest = some l) (hc : Converts e l l') :
    List.Forall₂ (Token.Matches e) (l.tokens r) (l'.tokens r') := by
  rw [tokens_eq, tokens_eq]
  cases hc with
  | same hlf =>
    cases hp : l.payload? with
    | none => exact .nil
    | some p =>
      rw [chars_of_payload? hp, List.mem_append, not_or] at hlf
      have hspan := h.spanOver (text_append_suffix hl hp)
      rw [e.convert_eq_self hlf.1] at hspan
      exact .cons ⟨rfl, hspan, (e.convert_eq_self hlf.1).symm, rfl, fun _ => rfl⟩ .nil
  | blanks => exact .nil
  | blockComment => exact .nil
  | @quoted f us us' closed hm hus =>
    have hchars := hus.chars_quoted f closed
    have hspan := h.spanOver (chars_append_drop hl).symm
    rw [chars, ← hchars] at hspan
    refine .cons ⟨rfl, hspan, hchars, rfl, fun hsingle => ?_⟩ .nil
    simp [Payload.isMultiline, hm] at hsingle

/-- **The trivia of a lexeme match.** -/
theorem forall₂_trivia (h : r.Matches e r') (hl : read? r.rest = some l) (hc : Converts e l l') :
    List.Forall₂ Trivia.Matches (l.trivia r) (l'.trivia r') := by
  have hspan := h.spanOver (chars_append_drop hl).symm
  rw [← hc.chars] at hspan
  cases hc with
  | same hlf =>
    cases hp : l.payload? with
    | none =>
      obtain ⟨kind, ht⟩ := trivia_of_payload?_eq_none hp
      rw [ht, ht]
      exact .cons ⟨rfl, hspan⟩ .nil
    | some p =>
      rw [chars_of_payload? hp, List.mem_append, not_or] at hlf
      have htext := text_append_suffix hl hp
      have hbehind := (h.advanceBy htext).spanOver (Reader.rest_advanceBy_length htext)
      rw [e.convert_eq_self hlf.1, e.convert_eq_self hlf.2] at hbehind
      rw [trivia_of_payload? hp, trivia_of_payload? hp]
      split
      · exact .nil
      · exact .cons ⟨rfl, hbehind⟩ .nil
  | blanks =>
    simp only [trivia, Reader.spanSince_advanceBy]
    exact .cons ⟨rfl, hspan⟩ .nil
  | blockComment =>
    rw [trivia_blockComment, trivia_blockComment]
    exact .cons ⟨rfl, hspan⟩ .nil
  | quoted _ _ => exact .nil

/-- Units that stand for themselves leave no errors. -/
theorem escapeErrors_map_plain_append (cs : List Char) (us : List QuoteUnit) (r : Reader) :
    escapeErrors (cs.map .plain ++ us) r = escapeErrors us (r.advanceBy cs.length) := by
  induction cs generalizing r with
  | nil => rfl
  | cons c cs ih =>
    rw [List.map_cons, List.cons_append, escapeErrors_cons, ih, List.length_cons, Nat.add_comm,
      Reader.advanceBy_add]
    rfl

/-- **The malformed escapes of a content match.** -/
theorem forall₂_escapeErrors {us us' : List QuoteUnit} (hus : QuoteUnit.Converts e us us')
    (h : r.Matches e r') {after : List Char} (hr : r.rest = us.flatMap QuoteUnit.chars ++ after) :
    List.Forall₂ (LexError.Matches e) (escapeErrors us r) (escapeErrors us' r') := by
  induction hus generalizing r r' with
  | nil => exact .nil
  | @same u us us' hlf _ ih =>
    rw [List.flatMap_cons, List.append_assoc] at hr
    have hspan := h.spanOver hr
    have hnext := h.advanceBy hr
    rw [e.convert_eq_self hlf] at hspan hnext
    rw [escapeErrors_cons, escapeErrors_cons]
    refine List.rel_append ?_ (ih hnext (Reader.rest_advanceBy_length hr))
    split
    · exact .cons ⟨rfl, hspan, rfl⟩ .nil
    · exact .nil
  | @lineFeed us us' _ ih =>
    rw [List.flatMap_cons, List.append_assoc] at hr
    have hnext := h.advanceBy hr
    rw [QuoteUnit.chars, e.convert_singleton] at hnext
    rw [escapeErrors_map_plain_append, escapeErrors_cons]
    exact ih hnext (Reader.rest_advanceBy_length hr)
  | @continuation us us' _ ih =>
    rw [List.flatMap_cons, List.append_assoc] at hr
    have hnext := h.advanceBy hr
    rw [QuoteUnit.convert_chars_continuation] at hnext
    rw [escapeErrors_cons, escapeErrors_cons]
    exact ih hnext (Reader.rest_advanceBy_length hr)

/-- The errors of a literal match. -/
theorem forall₂_errors_quoted {f : QuoteForm} {us us' : List QuoteUnit} {closed : Bool}
    (hus : QuoteUnit.Converts e us us') (h : r.Matches e r')
    (hl : read? r.rest = some (.quoted ⟨f, us, closed⟩)) :
    List.Forall₂ (LexError.Matches e) ((quoted ⟨f, us, closed⟩).errors r)
      ((quoted ⟨f, us', closed⟩).errors r') := by
  have hchars := hus.chars_quoted f closed
  have hr := (chars_append_drop hl).symm
  have hspan := h.spanOver hr
  rw [chars, ← hchars] at hspan
  simp only [chars, Quoted.chars, QuoteForm.body, List.append_assoc] at hr
  have hunits := h.advanceBy hr
  rw [f.convert_delimiter] at hunits
  have hescapes := forall₂_escapeErrors hus hunits (Reader.rest_advanceBy_length hr)
  rw [errors_quoted, errors_quoted]
  refine List.rel_append hescapes ?_
  cases closed with
  | true => exact .nil
  | false => exact .cons ⟨rfl, hspan, by rw [hchars]; rfl⟩ .nil

/-- The errors of a number match. -/
theorem forall₂_errors_number {numeral : Numeral} {suffix : List Char} (h : r.Matches e r')
    (hl : read? r.rest = some (.number numeral suffix))
    (hlf : '\n' ∉ (number numeral suffix).chars) :
    List.Forall₂ (LexError.Matches e) ((number numeral suffix).errors r)
      ((number numeral suffix).errors r') := by
  rw [chars, List.mem_append, not_or] at hlf
  have hr := (chars_append_drop hl).symm
  rw [chars, List.append_assoc] at hr
  have hspan := h.spanOver hr
  have hbehind := (h.advanceBy hr).spanOver (Reader.rest_advanceBy_length hr)
  rw [e.convert_eq_self hlf.1] at hspan hbehind
  rw [e.convert_eq_self hlf.2] at hbehind
  have hrecovered : some (Recovered.ofPayload (.ofNumeral numeral)) =
      (some (Recovered.ofPayload (.ofNumeral numeral))).map (Recovered.convert e) := by
    rw [Option.map_some, Recovered.convert_eq_self]
    rw [Recovered.ofPayload, Payload.text_ofNumeral]
    exact hlf.1
  rw [errors_number, errors_number]
  refine List.rel_append ?_ ?_
  · split
    · exact .cons ⟨rfl, hspan, hrecovered⟩ .nil
    · exact .nil
  · split
    · exact .nil
    · exact .cons ⟨rfl, hbehind, hrecovered⟩ .nil

/-- The errors of a comment match. -/
theorem forall₂_errors_blockComment {run run' : List Char} (closed : Bool)
    (hspan : (r.spanOver run.length).Matches (r'.spanOver run'.length)) :
    List.Forall₂ (LexError.Matches e) ((blockComment run closed).errors r)
      ((blockComment run' closed).errors r') := by
  rw [errors_blockComment, errors_blockComment]
  split
  · exact .nil
  · exact .cons ⟨rfl, hspan, rfl⟩ .nil

/-- **The errors of a lexeme match.** -/
theorem forall₂_errors (h : r.Matches e r') (hl : read? r.rest = some l) (hc : Converts e l l') :
    List.Forall₂ (LexError.Matches e) (l.errors r) (l'.errors r') := by
  have hspan := h.spanOver (chars_append_drop hl).symm
  rw [← hc.chars] at hspan
  cases hc with
  | same hlf =>
    cases l with
    | number numeral suffix => exact forall₂_errors_number h hl hlf
    | quoted literal =>
      refine forall₂_errors_quoted (QuoteUnit.converts_self e fun hmem => hlf ?_) h hl
      exact List.mem_append_right _ (List.mem_append_left _ hmem)
    | blockComment run closed => exact forall₂_errors_blockComment closed hspan
    | unexpected c =>
      rw [errors_unexpected, errors_unexpected]
      exact .cons ⟨rfl, hspan, rfl⟩ .nil
    | _ => exact .nil
  | blanks => exact .nil
  | blockComment => exact forall₂_errors_blockComment _ hspan
  | quoted _ hus => exact forall₂_errors_quoted hus h hl

end Lexeme

/-- **What is ahead of the two readers matches** if what each lexeme leaves does. -/
theorem Reader.Matches.forall₂_ahead {α : Type} {f : Lexeme → Reader → List α}
    {R : α → α → Prop} {e : LineEnd}
    (hf : ∀ {r r' : Reader} {l l' : Lexeme}, r.Matches e r' → Lexeme.read? r.rest = some l →
      Lexeme.Converts e l l' → List.Forall₂ R (f l r) (f l' r'))
    {r r' : Reader} (h : r.Matches e r') : List.Forall₂ R (r.ahead f) (r'.ahead f) := by
  induction r using byLexemes generalizing r' with
  | atEnd r hr =>
    have hr' : r'.rest = [] := by rw [h.rest, hr, e.convert_nil]
    rw [ahead_of_rest_eq_nil f hr, ahead_of_rest_eq_nil f hr']
    exact .nil
  | lexeme r l hl ih =>
    obtain ⟨l', hl', hc⟩ := Lexeme.exists_read?_convert e hl h.noReturn
    rw [← h.rest] at hl'
    have hnext := h.advanceBy (Lexeme.chars_append_drop hl).symm
    rw [← hc.chars] at hnext
    rw [ahead_of_read? f hl, ahead_of_read? f hl']
    exact List.rel_append (hf h hl hc) (ih hnext)

/-! ### Complete scans -/

namespace Source

/-- The unit with the line end in place of each line feed. -/
def withLineEnd (s : Source) (e : LineEnd) : Source := { s with text := e.convert s.text }

/-- A reader that has passed the text stands on its last line. -/
theorem line_toEnd (s : Source) : (Reader.ofSource s).toEnd.position.line = s.lineCount := by
  obtain ⟨front, line, -, -, hpos⟩ := exists_line_split s.text none
  have hall : (Reader.ofSource s).rest = s.text ++ [] := (List.append_nil s.text).symm
  have hend : (Reader.ofSource s).toEnd.position = Position.start.advanceOver s.text none :=
    congrArg Reader.position (Reader.advanceBy_length hall)
  have hbreaks := Line.breaks_append 0 s.text []
  rw [List.append_nil] at hbreaks
  rw [hend, hpos, lineCount, lineStarts, Line.starts_eq, hbreaks]
  simp [Line.breaks]

end Source

/-- **The kind of line ends makes no difference.**  If the lines of a unit end with line
feeds and any other line end takes their place, a complete scan leaves the same number of
tokens, of trivia and of errors, the end of the input included.  One by one they are of the
same kind and begin and end in the same lines and columns.  The text of a token has its
line ends converted, and its payload is the same unless it is a multi-line string.  The
number of lines is the same. -/
theorem scan_withLineEnd (e : LineEnd) {s : Source} (h : '\r' ∉ s.text) :
    List.Forall₂ (Token.Matches e) s.scan.1 (s.withLineEnd e).scan.1 ∧
      List.Forall₂ Trivia.Matches s.trivia (s.withLineEnd e).trivia ∧
      List.Forall₂ (LexError.Matches e) s.errors (s.withLineEnd e).errors ∧
      (s.withLineEnd e).lineCount = s.lineCount := by
  have hstart : (Reader.ofSource s).Matches e (Reader.ofSource (s.withLineEnd e)) :=
    ⟨⟨rfl, rfl⟩, rfl, h⟩
  have hend := hstart.toEnd.position
  refine ⟨?_, ?_, ?_, ?_⟩
  · rw [Source.scan_fst, Source.scan_fst, Source.tokens_eq, Source.tokens_eq]
    refine List.rel_append (hstart.forall₂_ahead Lexeme.forall₂_tokens) (.cons ?_ .nil)
    exact ⟨rfl, ⟨hend, hend⟩, rfl, rfl, fun _ => rfl⟩
  · rw [Source.trivia_eq, Source.trivia_eq]
    exact hstart.forall₂_ahead Lexeme.forall₂_trivia
  · rw [Source.errors_eq, Source.errors_eq]
    exact hstart.forall₂_ahead Lexeme.forall₂_errors
  · rw [← Source.line_toEnd, ← Source.line_toEnd, hend.1]

/-- A comment and a string go on over pairs of a carriage return and a line feed, and a
backslash joins two lines of the string. -/
theorem scan_withLineEnd_pair :
    '\r' ∉ (Source.ofString "a" "x /*\n*/ \"\"\"\\\n\n\"\"\" 1_\n").text ∧
      List.Forall₂ (Token.Matches .pair)
        (Source.ofString "a" "x /*\n*/ \"\"\"\\\n\n\"\"\" 1_\n").scan.1
        ((Source.ofString "a" "x /*\n*/ \"\"\"\\\n\n\"\"\" 1_\n").withLineEnd .pair).scan.1 ∧
      ((Source.ofString "a" "x /*\n*/ \"\"\"\\\n\n\"\"\" 1_\n").withLineEnd .pair).lineCount =
        5 := by
  have h : '\r' ∉ (Source.ofString "a" "x /*\n*/ \"\"\"\\\n\n\"\"\" 1_\n").text := by decide
  obtain ⟨htokens, -, -, hlines⟩ := scan_withLineEnd .pair h
  exact ⟨h, htokens, hlines.trans (by decide)⟩

end Lexis
