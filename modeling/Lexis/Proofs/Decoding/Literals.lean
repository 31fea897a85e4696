/-
# How string literals are decoded

The value of a literal is that of the units of its content, and its errors are those of the
units that denote nothing and, if it is left open, one more.  The units are found by decoding
the text behind the opening delimiter (`Decodes`), so nothing but the text and the form of
the literal decides where it ends, what it means and what is wrong with it
(`string_literals_decode`).

The errors of a literal are found among those of the whole text by the place where they
begin (`Source.errorsWithin_eq`).
-/

import Lexis.Proofs.Anchors
import Lexis.Proofs.Decoding.Units

namespace Lexis

/-! ### Errors of literals -/

/-- What is wrong, and from which byte to which. -/
def LexError.extent (e : LexError) : ErrorKind × Nat × Nat :=
  (e.kind, e.span.start.offset, e.span.stop.offset)

/-- The malformed ones among units that stand from the offset on, as errors. -/
def WrittenUnit.faults (offset : Nat) : List WrittenUnit → List (ErrorKind × Nat × Nat)
  | [] => []
  | u :: us =>
    (if u.malformed then
      [(.invalidEscapeSequence, offset, offset + Text.byteLength u.written)] else []) ++
    faults (offset + Text.byteLength u.written) us

/-- The errors of escapes are those of the malformed units. -/
theorem Lexeme.map_extent_escapeErrors {us : List QuoteUnit} {r : Reader} {after : List Char}
    (h : r.rest = us.flatMap QuoteUnit.chars ++ after) :
    (escapeErrors us r).map LexError.extent =
      WrittenUnit.faults r.position.offset (us.map QuoteUnit.spelled) := by
  induction us generalizing r with
  | nil => rfl
  | cons u us ih =>
    rw [List.flatMap_cons, List.append_assoc] at h
    have hstop := Reader.offset_advanceBy_length h
    rw [escapeErrors_cons, List.map_append, ih (Reader.rest_advanceBy_length h), hstop,
      List.map_cons, WrittenUnit.faults]
    congr 1
    cases hu : u.isMalformed with
    | false => simp [QuoteUnit.spelled, hu]
    | true => simp [QuoteUnit.spelled, hu, LexError.extent, Reader.spanOver, hstop]

namespace Quoted

/-- What a literal is read from: its delimiter, which tells its form, and its content. -/
theorem exists_content_read {c : Char} (hc : c = '\x22' ∨ c = '\x60') (text : List Char) :
    ∃ content, c :: text = (read c text).form.delimiter ++ content ∧
      (read c text).form.readUnits content = ((read c text).units, (read c text).closed) ∧
      (read c text).form.quote.char = c ∧
      (read c text).form.multiline = [c, c].isPrefixOf text := by
  have hquote := char_quoteOf hc
  cases hpair : [c, c].isPrefixOf text with
  | true =>
    obtain ⟨content, rfl⟩ := List.isPrefixOf_iff_prefix.1 hpair
    rw [read_of_multiline hpair]
    refine ⟨content, ?_, rfl, hquote, rfl⟩
    simp [QuoteForm.delimiter, hquote]
  | false =>
    rw [read_of_singleLine hpair]
    refine ⟨text, ?_, rfl, hquote, rfl⟩
    simp [QuoteForm.delimiter, hquote]

end Quoted

/-- **How a literal of the unit is decoded:** its form, the units of its content, and whether
it is closed by its delimiter. -/
structure Source.DecodesLiteral (s : Source) (t : Token) (f : QuoteForm)
    (units : List WrittenUnit) (closed : Bool) : Prop where
  /-- The literal stands at its span. -/
  stands : ∃ before content after, s.text = before ++ (t.text ++ after) ∧
    t.span.start.offset = Text.byteLength before ∧
    t.span.stop.offset = Text.byteLength (before ++ t.text) ∧
    -- what follows its delimiter is decoded as these units, and as no others
    t.text ++ after = f.delimiter ++ content ∧ Decodes f content units closed after ∧
    ∀ units' closed' after', Decodes f content units' closed' after' →
      units' = units ∧ closed' = closed ∧ after' = after
  /-- Its value is that of the units. -/
  payload : t.payload = .string t.text (units.flatMap WrittenUnit.content) f.isRaw f.multiline
  /-- It is multi-line if it begins with three delimiters. -/
  multiline : f.multiline = true ↔ ∃ q : Quote, List.replicate 3 q.char <+: t.text
  /-- It is raw if its delimiter is the backtick. -/
  raw : f.isRaw = true ↔ t.text.head? = some '\x60'
  /-- The errors that begin inside it are those of the malformed units, and one more if it is
  left open. -/
  errors : (s.errorsWithin t.span).map LexError.extent =
    WrittenUnit.faults (t.span.start.offset + Text.byteLength f.delimiter) units ++
      if closed then [] else [(.unterminatedString, t.span.start.offset, t.span.stop.offset)]

/-- A token that is a literal is made of one. -/
theorem Lexeme.exists_quoted_of_kind {l : Lexeme} {p : Payload} (hp : l.payload? = some p)
    (hkind : p.kind = .stringLiteral) :
    ∃ literal, l = .quoted literal ∧
      p = .string literal.chars literal.value literal.form.isRaw literal.form.multiline := by
  cases p with
  | string text value raw multiline =>
    obtain ⟨literal, rfl, rfl, rfl, rfl, rfl⟩ := makes_of_payload? hp
    exact ⟨literal, rfl, rfl⟩
  | _ => simp [Payload.kind] at hkind

namespace Quoted

variable {c : Char} {text : List Char}

/-- A literal begins with three delimiters only if it is multi-line. -/
theorem multiline_read_iff (hc : c = '\x22' ∨ c = '\x60') :
    (read c text).form.multiline = true ↔
      ∃ q : Quote, List.replicate 3 q.char <+: (read c text).chars := by
  obtain ⟨content, -, -, hquote, hmultiline⟩ := exists_content_read hc text
  constructor
  · intro hm
    refine ⟨(read c text).form.quote, ?_⟩
    have hdelimiter : (read c text).form.delimiter =
        List.replicate 3 (read c text).form.quote.char := by
      rw [QuoteForm.delimiter, if_pos hm]
    rw [chars, hdelimiter]
    exact List.prefix_append _ _
  · rintro ⟨q, hq⟩
    obtain ⟨rest, hrest⟩ := hq.trans (isPrefix_chars_read hc text)
    obtain ⟨rfl, htext⟩ := List.cons.inj hrest
    rw [hmultiline, List.isPrefixOf_iff_prefix]
    exact ⟨rest, htext⟩

theorem isRaw_read_iff :
    (read c text).form.isRaw = true ↔ (read c text).chars.head? = some '\x60' := by
  have hhead : (read c text).chars.head? = some (read c text).form.quote.char := by
    rw [chars, QuoteForm.delimiter_eq_cons]
    rfl
  rw [hhead, QuoteForm.isRaw]
  cases (read c text).form.quote <;> decide

end Quoted

/-- **The errors of a literal** are those of its malformed units, and one more if it is left
open. -/
theorem Lexeme.map_extent_errors_quoted {literal : Quoted} {r : Reader}
    (hl : read? r.rest = some (.quoted literal)) :
    ((quoted literal).errors r).map LexError.extent =
      WrittenUnit.faults (r.position.offset + Text.byteLength literal.form.delimiter)
          (literal.units.map QuoteUnit.spelled) ++
        if literal.closed then [] else [(.unterminatedString, r.position.offset,
          (r.advanceBy literal.chars.length).position.offset)] := by
  have htext := (chars_append_drop hl).symm
  simp only [chars, Quoted.chars, QuoteForm.body, List.append_assoc] at htext
  rw [errors_quoted, List.map_append, map_extent_escapeErrors (Reader.rest_advanceBy_length htext),
    Reader.offset_advanceBy_length htext]
  cases literal.closed <;> rfl

/-- **String literals are decoded as their units say.**  Every literal that a scan finds is

* multi-line exactly if it begins with three delimiters, and raw exactly if with a backtick;
* cut into units from its delimiter on, up to the first place between two units where the
  delimiter stands again, or where a literal of its form cannot go on.

Its value is that of the units one after the other.  Of the errors of the whole text, those
that begin inside it are one for each escape that denotes nothing, at its place, and then one
over the whole literal if it is left open. -/
theorem string_literals_decode (s : Source) {t : Token} (ht : t ∈ s.tokens)
    (hkind : t.kind = .stringLiteral) :
    ∃ f units closed, s.DecodesLiteral t f units closed := by
  obtain ⟨l, r, p, hstep, hl, ⟨rfl, before, hread⟩, hp, rfl⟩ := Source.exists_step_of_mem_tokens ht
  obtain ⟨literal, rfl, rfl⟩ := Lexeme.exists_quoted_of_kind hp hkind
  obtain ⟨c, cs, hrest, hc, hliteral⟩ := Lexeme.quoted_of_read? hl
  obtain ⟨content, hcontent, hunits, -, -⟩ := Quoted.exists_content_read hc cs
  rw [← hliteral, ← hrest] at hcontent
  rw [← hliteral] at hunits
  obtain ⟨after, hafter⟩ : ∃ after, r.rest = literal.chars ++ after :=
    ⟨_, (Lexeme.chars_append_drop hl).symm⟩
  have hrow : content = literal.form.body literal.units literal.closed ++ after := by
    rw [hcontent, Quoted.chars, List.append_assoc] at hafter
    exact List.append_cancel_left hafter
  have hdecodes : Decodes literal.form content (literal.units.map QuoteUnit.spelled)
      literal.closed after := decodes_iff.2 ⟨literal.units, hunits, rfl, hrow⟩
  refine ⟨literal.form, literal.units.map QuoteUnit.spelled, literal.closed, ?_, ?_, ?_, ?_, ?_⟩
  · refine ⟨before, content, after, hread.text.trans (by rw [hafter]; rfl), hread.offset, ?_,
      hafter.symm.trans hcontent, hdecodes, fun _ _ _ => hdecodes.unique⟩
    rw [Text.byteLength_append, ← hread.offset]
    exact Reader.offset_advanceBy_length hafter
  · rw [QuoteUnit.flatMap_content]
    rfl
  · exact hliteral ▸ Quoted.multiline_read_iff hc
  · exact hliteral ▸ Quoted.isRaw_read_iff
  · exact (congrArg _ (Source.errorsWithin_eq hstep)).trans (Lexeme.map_extent_errors_quoted hl)

/-- Of the two escapes of an open literal one denotes a character, and the other one has too
few digits and is kept as it is written. -/
theorem string_literals_decode_open :
    (Scan.ofSource (Source.ofString "a" "\"\\65\\x4")).next.1 ∈
        (Source.ofString "a" "\"\\65\\x4").tokens ∧
      (Scan.ofSource (Source.ofString "a" "\"\\65\\x4")).next.1.payload =
        .string "\"\\65\\x4".toList "A\\x4".toList false false ∧
      ∃ f units closed, (Source.ofString "a" "\"\\65\\x4").DecodesLiteral
        (Scan.ofSource (Source.ofString "a" "\"\\65\\x4")).next.1 f units closed :=
  ⟨by decide +kernel, by decide +kernel,
    string_literals_decode _ (by decide +kernel) (by decide +kernel)⟩

end Lexis
