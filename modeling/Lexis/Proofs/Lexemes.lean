/-
# A scan by its lexemes

The text of a source unit is a row of lexemes (`lexemes`), and each of them
leaves tokens, errors and trivia that depend on the lexeme and the reader
before it alone.  `Reader.ahead` puts what the lexemes before a reader leave
one after the other.

A request of a scan takes some lexemes off the row (`Reader.ahead_seek`), so
that a complete scan answers with what the whole row leaves (`Source.scan_eq`).
All statements about complete scans are proved along the row, with
`Reader.byLexemes`.
-/

import Lexis.Proofs.Positions
import Lexis.Scan
import Mathlib.Data.List.Basic

namespace Lexis

/-- The lexemes that a text is cut into. -/
def lexemes (text : List Char) : List Lexeme :=
  match _h : Lexeme.read? text with
  | none => []
  | some l => l :: lexemes (text.drop l.chars.length)
termination_by text.length
decreasing_by
  have hl := List.length_pos_iff.2 (Lexeme.chars_ne_nil_of_read? _h)
  have ht := (Lexeme.isPrefix_chars_read? _h).length_le
  rw [List.length_drop]
  omega

@[simp] theorem lexemes_nil : lexemes [] = [] := by rw [lexemes]; rfl

theorem lexemes_of_read? {text : List Char} {l : Lexeme} (h : Lexeme.read? text = some l) :
    lexemes text = l :: lexemes (text.drop l.chars.length) := by
  rw [lexemes]
  split
  · simp_all
  · rename_i k hk
    obtain rfl : l = k := Option.some.inj (h.symm.trans hk)
    rfl

/-- The first lexeme of a text is the one at its head. -/
theorem head?_lexemes (text : List Char) : (lexemes text).head? = Lexeme.read? text := by
  cases h : Lexeme.read? text with
  | none => rw [Lexeme.read?_eq_none_iff.1 h, lexemes_nil]; rfl
  | some l => rw [lexemes_of_read? h]; rfl

/-- Every lexeme of a text stands at the head of some text. -/
theorem exists_read?_of_mem_lexemes {text : List Char} {l : Lexeme} (h : l ∈ lexemes text) :
    ∃ after, Lexeme.read? after = some l := by
  fun_induction lexemes text with
  | case1 => simp at h
  | case2 text k hk ih =>
    rcases List.mem_cons.1 h with rfl | h
    · exact ⟨text, hk⟩
    · exact ih h

namespace Lexeme

/-- The text is its first lexeme and what is left to read. -/
theorem chars_append_drop {text : List Char} {l : Lexeme} (h : read? text = some l) :
    l.chars ++ text.drop l.chars.length = text :=
  List.prefix_iff_eq_append.1 (isPrefix_chars_read? h)

/-- What a lexeme is read from: its first character and the kind of what begins
there. -/
theorem exists_opening_of_read? {text : List Char} {l : Lexeme} (h : read? text = some l) :
    ∃ c cs, text = c :: cs ∧
      (Opening.ofChars (some c) cs.head? = .blanks ∧ l = .blanks (c :: cs.takeWhile isBlank) ∨
        ∃ kind, Opening.ofChars (some c) cs.head? = .lexeme kind ∧ l = ofKind kind c cs) := by
  cases text with
  | nil => simp [read?] at h
  | cons c cs =>
    refine ⟨c, cs, rfl, ?_⟩
    simp only [read?] at h
    split at h
    · rename_i hb
      exact Or.inl ⟨hb, (Option.some.inj h).symm⟩
    · rename_i kind hk
      exact Or.inr ⟨kind, hk, (Option.some.inj h).symm⟩
    · simp at h

/-- A blank begins a run of blanks. -/
theorem read?_of_isBlank {c : Char} (h : isBlank c = true) (cs : List Char) :
    read? (c :: cs) = some (.blanks (c :: cs.takeWhile isBlank)) := by
  simp only [read?, Opening.ofChars, h, if_true]

/-- A symbol is an operator, the punctuation that its character is, or unexpected. -/
theorem readSymbol_cases (c : Char) (cs : List Char) :
    (∃ o, readSymbol c cs = .operator o) ∨
      (∃ p, readSymbol c cs = .punctuation p ∧ p.char = c) ∨ readSymbol c cs = .unexpected c := by
  unfold readSymbol
  split
  · exact Or.inl ⟨_, rfl⟩
  · split
    · rename_i p hp
      exact Or.inr (Or.inl ⟨p, rfl, Punctuation.ofChar?_eq_some_iff.1 hp⟩)
    · exact Or.inr (Or.inr rfl)

/-- An operator is read where it is the longest one. -/
theorem readSymbol_eq_operator_iff {c : Char} {cs : List Char} {o : Operator} :
    readSymbol c cs = .operator o ↔ Operator.longest? (c :: cs) = some o := by
  unfold readSymbol
  split
  · simp_all
  · split <;> simp_all

/-- Punctuation is read where no operator stands. -/
theorem readSymbol_eq_punctuation_iff {c : Char} {cs : List Char} {p : Punctuation} :
    readSymbol c cs = .punctuation p ↔ Operator.longest? (c :: cs) = none ∧ p.char = c := by
  rw [← Punctuation.ofChar?_eq_some_iff]
  unfold readSymbol
  split
  · simp_all
  · split <;> simp_all

/-- A character is unexpected where neither an operator nor punctuation stands. -/
theorem readSymbol_eq_unexpected_iff {c d : Char} {cs : List Char} :
    readSymbol c cs = .unexpected d ↔
      Operator.longest? (c :: cs) = none ∧ Punctuation.ofChar? c = none ∧ c = d := by
  unfold readSymbol
  split
  · simp_all
  · split <;> simp_all

/-- The sort of the lexeme; a run of blanks has none. -/
def kind? : Lexeme → Option LexemeKind
  | .blanks _ => none
  | .word _ => some .word
  | .number .. => some .number
  | .quoted _ => some .string
  | .lineComment _ => some .lineComment
  | .blockComment .. => some .blockComment
  | .operator _ | .punctuation _ | .unexpected _ => some .symbol

@[simp] theorem kind?_ofKind (kind : LexemeKind) (c : Char) (cs : List Char) :
    (ofKind kind c cs).kind? = some kind := by
  cases kind with
  | symbol => rcases readSymbol_cases c cs with ⟨o, h⟩ | ⟨p, h, -⟩ | h <;> rw [ofKind, h] <;> rfl
  | _ => rfl

/-- **A lexeme of a sort is read where one of the sort begins.** -/
theorem exists_opening_of_kind? {text : List Char} {l : Lexeme} {kind : LexemeKind}
    (h : read? text = some l) (hkind : l.kind? = some kind) :
    ∃ c cs, text = c :: cs ∧ Opening.ofChars (some c) cs.head? = .lexeme kind ∧
      l = ofKind kind c cs := by
  obtain ⟨c, cs, rfl, ⟨-, rfl⟩ | ⟨kind', hk, rfl⟩⟩ := exists_opening_of_read? h
  · simp [kind?] at hkind
  · obtain rfl : kind' = kind := by simpa using hkind
    exact ⟨c, cs, rfl, hk, rfl⟩

/-- A number is read where a digit stands: the numeral and then its suffix. -/
theorem number_of_read? {text : List Char} {numeral : Numeral} {suffix : List Char}
    (h : read? text = some (.number numeral suffix)) :
    (∃ c cs, text = c :: cs ∧ isDecimalDigit c = true) ∧ numeral = Numeral.read text ∧
      suffix = Numeral.malformedSuffix (text.drop numeral.chars.length) := by
  obtain ⟨c, cs, rfl, hk, hl⟩ := exists_opening_of_kind? h rfl
  obtain ⟨rfl, rfl⟩ := Lexeme.number.inj hl
  exact ⟨⟨c, cs, rfl, Opening.isDecimalDigit_of_number hk⟩, rfl, rfl⟩

/-- A literal is read where its delimiter stands. -/
theorem quoted_of_read? {text : List Char} {literal : Quoted}
    (h : read? text = some (.quoted literal)) :
    ∃ c cs, text = c :: cs ∧ (c = '\x22' ∨ c = '\x60') ∧ literal = Quoted.read c cs := by
  obtain ⟨c, cs, rfl, hk, hl⟩ := exists_opening_of_kind? h rfl
  exact ⟨c, cs, rfl, Opening.isQuote_of_string hk, Lexeme.quoted.inj hl⟩

/-- **The lexeme that makes a token,** by the class of the token. -/
def Makes (l : Lexeme) : Payload → Prop
  | .identifier _ | .keyword _ => ∃ run, l = .word run
  | .integer text radix value => ∃ numeral suffix, l = .number numeral suffix ∧
    .integer text radix value = Payload.ofNumeral numeral
  | .float text value => ∃ numeral suffix, l = .number numeral suffix ∧
    .float text value = Payload.ofNumeral numeral
  | .string text value raw multiline => ∃ literal, l = .quoted literal ∧ text = literal.chars ∧
    value = literal.value ∧ raw = literal.form.isRaw ∧ multiline = literal.form.multiline
  | .operator o => l = .operator o
  | .punctuation p => l = .punctuation p
  | .endOfInput => False

theorem makes_of_payload? {l : Lexeme} {p : Payload} (h : l.payload? = some p) : l.Makes p := by
  cases l with
  | word run =>
    obtain rfl := Option.some.inj h
    unfold Payload.ofWord
    split <;> exact ⟨run, rfl⟩
  | number numeral suffix =>
    obtain rfl := Option.some.inj h
    cases hp : Payload.ofNumeral numeral with
    | integer text radix value => exact ⟨numeral, suffix, rfl, hp.symm⟩
    | float text value => exact ⟨numeral, suffix, rfl, hp.symm⟩
    | _ => unfold Payload.ofNumeral at hp; split at hp <;> simp at hp
  | quoted literal => obtain rfl := Option.some.inj h; exact ⟨literal, rfl, rfl, rfl, rfl, rfl⟩
  | operator o => obtain rfl := Option.some.inj h; rfl
  | punctuation p => obtain rfl := Option.some.inj h; rfl
  | _ => simp [payload?] at h

/-- What the lexeme consumes beyond its token. -/
def suffix : Lexeme → List Char
  | .number _ suffix => suffix
  | _ => []

/-- A lexeme that makes a token consists of the text of the token and a suffix. -/
theorem chars_of_payload? {l : Lexeme} {p : Payload} (h : l.payload? = some p) :
    l.chars = p.text ++ l.suffix := by
  cases l with
  | word run => obtain rfl := Option.some.inj h; simp [chars, suffix]
  | number numeral suffix => obtain rfl := Option.some.inj h; simp [chars, Lexeme.suffix]
  | quoted literal => obtain rfl := Option.some.inj h; simp [chars, suffix, Payload.text]
  | operator o => obtain rfl := Option.some.inj h; simp [chars, suffix, Payload.text]
  | punctuation p => obtain rfl := Option.some.inj h; simp [chars, suffix, Payload.text]
  | _ => simp [payload?] at h

/-- Where a token is made, the text is that of the token, the suffix and the rest. -/
theorem text_append_suffix {text : List Char} {l : Lexeme} {p : Payload} (hl : read? text = some l)
    (hp : l.payload? = some p) : text = p.text ++ (l.suffix ++ text.drop l.chars.length) := by
  rw [← List.append_assoc, ← chars_of_payload? hp]
  exact (chars_append_drop hl).symm

/-- A token has at least one character. -/
theorem text_payload?_ne_nil {text : List Char} {l : Lexeme} {p : Payload}
    (h : read? text = some l) (hp : l.payload? = some p) : p.text ≠ [] := by
  cases l with
  | number numeral suffix =>
    obtain ⟨⟨c, cs, rfl, hc⟩, rfl, -⟩ := number_of_read? h
    obtain rfl := Option.some.inj hp
    rw [Payload.text_ofNumeral]
    exact Numeral.chars_read_ne_nil hc cs
  | _ =>
    have hl := chars_of_payload? hp
    simp only [suffix, List.append_nil] at hl
    exact hl ▸ chars_ne_nil_of_read? h

/-- The token of the lexeme before the reader, as a list. -/
def tokens (l : Lexeme) (r : Reader) : List Token := (l.token? r).toList

theorem tokens_eq (l : Lexeme) (r : Reader) :
    l.tokens r = (l.payload?.map fun p => ⟨p, r.spanOver p.text.length⟩).toList := by
  simp only [tokens, token?, Reader.spanSince_advanceBy]

/-- After its token a lexeme leaves its suffix, if there is one. -/
theorem trivia_of_payload? {l : Lexeme} {p : Payload} (h : l.payload? = some p) (r : Reader) :
    l.trivia r = if l.suffix = [] then []
      else [⟨.skipped, (r.advanceBy p.text.length).spanOver l.suffix.length⟩] := by
  cases l with
  | number numeral suffix =>
    obtain rfl := Option.some.inj h
    rw [Payload.text_ofNumeral, Lexeme.suffix, ← Reader.spanSince_advanceBy, ← Reader.advanceBy_add,
      ← List.length_append]
    rfl
  | word run => rfl
  | quoted literal => rfl
  | operator o => rfl
  | punctuation p => rfl
  | _ => simp [payload?] at h

/-- A lexeme that makes no token is trivia as a whole. -/
theorem trivia_of_payload?_eq_none {l : Lexeme} (h : l.payload? = none) :
    ∃ kind, ∀ r, l.trivia r = [⟨kind, r.spanOver l.chars.length⟩] := by
  cases l with
  | blanks run => exact ⟨.whitespace, by simp [trivia]⟩
  | lineComment run => exact ⟨.lineComment, by simp [trivia]⟩
  | blockComment run closed => exact ⟨.blockComment, by simp [trivia]⟩
  | unexpected c => exact ⟨.skipped, by simp [trivia]⟩
  | _ => simp [payload?] at h

theorem trivia_blockComment (run : List Char) (closed : Bool) (r : Reader) :
    (blockComment run closed).trivia r = [⟨.blockComment, r.spanOver run.length⟩] := by
  simp only [trivia, chars, Reader.spanSince_advanceBy]

theorem trivia_unexpected (c : Char) (r : Reader) :
    (unexpected c).trivia r = [⟨.skipped, r.spanOver 1⟩] := by
  simp only [trivia, chars, Reader.spanSince_advanceBy, List.length_singleton]

/-- Either error of a number names the token that is made of it. -/
theorem errors_number (numeral : Numeral) (suffix : List Char) (r : Reader) :
    (number numeral suffix).errors r =
      (if numeral.overflows then [⟨.invalidNumericLiteral, r.spanOver numeral.chars.length,
        some (Recovered.ofPayload (.ofNumeral numeral))⟩] else []) ++
      (if suffix = [] then [] else [⟨.invalidNumericLiteral,
        (r.advanceBy numeral.chars.length).spanOver suffix.length,
        some (Recovered.ofPayload (.ofNumeral numeral))⟩]) := by
  simp only [errors, chars, List.length_append, Reader.advanceBy_add, Reader.spanSince_advanceBy,
    Recovered.ofPayload_ofNumeral]

theorem errors_quoted (literal : Quoted) (r : Reader) :
    (quoted literal).errors r =
      escapeErrors literal.units (r.advanceBy literal.form.delimiter.length) ++
      (if literal.closed then [] else [⟨.unterminatedString,
        r.spanOver literal.chars.length, some ⟨.stringLiteral, literal.chars⟩⟩]) := by
  simp only [errors, chars, Reader.spanSince_advanceBy]

theorem errors_blockComment (run : List Char) (closed : Bool) (r : Reader) :
    (blockComment run closed).errors r =
      if closed then [] else [⟨.unterminatedBlockComment, r.spanOver run.length, none⟩] := by
  simp only [errors, chars, Reader.spanSince_advanceBy]

theorem errors_unexpected (c : Char) (r : Reader) :
    (unexpected c).errors r = [⟨.unexpectedCharacter, r.spanOver 1, none⟩] := by
  simp only [errors, chars, Reader.spanSince_advanceBy, List.length_singleton]

theorem escapeErrors_cons (u : QuoteUnit) (units : List QuoteUnit) (r : Reader) :
    escapeErrors (u :: units) r =
      (if u.isMalformed then [⟨.invalidEscapeSequence, r.spanOver u.chars.length, none⟩] else []) ++
        escapeErrors units (r.advanceBy u.chars.length) := by
  simp only [escapeErrors, Reader.spanSince_advanceBy]
  split <;> rfl

/-- A malformed escape is an error at the place where its unit stands. -/
theorem mem_escapeErrors_iff {units : List QuoteUnit} {r : Reader} {e : LexError} :
    e ∈ escapeErrors units r ↔ ∃ before u after, units = before ++ u :: after ∧
      u.isMalformed = true ∧ e = ⟨.invalidEscapeSequence,
        (r.advanceBy (before.flatMap QuoteUnit.chars).length).spanOver u.chars.length, none⟩ := by
  induction units generalizing r with
  | nil => simp [escapeErrors]
  | cons v units ih =>
    rw [escapeErrors_cons, List.mem_append, ih]
    constructor
    · rintro (h | ⟨before, u, after, rfl, hu, rfl⟩)
      · split at h
        · rename_i hv
          exact ⟨[], v, units, rfl, hv, List.mem_singleton.1 h⟩
        · simp at h
      · refine ⟨v :: before, u, after, rfl, hu, ?_⟩
        rw [List.flatMap_cons, List.length_append, Reader.advanceBy_add]
    · rintro ⟨before, u, after, hsplit, hu, rfl⟩
      cases before with
      | nil =>
        obtain ⟨rfl, rfl⟩ := List.cons.inj hsplit
        refine Or.inl ?_
        rw [if_pos hu]
        exact List.mem_singleton.2 rfl
      | cons w before =>
        obtain ⟨rfl, rfl⟩ := List.cons.inj hsplit
        refine Or.inr ⟨before, u, after, rfl, hu, ?_⟩
        rw [List.flatMap_cons, List.length_append, Reader.advanceBy_add]

/-- The ways in which the lexeme before a reader can be malformed, and the error
that each of them is. -/
inductive Malformed (r : Reader) : Lexeme → LexError → Prop
  /-- The value of a number is too great. -/
  | overflow {numeral suffix} (h : numeral.overflows = true) :
    Malformed r (.number numeral suffix) ⟨.invalidNumericLiteral, r.spanOver numeral.chars.length,
      some (Recovered.ofPayload (.ofNumeral numeral))⟩
  /-- Something is attached to a number. -/
  | attached {numeral suffix} (h : suffix ≠ []) :
    Malformed r (.number numeral suffix) ⟨.invalidNumericLiteral,
      (r.advanceBy numeral.chars.length).spanOver suffix.length,
      some (Recovered.ofPayload (.ofNumeral numeral))⟩
  /-- An escape in a literal denotes nothing. -/
  | escape {literal before u after} (hunits : literal.units = before ++ u :: after)
      (h : u.isMalformed = true) :
    Malformed r (.quoted literal) ⟨.invalidEscapeSequence,
      ((r.advanceBy literal.form.delimiter.length).advanceBy
        (before.flatMap QuoteUnit.chars).length).spanOver u.chars.length, none⟩
  /-- A literal is left open. -/
  | literal {literal} (h : literal.closed = false) :
    Malformed r (.quoted literal) ⟨.unterminatedString, r.spanOver literal.chars.length,
      some ⟨.stringLiteral, literal.chars⟩⟩
  /-- A comment is left open. -/
  | comment {run} :
    Malformed r (.blockComment run false) ⟨.unterminatedBlockComment, r.spanOver run.length, none⟩
  /-- A character begins nothing. -/
  | character {c} : Malformed r (.unexpected c) ⟨.unexpectedCharacter, r.spanOver 1, none⟩

/-- **The errors of a lexeme** are the ways in which it is malformed. -/
theorem mem_errors_iff {l : Lexeme} {r : Reader} {e : LexError} :
    e ∈ l.errors r ↔ Malformed r l e := by
  constructor
  · intro h
    cases l with
    | number numeral suffix =>
      rw [errors_number, List.mem_append] at h
      rcases h with h | h <;> split at h
      · obtain rfl := List.mem_singleton.1 h
        exact .overflow ‹_›
      · simp at h
      · simp at h
      · obtain rfl := List.mem_singleton.1 h
        exact .attached ‹_›
    | quoted literal =>
      rw [errors_quoted, List.mem_append, mem_escapeErrors_iff] at h
      rcases h with ⟨before, u, after, hunits, hu, rfl⟩ | h
      · exact .escape hunits hu
      · split at h
        · simp at h
        · rename_i hclosed
          obtain rfl := List.mem_singleton.1 h
          exact .literal (by simpa using hclosed)
    | blockComment run closed =>
      rw [errors_blockComment] at h
      cases closed with
      | true => simp at h
      | false =>
        obtain rfl := List.mem_singleton.1 h
        exact .comment
    | unexpected c =>
      rw [errors_unexpected] at h
      obtain rfl := List.mem_singleton.1 h
      exact .character
    | _ => simp [errors] at h
  · intro h
    cases h with
    | overflow h => simp [errors_number, h]
    | attached h => simp [errors_number, h]
    | escape hunits h =>
      rw [errors_quoted, List.mem_append, mem_escapeErrors_iff]
      exact Or.inl ⟨_, _, _, hunits, h, rfl⟩
    | literal h => simp [errors_quoted, h]
    | comment => simp [errors_blockComment]
    | character => simp [errors_unexpected]

/-- Lexemes that stand before a reader one after the other, each with the reader
before it. -/
def placed : List Lexeme → Reader → List (Lexeme × Reader)
  | [], _ => []
  | l :: ls, r => (l, r) :: placed ls (r.advanceBy l.chars.length)

/-- The token of a lexeme is not the end of the input. -/
theorem isEnd_of_token? {l : Lexeme} {r : Reader} {t : Token} (h : l.token? r = some t) :
    t.isEnd = false := by
  obtain ⟨p, hp, rfl⟩ := Option.map_eq_some_iff.1 h
  cases p with
  | endOfInput => exact (makes_of_payload? hp).elim
  | _ => rfl

end Lexeme

namespace Reader

/-- The reader at the end of the text. -/
def toEnd (r : Reader) : Reader := r.advanceBy r.rest.length

theorem toEnd_eq_self {r : Reader} (h : r.rest = []) : r.toEnd = r := by
  rw [toEnd, h]; rfl

@[simp] theorem rest_toEnd (r : Reader) : r.toEnd.rest = [] := by
  rw [toEnd, rest_advanceBy, List.drop_length]

theorem toEnd_advanceBy {r : Reader} {n : Nat} (h : n ≤ r.rest.length) :
    (r.advanceBy n).toEnd = r.toEnd := by
  rw [toEnd, toEnd, rest_advanceBy, List.length_drop, ← advanceBy_add, Nat.add_sub_cancel' h]

theorem toEnd_of_read? {r : Reader} {l : Lexeme} (h : Lexeme.read? r.rest = some l) :
    (r.advanceBy l.chars.length).toEnd = r.toEnd :=
  toEnd_advanceBy (Lexeme.isPrefix_chars_read? h).length_le

/-- To prove a property of all readers, take the end of the text and the step
over a lexeme. -/
@[elab_as_elim]
theorem byLexemes {motive : Reader → Prop} (atEnd : ∀ r : Reader, r.rest = [] → motive r)
    (lexeme : ∀ (r : Reader) (l : Lexeme), Lexeme.read? r.rest = some l →
      motive (r.advanceBy l.chars.length) → motive r) (r : Reader) : motive r := by
  induction hn : r.rest.length using Nat.strongRecOn generalizing r with
  | ind n ih =>
    cases h : Lexeme.read? r.rest with
    | none => exact atEnd r (Lexeme.read?_eq_none_iff.1 h)
    | some l => exact lexeme r l h (ih _ (hn ▸ length_rest_advanceBy_lt h) _ rfl)

/-- The lexemes before the reader up to the end of the text, each with the reader
before it. -/
def steps (r : Reader) : List (Lexeme × Reader) := Lexeme.placed (lexemes r.rest) r

theorem steps_of_rest_eq_nil {r : Reader} (h : r.rest = []) : r.steps = [] := by
  rw [steps, h, lexemes_nil]; rfl

theorem steps_of_read? {r : Reader} {l : Lexeme} (h : Lexeme.read? r.rest = some l) :
    r.steps = (l, r) :: (r.advanceBy l.chars.length).steps := by
  rw [steps, lexemes_of_read? h, Lexeme.placed, steps, rest_advanceBy]

/-- A step is made from a reader ahead, over the lexeme there. -/
theorem of_mem_steps {r r' : Reader} {l : Lexeme} (h : (l, r') ∈ r.steps) :
    l ∈ lexemes r.rest ∧ Lexeme.read? r'.rest = some l ∧ ∃ n, r' = r.advanceBy n := by
  induction r using byLexemes with
  | atEnd r hr => simp [steps_of_rest_eq_nil hr] at h
  | lexeme r k hk ih =>
    rw [steps_of_read? hk] at h
    rw [lexemes_of_read? hk]
    rcases List.mem_cons.1 h with h | h
    · obtain ⟨rfl, rfl⟩ := Prod.mk.inj h
      exact ⟨List.mem_cons_self, hk, 0, rfl⟩
    · obtain ⟨hmem, hread, n, rfl⟩ := ih h
      rw [rest_advanceBy] at hmem
      exact ⟨List.mem_cons_of_mem _ hmem, hread, _, (advanceBy_add _ n r).symm⟩

theorem map_fst_steps (r : Reader) : r.steps.map Prod.fst = lexemes r.rest := by
  induction r using byLexemes with
  | atEnd r hr => rw [steps_of_rest_eq_nil hr, hr, lexemes_nil]; rfl
  | lexeme r l hl ih =>
    rw [steps_of_read? hl, lexemes_of_read? hl, List.map_cons, ih, rest_advanceBy]

/-- What the lexemes before the reader leave, up to the end of the text. -/
def ahead {α : Type} (f : Lexeme → Reader → List α) (r : Reader) : List α :=
  r.steps.flatMap fun step => f step.1 step.2

section Ahead

variable {α : Type} (f : Lexeme → Reader → List α) {r : Reader}

theorem ahead_of_rest_eq_nil (h : r.rest = []) : r.ahead f = [] := by
  rw [ahead, steps_of_rest_eq_nil h]; rfl

@[simp] theorem ahead_toEnd : r.toEnd.ahead f = [] := ahead_of_rest_eq_nil f r.rest_toEnd

theorem ahead_of_read? {l : Lexeme} (h : Lexeme.read? r.rest = some l) :
    r.ahead f = f l r ++ (r.advanceBy l.chars.length).ahead f := by
  rw [ahead, steps_of_read? h, List.flatMap_cons, ahead]

variable {f}

theorem mem_ahead {x : α} : x ∈ r.ahead f ↔ ∃ l r', (l, r') ∈ r.steps ∧ x ∈ f l r' := by
  rw [ahead, List.mem_flatMap, Prod.exists]

/-- What does not depend on the place follows from the lexemes of the text. -/
theorem ahead_eq_flatMap {g : Lexeme → List α} (h : ∀ l r, f l r = g l) (r : Reader) :
    r.ahead f = (lexemes r.rest).flatMap g := by
  simp only [ahead, h, ← map_fst_steps, List.flatMap_map]

end Ahead

/-- At the end of the text a request finds the end of the input. -/
theorem seek_of_rest_eq_nil {r : Reader} (h : r.rest = []) :
    r.seek = ⟨Token.endOfInput r.position, [], [], r, .between⟩ := by
  rw [seek]
  split
  · rfl
  · rename_i l hl
    rw [h] at hl
    simp [Lexeme.read?] at hl

/-- A request finds the token of the lexeme before the reader, if it makes one. -/
theorem seek_of_token? {r : Reader} {l : Lexeme} {t : Token}
    (hl : Lexeme.read? r.rest = some l) (ht : l.token? r = some t) :
    r.seek = ⟨t, l.errors r, l.trivia r, r.advanceBy l.chars.length, .between⟩ := by
  rw [seek]
  split
  · simp_all
  · rename_i k hk
    obtain rfl : l = k := Option.some.inj (hl.symm.trans hk)
    rw [ht]

/-- A request goes on over a lexeme that makes no token. -/
theorem seek_of_token?_eq_none {r : Reader} {l : Lexeme}
    (hl : Lexeme.read? r.rest = some l) (ht : l.token? r = none) :
    r.seek = (r.advanceBy l.chars.length).seek.after l r := by
  rw [seek]
  split
  · simp_all
  · rename_i k hk
    obtain rfl : l = k := Option.some.inj (hl.symm.trans hk)
    rw [ht]

/-- **A request takes lexemes off the row.**  What it answers with and what is
ahead of the reader it leads to are what was ahead, and the end is the same. -/
theorem ahead_seek (r : Reader) :
    r.ahead Lexeme.tokens =
        (if r.seek.token.isEnd then [] else [r.seek.token]) ++
          r.seek.reader.ahead Lexeme.tokens ∧
      r.ahead Lexeme.errors = r.seek.errors ++ r.seek.reader.ahead Lexeme.errors ∧
      r.ahead Lexeme.trivia = r.seek.trivia ++ r.seek.reader.ahead Lexeme.trivia ∧
      r.seek.reader.toEnd = r.toEnd := by
  fun_induction Reader.seek r with
  | case1 r h => simp
  | case2 r l hl t ht =>
    simp only [ahead_of_read? _ hl, Lexeme.tokens, ht, Lexeme.isEnd_of_token? ht,
      toEnd_of_read? hl]
    simp
  | case3 r l hl ht ih =>
    obtain ⟨htokens, herrors, htrivia, hend⟩ := ih
    simp only [ahead_of_read? _ hl, Lexeme.tokens, ht, Found.after, Option.toList_none,
      List.nil_append, List.append_assoc]
    exact ⟨htokens, by rw [herrors], by rw [htrivia], by rw [hend, toEnd_of_read? hl]⟩

/-- A request that is answered with the end of the input has reached it. -/
theorem seek_of_isEnd {r : Reader} (h : r.seek.token.isEnd = true) :
    r.seek.token = Token.endOfInput r.toEnd.position ∧ r.seek.reader = r.toEnd := by
  fun_induction Reader.seek r with
  | case1 r hr =>
    have hend := toEnd_eq_self (Lexeme.read?_eq_none_iff.1 hr)
    exact ⟨by rw [hend], hend.symm⟩
  | case2 r l hl t ht => rw [Lexeme.isEnd_of_token? ht] at h; simp at h
  | case3 r l hl ht ih => rw [← toEnd_of_read? hl]; exact ih h

@[simp] theorem mode_seek (r : Reader) : r.seek.mode = .between := by
  fun_induction Reader.seek r with
  | case1 => rfl
  | case2 => rfl
  | case3 r l hl ht ih => exact ih

end Reader

namespace Scan

theorem next_of_not_finished {s : Scan} (h : s.finished = false) :
    s.next = (s.reader.seek.token, s.record s.reader.seek) := by
  rw [next, h]; rfl

theorem run_of_isEnd {s : Scan} (h : s.next.1.isEnd = true) : s.run = ([s.next.1], s.next.2) := by
  rw [run]
  split
  rename_i t s' hs
  rw [hs] at h ⊢
  exact dif_pos h

theorem run_of_not_isEnd {s : Scan} (h : s.next.1.isEnd = false) :
    s.run = (s.next.1 :: s.next.2.run.1, s.next.2.run.2) := by
  rw [run]
  split
  rename_i t s' hs
  rw [hs] at h ⊢
  exact dif_neg (by simp [h])

/-- **A scan that runs to its end** answers with what the lexemes ahead of it
leave, added to what it has. -/
theorem run_eq {s : Scan} (h : s.finished = false) :
    s.run = (s.reader.ahead Lexeme.tokens ++ [Token.endOfInput s.reader.toEnd.position],
      ⟨s.reader.toEnd, .between, s.errors ++ s.reader.ahead Lexeme.errors,
        s.trivia ++ s.reader.ahead Lexeme.trivia, true⟩) := by
  induction hn : s.reader.rest.length using Nat.strongRecOn generalizing s with
  | ind n ih =>
    have hnext := next_of_not_finished h
    obtain ⟨htokens, herrors, htrivia, hend⟩ := s.reader.ahead_seek
    cases ht : s.reader.seek.token.isEnd with
    | true =>
      obtain ⟨htoken, hreader⟩ := Reader.seek_of_isEnd ht
      rw [run_of_isEnd (by rw [hnext]; exact ht), hnext, htokens, herrors, htrivia, ht]
      simp [record, htoken, hreader]
    | false =>
      have hlt := length_rest_next_lt (s := s) (by rw [hnext]; exact ht)
      rw [run_of_not_isEnd (by rw [hnext]; exact ht)]
      rw [ih _ (hn ▸ hlt) (by rw [hnext]; exact ht) rfl, hnext, htokens, herrors, htrivia, ht]
      simp [record, hend]

end Scan

namespace Source

/-- The tokens of a source unit, the end of the input left out. -/
def tokens (s : Source) : List Token := s.scan.1.filter fun t => !t.isEnd

/-- The errors of a source unit, in the order of detection. -/
def errors (s : Source) : List LexError := s.scan.2.errors

/-- The trivia of a source unit. -/
def trivia (s : Source) : List Trivia := s.scan.2.trivia

/-- **A complete scan** leaves what the lexemes of the text leave, and then the
end of the input. -/
theorem scan_eq (s : Source) :
    s.scan = ((Reader.ofSource s).ahead Lexeme.tokens ++
        [Token.endOfInput (Reader.ofSource s).toEnd.position],
      ⟨(Reader.ofSource s).toEnd, .between, (Reader.ofSource s).ahead Lexeme.errors,
        (Reader.ofSource s).ahead Lexeme.trivia, true⟩) :=
  Scan.run_eq rfl

theorem tokens_eq (s : Source) : s.tokens = (Reader.ofSource s).ahead Lexeme.tokens := by
  have hkeep : ∀ t ∈ (Reader.ofSource s).ahead Lexeme.tokens, (!t.isEnd) = true := by
    intro t ht
    obtain ⟨l, r, -, ht⟩ := Reader.mem_ahead.1 ht
    rw [Lexeme.isEnd_of_token? (Option.mem_toList.1 ht)]
    rfl
  rw [tokens, scan_eq, List.filter_append, List.filter_eq_self.2 hkeep]
  simp

/-- The payloads of the tokens are those of the lexemes. -/
theorem map_payload_tokens (s : Source) :
    s.tokens.map Token.payload = (lexemes s.text).filterMap Lexeme.payload? := by
  have hpayload : ∀ (l : Lexeme) (r : Reader),
      (l.tokens r).map Token.payload = l.payload?.toList := fun l r => by
    rw [Lexeme.tokens_eq]
    cases l.payload? <;> rfl
  rw [tokens_eq, Reader.ahead, List.map_flatMap, List.filterMap_eq_flatMap_toList]
  exact Reader.ahead_eq_flatMap hpayload (Reader.ofSource s)

theorem errors_eq (s : Source) : s.errors = (Reader.ofSource s).ahead Lexeme.errors := by
  rw [errors, scan_eq]

theorem trivia_eq (s : Source) : s.trivia = (Reader.ofSource s).ahead Lexeme.trivia := by
  rw [trivia, scan_eq]

theorem mem_errors_of_mem_steps {s : Source} {l : Lexeme} {r : Reader} {e : LexError}
    (hstep : (l, r) ∈ (Reader.ofSource s).steps) (he : e ∈ l.errors r) : e ∈ s.errors :=
  s.errors_eq ▸ Reader.mem_ahead.2 ⟨l, r, hstep, he⟩

theorem mem_trivia_of_mem_steps {s : Source} {l : Lexeme} {r : Reader} {t : Trivia}
    (hstep : (l, r) ∈ (Reader.ofSource s).steps) (ht : t ∈ l.trivia r) : t ∈ s.trivia :=
  s.trivia_eq ▸ Reader.mem_ahead.2 ⟨l, r, hstep, ht⟩

/-- The end of the input comes last, and once. -/
theorem scan_fst (s : Source) :
    s.scan.1 = s.tokens ++ [Token.endOfInput (Reader.ofSource s).toEnd.position] := by
  rw [tokens_eq, scan_eq]

end Source

end Lexis
