/-
# Lexemes

A lexeme is one bite of the text: a run of blanks, a word, a number with what
is wrongly attached to it, a string literal, a comment, an operator, a
punctuation character, or a character that has no place in a text.  Which one
begins at a place is decided by the next two characters; what it consumes is
decided by the text after them, and never by what came before.

From a lexeme and the reader before it follow the token, the trivia and
the errors that it leaves after.

The main lemmas are `Lexeme.read?_eq_none_iff`, that only the empty text has no
lexeme, `Lexeme.isPrefix_chars_read?`, that a lexeme is a front of the text, and
`Lexeme.chars_ne_nil_of_read?`, that it consumes something.
-/

import Lexis.Comment
import Lexis.LexError
import Lexis.Quoted.Basic
import Lexis.Source.Reader
import Lexis.Trivia

namespace Lexis

/-- The sorts of lexemes. -/
inductive LexemeKind
  | word | number | string | lineComment | blockComment | symbol
deriving DecidableEq, Repr

/-- All sorts, in their order. -/
def LexemeKind.all : List LexemeKind :=
  [.word, .number, .string, .lineComment, .blockComment, .symbol]

/-- What begins at a place of the text. -/
inductive Opening
  /-- A run of blanks. -/
  | blanks
  /-- A lexeme of a sort. -/
  | lexeme (kind : LexemeKind)
  /-- Nothing, at the end of the text. -/
  | nothing
deriving DecidableEq, Repr

/-- What the next two characters of the text begin. -/
def Opening.ofChars (first second : Option Char) : Opening :=
  match first with
  | none => .nothing
  | some c =>
    if isBlank c then .blanks
    else if isWordStart c then .lexeme .word
    else if isDecimalDigit c then .lexeme .number
    else if c = '\x22' ∨ c = '\x60' then .lexeme .string
    else if c = '/' ∧ second = some '/' then .lexeme .lineComment
    else if c = '/' ∧ second = some '*' then .lexeme .blockComment
    else .lexeme .symbol

/-- One bite of the text. -/
inductive Lexeme
  /-- A run of blanks. -/
  | blanks (run : List Char)
  /-- A run of word characters. -/
  | word (run : List Char)
  /-- A numeral and the malformed characters attached to it. -/
  | number (numeral : Numeral) (suffix : List Char)
  /-- A string literal. -/
  | quoted (literal : Quoted)
  /-- A comment up to the end of its line. -/
  | lineComment (run : List Char)
  /-- A comment between marks, and whether it is closed. -/
  | blockComment (run : List Char) (closed : Bool)
  /-- An operator. -/
  | operator (o : Operator)
  /-- A punctuation character. -/
  | punctuation (p : Punctuation)
  /-- A character that begins nothing. -/
  | unexpected (c : Char)
deriving DecidableEq, Repr

namespace Lexeme

/-- The characters that the lexeme consumes. -/
def chars : Lexeme → List Char
  | .blanks run => run
  | .word run => run
  | .number numeral suffix => numeral.chars ++ suffix
  | .quoted literal => literal.chars
  | .lineComment run => run
  | .blockComment run _ => run
  | .operator o => o.chars
  | .punctuation p => [p.char]
  | .unexpected c => [c]

/-- The number that begins the text `c :: cs`, where `c` is a digit. -/
def readNumber (c : Char) (cs : List Char) : Lexeme :=
  let numeral := Numeral.read (c :: cs)
  .number numeral (Numeral.malformedSuffix ((c :: cs).drop numeral.chars.length))

/-- The block comment that begins the text `c :: cs`, where an opening mark stands. -/
def readBlockComment (c : Char) (cs : List Char) : Lexeme :=
  let (run, closed) := Comment.blockRun 1 (cs.drop 1)
  .blockComment (c :: cs.take 1 ++ run) closed

/-- The operator, the punctuation or the unexpected character that begins the
text `c :: cs`. -/
def readSymbol (c : Char) (cs : List Char) : Lexeme :=
  match Operator.longest? (c :: cs) with
  | some o => .operator o
  | none =>
    match Punctuation.ofChar? c with
    | some p => .punctuation p
    | none => .unexpected c

/-- The lexeme of a sort that begins the text `c :: cs`. -/
def ofKind (kind : LexemeKind) (c : Char) (cs : List Char) : Lexeme :=
  match kind with
  | .word => .word (c :: cs.takeWhile isWordChar)
  | .number => readNumber c cs
  | .string => .quoted (Quoted.read c cs)
  | .lineComment => .lineComment (c :: Comment.lineRun cs)
  | .blockComment => readBlockComment c cs
  | .symbol => readSymbol c cs

/-- The lexeme at the head of the text; there is none at its end. -/
def read? : List Char → Option Lexeme
  | [] => none
  | c :: cs =>
    match Opening.ofChars (some c) cs.head? with
    | .blanks => some (.blanks (c :: cs.takeWhile isBlank))
    | .lexeme kind => some (ofKind kind c cs)
    | .nothing => none

/-- The payload of the token that the lexeme makes, if it makes one. -/
def payload? : Lexeme → Option Payload
  | .word run => some (.ofWord run)
  | .number numeral _ => some (.ofNumeral numeral)
  | .quoted literal =>
    some (.string literal.chars literal.value literal.form.isRaw literal.form.multiline)
  | .operator o => some (.operator o)
  | .punctuation p => some (.punctuation p)
  | .blanks _ | .lineComment _ | .blockComment .. | .unexpected _ => none

/-- The token that the lexeme before the reader makes, if it makes one. -/
def token? (l : Lexeme) (r : Reader) : Option Token :=
  l.payload?.map fun p => ⟨p, (r.advanceBy p.text.length).spanSince r.position⟩

/-- The trivia that the lexeme before the reader leaves. -/
def trivia (l : Lexeme) (r : Reader) : List Trivia :=
  let stop := r.advanceBy l.chars.length
  match l with
  | .blanks _ => [⟨.whitespace, stop.spanSince r.position⟩]
  | .lineComment _ => [⟨.lineComment, stop.spanSince r.position⟩]
  | .blockComment .. => [⟨.blockComment, stop.spanSince r.position⟩]
  | .unexpected _ => [⟨.skipped, stop.spanSince r.position⟩]
  | .number numeral suffix =>
    if suffix = [] then []
    else [⟨.skipped, stop.spanSince (r.advanceBy numeral.chars.length).position⟩]
  | .word _ | .quoted _ | .operator _ | .punctuation _ => []

/-- The errors of the malformed escapes among units that stand before the reader. -/
def escapeErrors : List QuoteUnit → Reader → List LexError
  | [], _ => []
  | u :: units, r =>
    let stop := r.advanceBy u.chars.length
    if u.isMalformed then
      ⟨.invalidEscapeSequence, stop.spanSince r.position, none⟩ :: escapeErrors units stop
    else escapeErrors units stop

/-- The errors of the lexeme before the reader, in the order of detection. -/
def errors (l : Lexeme) (r : Reader) : List LexError :=
  let stop := r.advanceBy l.chars.length
  let whole := stop.spanSince r.position
  match l with
  | .number numeral suffix =>
    let after := r.advanceBy numeral.chars.length
    let kind : TokenKind := if numeral.isFloat then .floatLiteral else .integerLiteral
    (if numeral.overflows then
      [⟨.invalidNumericLiteral, after.spanSince r.position, some ⟨kind, numeral.chars⟩⟩]
      else []) ++
    -- what is attached names the token that it is attached to
    (if suffix = [] then []
      else [⟨.invalidNumericLiteral, stop.spanSince after.position,
        some (Recovered.ofPayload (.ofNumeral numeral))⟩])
  | .quoted literal =>
    escapeErrors literal.units (r.advanceBy literal.form.delimiter.length) ++
    (if literal.closed then []
      else [⟨.unterminatedString, whole, some ⟨.stringLiteral, literal.chars⟩⟩])
  | .blockComment _ closed =>
    if closed then [] else [⟨.unterminatedBlockComment, whole, none⟩]
  | .unexpected _ => [⟨.unexpectedCharacter, whole, none⟩]
  | .blanks _ | .word _ | .lineComment _ | .operator _ | .punctuation _ => []

end Lexeme

/-- Before the end of the text something begins. -/
theorem Opening.ofChars_some_ne_nothing (c : Char) (second : Option Char) :
    Opening.ofChars (some c) second ≠ .nothing := by
  simp only [Opening.ofChars]
  repeat' split
  all_goals simp

/-- A number begins only at a digit. -/
theorem Opening.isDecimalDigit_of_number {c : Char} {second : Option Char}
    (h : Opening.ofChars (some c) second = .lexeme .number) : isDecimalDigit c = true := by
  simp only [Opening.ofChars] at h
  repeat' split at h
  all_goals first | assumption | simp at h

/-- A string literal begins only at a delimiter. -/
theorem Opening.isQuote_of_string {c : Char} {second : Option Char}
    (h : Opening.ofChars (some c) second = .lexeme .string) : c = '\x22' ∨ c = '\x60' := by
  simp only [Opening.ofChars] at h
  repeat' split at h
  all_goals first | assumption | simp at h

namespace Numeral

/-- What begins with a digit has a numeral of at least one character. -/
theorem chars_read_ne_nil {c : Char} (h : isDecimalDigit c = true) (cs : List Char) :
    (read (c :: cs)).chars ≠ [] := by
  unfold read
  cases hm : marked? (c :: cs) with
  | none =>
    simp only [Option.getD_none, readDecimal, chars]
    rw [digitRun_cons_of_isDigit (r := .decimal) h]
    simp
  | some n =>
    simp only [Option.getD_some]
    unfold marked? at hm
    split at hm
    · split at hm
      · obtain ⟨r, hr, hm⟩ := Option.bind_eq_some_iff.1 hm
        obtain ⟨run, -, rfl⟩ := Option.map_eq_some_iff.1 hm
        simp [chars, Radix.mark_of_ofMark? hr]
      · simp at hm
    · simp at hm

end Numeral

namespace Lexeme

/-- A text has no lexeme at its head only if it is empty. -/
theorem read?_eq_none_iff {text : List Char} : read? text = none ↔ text = [] := by
  cases text with
  | nil => simp [read?]
  | cons c cs =>
    have := Opening.ofChars_some_ne_nothing c cs.head?
    simp only [read?]
    split <;> simp_all

/-- A lexeme of the sort that begins has at least one character. -/
theorem chars_ofKind_ne_nil {kind : LexemeKind} {c : Char} {cs : List Char}
    (h : Opening.ofChars (some c) cs.head? = .lexeme kind) :
    (ofKind kind c cs).chars ≠ [] := by
  cases kind with
  | word => simp [ofKind, chars]
  | number =>
    have hd := Opening.isDecimalDigit_of_number h
    simp [ofKind, readNumber, chars, Numeral.chars_read_ne_nil hd]
  | string =>
    have : ∀ f : QuoteForm, f.delimiter ≠ [] := by
      intro f; cases hf : f.multiline <;> simp [QuoteForm.delimiter, hf]
    simp [ofKind, chars, Quoted.chars, this]
  | lineComment => simp [ofKind, chars]
  | blockComment => simp [ofKind, readBlockComment, chars]
  | symbol =>
    simp only [ofKind, readSymbol]
    split
    · exact Operator.chars_ne_nil _
    · split <;> simp [chars]

/-- A lexeme of the sort that begins is a front of the text. -/
theorem isPrefix_chars_ofKind {kind : LexemeKind} {c : Char} {cs : List Char}
    (h : Opening.ofChars (some c) cs.head? = .lexeme kind) :
    (ofKind kind c cs).chars <+: c :: cs := by
  cases kind with
  | word => exact List.prefix_cons_inj c |>.2 (List.takeWhile_prefix _)
  | number =>
    have hn := List.prefix_iff_eq_append.1 (Numeral.isPrefix_chars_read (c :: cs))
    obtain ⟨rest, hs⟩ := Numeral.isPrefix_malformedSuffix
      ((c :: cs).drop (Numeral.read (c :: cs)).chars.length)
    exact ⟨rest, by
      simp only [ofKind, readNumber, chars]
      rw [List.append_assoc, hs, hn]⟩
  | string => exact Quoted.isPrefix_chars_read (Opening.isQuote_of_string h) cs
  | lineComment => exact List.prefix_cons_inj c |>.2 (List.takeWhile_prefix _)
  | blockComment =>
    refine ⟨(cs.drop 1).drop (Comment.blockRun 1 (cs.drop 1)).1.length, ?_⟩
    have := Comment.blockRun_append_drop 1 (cs.drop 1)
    simp only [ofKind, readBlockComment, chars, List.cons_append, List.append_assoc, this,
      List.take_append_drop]
  | symbol =>
    simp only [ofKind, readSymbol]
    split
    · rename_i o ho
      exact Operator.isPrefix_chars_longest? ho
    · split
      · rename_i p hp
        exact ⟨cs, by simp [chars, Punctuation.ofChar?_eq_some_iff.1 hp]⟩
      · exact ⟨cs, rfl⟩

/-- **A lexeme is a front of the text.** -/
theorem isPrefix_chars_read? {text : List Char} {l : Lexeme} (h : read? text = some l) :
    l.chars <+: text := by
  cases text with
  | nil => simp [read?] at h
  | cons c cs =>
    simp only [read?] at h
    split at h
    · obtain rfl := Option.some.inj h
      exact List.prefix_cons_inj c |>.2 (List.takeWhile_prefix _)
    · rename_i hk
      obtain rfl := Option.some.inj h
      exact isPrefix_chars_ofKind hk
    · simp at h

/-- **A lexeme consumes something.** -/
theorem chars_ne_nil_of_read? {text : List Char} {l : Lexeme} (h : read? text = some l) :
    l.chars ≠ [] := by
  cases text with
  | nil => simp [read?] at h
  | cons c cs =>
    simp only [read?] at h
    split at h
    · obtain rfl := Option.some.inj h; simp [chars]
    · rename_i hk; obtain rfl := Option.some.inj h; exact chars_ofKind_ne_nil hk
    · simp at h

end Lexeme

end Lexis
