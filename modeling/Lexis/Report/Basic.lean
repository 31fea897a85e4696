/-
# Reports

A report is a lexical error together with what is needed to show it: the name
of the source unit and the line that the error starts on.  It can be made from
any source unit; against another unit than the scanned one the line may be
missing or may not hold the place of the error.

It is shown as a header that says what is wrong, and an excerpt.  The header
quotes the malformed characters where that helps, for unexpected characters and
for escapes, with control characters escaped.
-/

import Lexis.Report.Excerpt
import Lexis.LexError
import Lexis.Source.Basic
import Lexis.Text.Escaped

namespace Lexis

/-- A message that something is wrong, after the mark of an error. -/
def errorMessage (palette : Palette) (text : String) : String :=
  Ink.error.paint palette "[error]:" ++ " " ++ Ink.strong.paint palette text

/-- A lexical error and the line that it starts on. -/
structure Report where
  /-- The name of the source unit. -/
  identifier : String
  /-- The error. -/
  error : LexError
  /-- The line that the error starts on, without its line end. -/
  line : Option (List Char)
deriving DecidableEq, Repr

namespace Report

/-- The report of an error in a source unit. -/
def ofError (s : Source) (e : LexError) : Report :=
  ⟨s.identifier, e, s.line? e.span.start.line⟩

/-- The malformed characters, if they lie on a single line that holds them. -/
def offendingText? (r : Report) : Option (List Char) :=
  let span := r.error.span
  if span.start.line ≠ span.stop.line ∨ span.isEmpty then none
  else
    r.line.bind fun line =>
      (Excerpt.difference? span.start.column 1).bind fun before =>
        Text.takeBytes? span.length (line.drop before)

/-- Whether the header of the kind quotes the malformed characters. -/
def quotesText : ErrorKind → Bool
  | .unexpectedCharacter | .invalidEscapeSequence => true
  | .unterminatedString | .invalidNumericLiteral | .unterminatedBlockComment => false

/-- What is wrong. -/
def header (r : Report) : String :=
  match quotesText r.error.kind, r.offendingText? with
  | true, some text =>
    r.error.kind.message ++ " `" ++ String.ofList (Text.shown text) ++ "`"
  | _, _ => r.error.kind.message

/-- The place of the error, with the recovered token as help. -/
def excerpt (r : Report) : Excerpt :=
  ⟨r.identifier, r.error.span, r.line, r.error.recovered.map Recovered.shown⟩

/-- The report as it is shown. -/
def render? (r : Report) (palette : Palette) : Option String :=
  (r.excerpt.draw? palette).map fun excerpt =>
    errorMessage palette r.header ++ "\n" ++ excerpt

end Report

/-- The reports of the errors against a source unit, a blank line between any
two. -/
def renderErrors? (errors : List LexError) (s : Source) (palette : Palette) : Option String :=
  (errors.mapM fun e => (Report.ofError s e).render? palette).map fun shown =>
    "\n\n".intercalate shown

end Lexis
