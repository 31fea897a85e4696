/-
# Source units

A source unit is a named text.  Its queries go by byte offset or by line
number and tell apart two mistakes: an offset past the end, and an offset
inside a character.  Line and column of an offset are found in the table of
line starts, by counting the lines that have started and the characters since
the last of them did.
-/

import Lexis.Source.Line
import Lexis.Source.Span

namespace Lexis

/-- Why an offset cannot be answered for. -/
inductive OffsetError
  /-- The offset lies past the end of a text of `length` bytes. -/
  | outOfRange (offset length : Nat)
  /-- The offset lies inside a character. -/
  | notCharBoundary (offset : Nat)
deriving DecidableEq, Repr

/-- The wording of the mistake. -/
def OffsetError.message : OffsetError → String
  | .outOfRange offset length =>
    "offset " ++ toString offset ++ " is out of range for a source of " ++ toString length ++
      " bytes"
  | .notCharBoundary offset =>
    "offset " ++ toString offset ++ " does not lie on a character boundary"

/-- A named text. -/
structure Source where
  /-- The name of the unit, shown in messages. -/
  identifier : String
  /-- The characters of the unit. -/
  text : List Char
deriving DecidableEq, Repr

namespace Source

/-- The source unit of a string. -/
def ofString (identifier text : String) : Source := ⟨identifier, text.toList⟩

/-- The length of the text in bytes. -/
def size (s : Source) : Nat := Text.byteLength s.text

/-- Whether the text has no character. -/
def isEmpty (s : Source) : Bool := s.text.isEmpty

/-- The offsets at which the lines start. -/
def lineStarts (s : Source) : List Nat := Line.starts s.text

/-- The number of lines; an empty text has one. -/
def lineCount (s : Source) : Nat := s.lineStarts.length

/-- The character that starts at the offset. -/
def charAt (s : Source) (offset : Nat) : Except OffsetError Char :=
  if s.size ≤ offset then .error (.outOfRange offset s.size)
  else
    match Text.dropBytes? offset s.text with
    | some (c :: _) => .ok c
    | _ => .error (.notCharBoundary offset)

/-- The position of an offset; the end of the text has one too. -/
def positionAt (s : Source) (offset : Nat) : Except OffsetError Position :=
  if s.size < offset then .error (.outOfRange offset s.size)
  else
    let begun := s.lineStarts.takeWhile (· ≤ offset)
    match Text.slice? (begun.getLastD 0) offset s.text with
    | some before => .ok ⟨offset, begun.length, before.length + 1⟩
    | none => .error (.notCharBoundary offset)

/-- Where a line starts, and where the next one does or the text ends. -/
def lineRange? (s : Source) (line : Nat) : Option (Nat × Nat) :=
  match line with
  | 0 => none
  | i + 1 =>
    match s.lineStarts[i]? with
    | none => none
    | some start => some (start, s.lineStarts[i + 1]?.getD s.size)

/-- A line, counted from one, without the line end that closes it. -/
def line? (s : Source) (line : Nat) : Option (List Char) :=
  (s.lineRange? line).bind fun (start, stop) =>
    (Text.slice? start stop s.text).map Line.trimEnds

/-- The characters that a span covers, if both its ends are boundaries of the text. -/
def slice? (s : Source) (span : Span) : Option (List Char) :=
  Text.slice? span.start.offset span.stop.offset s.text

end Source

end Lexis
