/-
# The lines of a text

Where the lines of a text start and what a line holds.  `Line.starts` is the
table of the offsets at which lines start, in ascending order: the first line
starts at offset zero, and each line end starts another, so that an empty text
and a text that ends in a line end have an empty last line.

The table is made from the text alone, with no position in it.  To tell whether
a carriage return ends its line, it looks up the byte after it in the UTF-8 form
of the text.
-/

import Lexis.Text.Bytes
import Lexis.Text.CharClass

namespace Lexis.Line

/-- The offsets after the line ends among the characters that stand at `offset`
in a text with these bytes. -/
def startsAfter (bytes : List UInt8) (offset : Nat) : List Char → List Nat
  | [] => []
  | c :: cs =>
    let later := startsAfter bytes (offset + c.utf8Size) cs
    if c = '\n' then (offset + 1) :: later
    -- the line feed of a pair starts the next line instead
    else if c = '\r' ∧ bytes[offset + 1]? ≠ some 10 then (offset + 1) :: later
    else later

/-- The offsets at which the lines of the text start. -/
def starts (cs : List Char) : List Nat := 0 :: startsAfter (Text.utf8 cs) 0 cs

/-- The line without the line ends it closes with. -/
def trimEnds (cs : List Char) : List Char :=
  (cs.reverse.dropWhile isLineEnd).reverse

end Lexis.Line
