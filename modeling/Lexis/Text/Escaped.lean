/-
# Showing characters that do not print

Control characters are shown in messages by an escape: a letter after a
backslash for tab, carriage return and line feed, and otherwise the code point
in hexadecimal between braces.  `shown` escapes the control characters of a
text and keeps all others as written; `quoted` writes a text between double
quotes so that it can be told where it ends.
-/

import Lexis.Text.CharClass

namespace Lexis.Text

/-- The code point in lower-case hexadecimal, as `\u` and a pair of braces. -/
def codeEscape (c : Char) : List Char :=
  ['\\', 'u', '\x7b'] ++ Nat.toDigits 16 c.toNat ++ ['\x7d']

/-- The escape of a control character: one letter for tab, carriage return and
line feed, the code point for the others. -/
def controlEscape (c : Char) : List Char :=
  if c = '\t' then ['\\', 't']
  else if c = '\r' then ['\\', 'r']
  else if c = '\n' then ['\\', 'n']
  else codeEscape c

/-- The text as written, except for control characters, which are escaped. -/
def shown (cs : List Char) : List Char :=
  cs.flatMap fun c => if isControl c then controlEscape c else [c]

/-- The way a character stands between double quotes.  Besides the control
characters the quote and the backslash are escaped, and the null character has
the short escape `\0`. -/
def quotedChar (c : Char) : List Char :=
  if c = '\x22' then ['\\', '\x22']
  else if c = '\\' then ['\\', '\\']
  else if c = '\x00' then ['\\', '0']
  else if isControl c then controlEscape c
  else [c]

/-- The text between double quotes. -/
def quoted (cs : List Char) : List Char :=
  ['\x22'] ++ cs.flatMap quotedChar ++ ['\x22']

example : shown ['é', '\\', '\t', '\x1b'] =
    ['é', '\\', '\\', 't', '\\', 'u', '\x7b', '1', 'b', '\x7d'] := by decide

end Lexis.Text
