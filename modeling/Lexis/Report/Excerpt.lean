/-
# Excerpts

An excerpt shows a place in a source unit: a pointer with the name of the unit,
the line and the column; then, if the line is at hand, the line itself between
two rows of gutter, the lower of which underlines the place; and last, after a
blank line, a help text if there is one.

The underline starts below the first character of the span.  Tabs before
it are repeated, so that both rows are expanded alike.  It covers the span if
that ends on the same line and the rest of the line otherwise, and is never
shorter than one character.

Columns count from one and run forward within a line.  A span whose columns do
not has no underline, and its excerpt cannot be drawn.
-/

import Lexis.Report.Ink
import Lexis.Source.Span

namespace Lexis

/-- A place in a source unit to be shown. -/
structure Excerpt where
  /-- The name of the unit. -/
  identifier : String
  /-- The place. -/
  span : Span
  /-- The line that the place starts on, without its line end. -/
  line : Option (List Char)
  /-- What is said below. -/
  help : Option String
deriving DecidableEq, Repr

namespace Excerpt

/-- The difference of two numbers, if it is not negative. -/
def difference? (a b : Nat) : Option Nat := if b ≤ a then some (a - b) else none

/-- The number of characters before the span on its first line. -/
def indent? (e : Excerpt) : Option Nat := difference? e.span.start.column 1

/-- The number of characters to underline on the first line of the span. -/
def underlineWidth? (e : Excerpt) (line : List Char) : Option Nat :=
  if e.span.stop.line = e.span.start.line then
    (difference? e.span.stop.column e.span.start.column).map (max 1)
  else e.indent?.map fun indent => max 1 (line.length - indent)

/-- What stands before the underline, as wide as the characters above it. -/
def underlineIndent (line : List Char) (indent : Nat) : List Char :=
  (line.take indent).map fun c => if c = '\t' then '\t' else ' '

/-- The three rows of a line with the place underlined, each after a line end. -/
def rows? (e : Excerpt) (palette : Palette) (line : List Char) : Option String :=
  (e.underlineWidth? line).bind fun width =>
    e.indent?.map fun indent =>
      let gutter := toString e.span.start.line
      let padding := String.ofList (List.replicate gutter.length ' ')
      let underline := Ink.error.paint palette (String.ofList (List.replicate width '^'))
      "\n" ++ padding ++ " |\n" ++ gutter ++ " | " ++ String.ofList line ++
        "\n" ++ padding ++ " | " ++ String.ofList (underlineIndent line indent) ++ underline

/-- The pointer to the place. -/
def pointer (e : Excerpt) (palette : Palette) : String :=
  Ink.pointer.paint palette "-->" ++ " " ++ e.identifier ++ ":" ++
    toString e.span.start.line ++ ":" ++ toString e.span.start.column

/-- The help text below a blank line, if there is one. -/
def footer (e : Excerpt) : String :=
  match e.help with
  | some help => "\n\n" ++ help
  | none => ""

/-- The excerpt as it is shown. -/
def draw? (e : Excerpt) (palette : Palette) : Option String :=
  match e.line with
  | none => some (e.pointer palette ++ e.footer)
  | some line => (e.rows? palette line).map fun rows => e.pointer palette ++ rows ++ e.footer

end Excerpt

end Lexis
