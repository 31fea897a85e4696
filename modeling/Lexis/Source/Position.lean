/-
# Positions

A position names a place between two characters of a text in three ways at
once: by the offset in bytes, counted from zero, and by line and column,
counted from one.  Columns count characters; a tab is one column.

Lines end at a line feed, at a carriage return followed by a line feed, and at
a carriage return that stands alone.  Whether a character ends a line can
therefore depend on the character after it, which `endsLine` and
`Position.advance` take as their last argument.
-/

namespace Lexis

/-- Whether a character ends its line when `next` is the character after it.
Of the pair carriage return and line feed, the line feed ends the line. -/
def endsLine (c : Char) (next : Option Char) : Bool :=
  c == '\n' || c == '\r' && next != some '\n'

/-- A place in a text. -/
structure Position where
  /-- The number of bytes before the place. -/
  offset : Nat
  /-- The line, counted from one. -/
  line : Nat
  /-- The column within the line in characters, counted from one. -/
  column : Nat
deriving DecidableEq, Repr

namespace Position

/-- The place before the first character. -/
def start : Position := ⟨0, 1, 1⟩

instance : Inhabited Position := ⟨start⟩

/-- Positions are ordered by offset, then by line, then by column. -/
instance : Ord Position where
  compare p q :=
    (compare p.offset q.offset).then ((compare p.line q.line).then (compare p.column q.column))

/-- The place after the character `c` that stands at `p`, when `next` is the
character after `c`. -/
def advance (p : Position) (c : Char) (next : Option Char) : Position :=
  if endsLine c next then ⟨p.offset + c.utf8Size, p.line + 1, 1⟩
  else ⟨p.offset + c.utf8Size, p.line, p.column + 1⟩

@[simp] theorem offset_advance (p : Position) (c : Char) (next : Option Char) :
    (p.advance c next).offset = p.offset + c.utf8Size := by
  unfold advance; split <;> rfl

end Position

end Lexis
