/-
# Readers

A reader is at a place in a source unit and has the text after that place
still before it.  Reading a character keeps line and column up to date step by
step, without the table of line starts.  At the end of the text a reader stays
where it is.

The position of an earlier reader serves as a mark: `textSince?` and
`spanSince` give the text and the span from a mark up to the reader.
-/

import Lexis.Source.Basic

namespace Lexis

/-- A place in a source unit and the text after it. -/
structure Reader where
  /-- The unit that is being read. -/
  source : Source
  /-- The position of the next character. -/
  position : Position
  /-- The text from the next character on. -/
  rest : List Char
deriving DecidableEq, Repr

namespace Reader

/-- The reader before the first character. -/
def ofSource (s : Source) : Reader := ⟨s, Position.start, s.text⟩

/-- The character `ahead` places after the next one, which `peek 0` is. -/
def peek (r : Reader) (ahead : Nat) : Option Char := r.rest[ahead]?

/-- Whether the offset has reached the end of the text. -/
def atEnd (r : Reader) : Bool := decide (r.source.size ≤ r.position.offset)

/-- The reader after the next character. -/
def advance (r : Reader) : Reader :=
  match r.rest with
  | [] => r
  | x :: xs => { r with position := r.position.advance x xs.head?, rest := xs }

/-- The reader after the next `n` characters. -/
def advanceBy : Nat → Reader → Reader
  | 0, r => r
  | n + 1, r => advanceBy n r.advance

/-- The next character, if there is one, and the reader after it. -/
def next? (r : Reader) : Option Char × Reader := (r.peek 0, r.advance)

/-- The longest run of characters before the reader that satisfy `p`. -/
def run (p : Char → Bool) (r : Reader) : List Char := r.rest.takeWhile p

/-- The reader after the longest run of characters that satisfy `p`. -/
def skipWhile (p : Char → Bool) (r : Reader) : Reader := r.advanceBy (r.run p).length

/-- The text from a marked position up to the reader; there is none from a mark
ahead of the reader. -/
def textSince? (r : Reader) (mark : Position) : Option (List Char) :=
  Text.slice? mark.offset r.position.offset r.source.text

/-- The span from a marked position up to the reader, empty for a mark ahead of
the reader. -/
def spanSince (r : Reader) (mark : Position) : Span :=
  (Span.ofEnds? mark r.position).getD (Span.empty r.position)

@[simp] theorem source_advance (r : Reader) : r.advance.source = r.source := by
  unfold advance; split <;> rfl

@[simp] theorem rest_advance (r : Reader) : r.advance.rest = r.rest.tail := by
  unfold advance; split <;> simp_all

@[simp] theorem source_advanceBy (n : Nat) (r : Reader) : (r.advanceBy n).source = r.source := by
  induction n generalizing r with
  | zero => rfl
  | succ n ih => rw [advanceBy, ih, source_advance]

@[simp] theorem rest_advanceBy (n : Nat) (r : Reader) :
    (r.advanceBy n).rest = r.rest.drop n := by
  induction n generalizing r with
  | zero => rfl
  | succ n ih => rw [advanceBy, ih, rest_advance, List.drop_tail]

/-- At the end of the text a reader stays where it is. -/
theorem advance_eq_self {r : Reader} (h : r.rest = []) : r.advance = r := by
  unfold advance
  split
  · rfl
  · simp_all

/-- The run before a reader and the text after it are the text before it. -/
theorem run_append_rest_skipWhile (p : Char → Bool) (r : Reader) :
    r.run p ++ (r.skipWhile p).rest = r.rest := by
  rw [skipWhile, rest_advanceBy, run]
  exact List.prefix_iff_eq_append.1 (List.takeWhile_prefix p)

theorem advanceBy_add (m n : Nat) (r : Reader) :
    r.advanceBy (m + n) = (r.advanceBy m).advanceBy n := by
  induction m generalizing r with
  | zero => simp [advanceBy]
  | succ m ih => rw [Nat.succ_add, advanceBy, ih]; rfl

end Reader

end Lexis
