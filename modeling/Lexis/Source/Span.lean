/-
# Spans

A span is the half-open range between two positions of which the second does
not lie before the first.  `Span.ofEnds?` refuses a pair of positions in
the wrong order; line and column take no part in this.
-/

import Lexis.Source.Position

namespace Lexis

/-- The range from `start` up to `stop`, `stop` excluded. -/
structure Span where
  /-- The position of the first character. -/
  start : Position
  /-- The position after the last character. -/
  stop : Position
  /-- The range does not run backwards. -/
  ordered : start.offset ≤ stop.offset
deriving DecidableEq, Repr

namespace Span

/-- The span between two positions, if the second lies at the first or after it. -/
def ofEnds? (start stop : Position) : Option Span :=
  if h : start.offset ≤ stop.offset then some ⟨start, stop, h⟩ else none

/-- The span of no characters at a position. -/
def empty (p : Position) : Span := ⟨p, p, Nat.le_refl _⟩

instance : Inhabited Span := ⟨empty Position.start⟩

/-- The number of bytes in the span. -/
def length (s : Span) : Nat := s.stop.offset - s.start.offset

/-- Whether the span holds no character. -/
def isEmpty (s : Span) : Bool := s.length == 0

/-- From the start of the first span to the end of the second. -/
def join? (s t : Span) : Option Span := ofEnds? s.start t.stop

/-- Spans are ordered by their start, then by their end. -/
instance : Ord Span where
  compare s t := (compare s.start t.start).then (compare s.stop t.stop)

theorem ofEnds?_eq_some_iff {p q : Position} {s : Span} :
    ofEnds? p q = some s ↔ p = s.start ∧ q = s.stop := by
  unfold ofEnds?
  constructor
  · intro h
    split at h
    · obtain rfl := Option.some.inj h; exact ⟨rfl, rfl⟩
    · simp at h
  · rintro ⟨rfl, rfl⟩
    rw [dif_pos s.ordered]

theorem ofEnds?_eq_none_iff {p q : Position} : ofEnds? p q = none ↔ q.offset < p.offset := by
  unfold ofEnds?
  split <;> simp <;> omega

end Span

end Lexis
