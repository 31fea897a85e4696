/-
# Radixes

The bases in which an integer literal can be written, the letter that
announces each of them after a leading zero, and the digits of each.
-/

import Lexis.Text.CharClass

namespace Lexis

/-- A base for integer literals. -/
inductive Radix
  | binary | octal | decimal | hexadecimal
deriving DecidableEq, Repr, Ord

namespace Radix

/-- The number of digits of the radix. -/
def base : Radix → Nat
  | .binary => 2
  | .octal => 8
  | .decimal => 10
  | .hexadecimal => 16

/-- The radix that a letter after a leading zero announces. -/
def ofMark? (c : Char) : Option Radix :=
  if c = 'b' then some .binary
  else if c = 'o' then some .octal
  else if c = 'x' then some .hexadecimal
  else none

/-- What stands before the digits: a zero and a letter, or nothing for
decimal numbers. -/
def mark : Radix → List Char
  | .binary => ['0', 'b']
  | .octal => ['0', 'o']
  | .decimal => []
  | .hexadecimal => ['0', 'x']

/-- Whether the character is a digit of the radix. -/
def isDigit (r : Radix) (c : Char) : Bool := isDigitBelow r.base c

theorem mark_of_ofMark? {c : Char} {r : Radix} (h : ofMark? c = some r) : r.mark = ['0', c] := by
  unfold ofMark? at h
  split at h
  · obtain rfl := Option.some.inj h; simp_all [mark]
  · split at h
    · obtain rfl := Option.some.inj h; simp_all [mark]
    · split at h
      · obtain rfl := Option.some.inj h; simp_all [mark]
      · simp at h

end Radix

end Lexis
