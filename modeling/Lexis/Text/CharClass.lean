/-
# Character classes

The classes that decide how a text is cut: blanks, line terminators, the
characters of words, and digits.  Blanks and the characters of words are
classes of the whole Unicode standard; digits are the ten ASCII digits, and
the hexadecimal digits add the ASCII letters `a` to `f` in either case.
-/

import Lexis.Text.Alphabetic
import Lexis.Text.Numeric

namespace Lexis

/-- The ranges of the property `White_Space`. -/
def blankRanges : CodeRanges :=
  [ (0x9, 0xd), (0x20, 0x20), (0x85, 0x85), (0xa0, 0xa0), (0x1680, 0x1680), (0x2000, 0x200a),
    (0x2028, 0x2029), (0x202f, 0x202f), (0x205f, 0x205f), (0x3000, 0x3000)]

/-- Whether the character is white space. -/
def isBlank (c : Char) : Bool := blankRanges.contains c.toNat

theorem isBlank_iff {c : Char} :
    isBlank c = true ↔ ∃ r ∈ blankRanges, r.1 ≤ c.toNat ∧ c.toNat ≤ r.2 :=
  CodeRanges.contains_iff (by decide : blankRanges.ascendsFrom 0 = true)

/-- The ASCII blanks are white space. -/
theorem isBlank_of_isWhitespace {c : Char} (h : c.isWhitespace = true) : isBlank c = true := by
  simp only [Char.isWhitespace, Bool.or_eq_true, decide_eq_true_eq] at h
  rcases h with ((rfl | rfl) | rfl) | rfl <;> decide

/-- Whether the character is a control character (general category `Cc`): those
below the space and those from delete up to `0x9f`. -/
def isControl (c : Char) : Bool :=
  decide (c.toNat ≤ 0x1f) || decide (0x7f ≤ c.toNat) && decide (c.toNat ≤ 0x9f)

/-- Whether the character is a letter or a number of some script. -/
def isAlphanumeric (c : Char) : Bool := isAlphabetic c || isNumeric c

/-- Whether the character can begin a word: a letter or the underscore. -/
def isWordStart (c : Char) : Bool := c == '_' || isAlphabetic c

/-- Whether the character can stand in a word: a letter, a number or the
underscore. -/
def isWordChar (c : Char) : Bool := c == '_' || isAlphanumeric c

/-- Whether the character is a line feed or a carriage return. -/
def isLineEnd (c : Char) : Bool := c == '\n' || c == '\r'

theorem isWordChar_of_isWordStart {c : Char} (h : isWordStart c = true) :
    isWordChar c = true := by
  simp only [isWordStart, isWordChar, isAlphanumeric, Bool.or_eq_true] at h ⊢
  exact h.imp_right Or.inl

theorem isLineEnd_iff {c : Char} : isLineEnd c = true ↔ c = '\n' ∨ c = '\r' := by
  simp [isLineEnd]

/-- The value of an ASCII digit or letter `a` to `f`, `A` to `F`. -/
def digitValue? (c : Char) : Option Nat :=
  if '0' ≤ c ∧ c ≤ '9' then some (c.toNat - '0'.toNat)
  else if 'a' ≤ c ∧ c ≤ 'f' then some (c.toNat - 'a'.toNat + 10)
  else if 'A' ≤ c ∧ c ≤ 'F' then some (c.toNat - 'A'.toNat + 10)
  else none

/-- Whether the character is a digit below `base`, for a base up to sixteen. -/
def isDigitBelow (base : Nat) (c : Char) : Bool :=
  match digitValue? c with
  | some d => decide (d < base)
  | none => false

/-- Whether the character is one of the ten ASCII digits. -/
def isDecimalDigit (c : Char) : Bool := isDigitBelow 10 c

/-- Whether the character is an ASCII digit or a letter `a` to `f` in either case. -/
def isHexDigit (c : Char) : Bool := isDigitBelow 16 c

end Lexis
