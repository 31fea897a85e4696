/-
# Escapes

An escape in a string literal is a backslash and what it takes of the text:

* a decimal code, which is the longest run of decimal digits;
* `x` and at most two, or `u` and at most four hexadecimal digits;
* any other single character.

What an escape takes does not depend on whether it denotes anything.
`Escape.value?` gives the character that it denotes: a decimal code denotes a
code point from 1 to 127, and the code `0` the null character; a hexadecimal
code has to have all its digits and to be no surrogate; of the single
characters twelve have a meaning.
-/

import Lexis.Numeral.DigitRun

namespace Lexis

/-- What stands after the backslash. -/
inductive Escape
  /-- A single character. -/
  | letter (c : Char)
  /-- The letter `x` and hexadecimal digits. -/
  | byte (digits : List Char)
  /-- The letter `u` and hexadecimal digits. -/
  | unicode (digits : List Char)
  /-- Decimal digits. -/
  | decimal (digits : List Char)
deriving DecidableEq, Repr

namespace Escape

/-- The escape as it is written. -/
def chars : Escape → List Char
  | .letter c => ['\\', c]
  | .byte digits => '\\' :: 'x' :: digits
  | .unicode digits => '\\' :: 'u' :: digits
  | .decimal digits => '\\' :: digits

/-- The character that a letter after a backslash denotes. -/
def letterValue? (c : Char) : Option Char :=
  if c = 'n' then some '\n'
  else if c = 't' then some '\t'
  else if c = 'r' then some '\r'
  else if c = '\\' ∨ c = '\x22' ∨ c = '\x27' ∨ c = '\x60' then some c
  else if c = 'a' then some '\x07'
  else if c = 'b' then some '\x08'
  else if c = 'f' then some '\x0c'
  else if c = 'v' then some '\x0b'
  else if c = 'e' then some '\x1b'
  else none

/-- The character of a code point; surrogates and numbers above the last code
point have none. -/
def codePoint? (n : Nat) : Option Char :=
  if n.isValidChar then some (Char.ofNat n) else none

/-- The character of a hexadecimal code that has to have `count` digits. -/
def hexValue? (count : Nat) (digits : List Char) : Option Char :=
  if digits.length = count then codePoint? (numberOf 16 digits) else none

/-- The character of a decimal code. -/
def decimalValue? (digits : List Char) : Option Char :=
  if digits = ['0'] then some '\x00'
  else
    let code := numberOf 10 digits
    if 1 ≤ code ∧ code ≤ 127 then codePoint? code else none

/-- The character that the escape denotes. -/
def value? : Escape → Option Char
  | .letter c => letterValue? c
  | .byte digits => hexValue? 2 digits
  | .unicode digits => hexValue? 4 digits
  | .decimal digits => decimalValue? digits

/-- At most `count` hexadecimal digits from the head of a text. -/
def hexRun (count : Nat) (text : List Char) : List Char := (text.take count).takeWhile isHexDigit

/-- The escape whose first character after the backslash is `c`. -/
def read (c : Char) (text : List Char) : Escape :=
  if isDecimalDigit c then .decimal (c :: text.takeWhile isDecimalDigit)
  else if c = 'x' then .byte (hexRun 2 text)
  else if c = 'u' then .unicode (hexRun 4 text)
  else .letter c

example : (read '6' ['5', '0', 'x']).value? = none := by decide

example : (read '6' ['5', 'x', '0']).value? = some 'A' := by decide

example : (read 'u' ['d', '8', '0', '0']).value? = none := by decide

example : (read 'x' ['4', '1', '0']).value? = some 'A' := by decide

/-- **An escape is a front of the text** that its backslash begins. -/
theorem isPrefix_chars_read (c : Char) (text : List Char) :
    (read c text).chars <+: '\\' :: c :: text := by
  have hrun : ∀ n, hexRun n text <+: text := fun n =>
    (List.takeWhile_prefix _).trans (List.take_prefix n text)
  unfold read
  split
  · obtain ⟨rest, h⟩ := List.takeWhile_prefix (l := text) isDecimalDigit
    exact ⟨rest, by simp [chars, h]⟩
  · split
    · rename_i hc
      obtain ⟨rest, h⟩ := hrun 2
      exact ⟨rest, by simp [chars, h, hc]⟩
    · split
      · rename_i hc
        obtain ⟨rest, h⟩ := hrun 4
        exact ⟨rest, by simp [chars, h, hc]⟩
      · exact ⟨text, rfl⟩

end Escape

end Lexis
