/-
# String literals by steps

How a machine reads a string literal.  It decodes as it goes: each character and each
escape is added to the value once it has been passed, and the errors of escapes are
recorded there, before that of a literal which turns out to be open.  An escape that
denotes nothing is taken from the text as it is written.
-/

import Lexis.Machine.Basic
import Lexis.Numeral.Parse

namespace Lexis.Machine

/-- The character of a decimal code that is parsed as one byte. -/
def decimalCode? (digits : List Char) : Option Char :=
  if digits = ['0'] then some '\x00'
  else
    match Radix.decimal.parse (UInt8.size - 1) digits with
    | .ok code => if 1 ≤ code ∧ code ≤ 127 then some (Char.ofNat code) else none
    | .error _ => none

/-- The character of a hexadecimal code that is parsed as four bytes. -/
def hexCode? (digits : List Char) : Option Char :=
  match Radix.hexadecimal.parse (UInt32.size - 1) digits with
  | .ok code => Escape.codePoint? code
  | .error _ => none

/-- Passes the digits of a decimal code, and answers with the character that they denote. -/
def readDecimalCode : Action (Option Char) := do
  let start ← position
  let _ ← eatWhile isDecimalDigit
  return decimalCode? (← textSince start)

/-- Passes at most `n` hexadecimal digits, and counts them. -/
def eatHexDigits : Nat → Action Nat
  | 0 => return 0
  | n + 1 => do
    if (← peek 0).any isHexDigit then
      let _ ← advance
      return (← eatHexDigits n) + 1
    else return 0

/-- Passes the digits of a hexadecimal code, and answers with the character that they
denote; there is none if digits are missing. -/
def readHexCode (count : Nat) : Action (Option Char) := do
  let start ← position
  if (← eatHexDigits count) < count then return none
  else return hexCode? (← textSince start)

/-- Passes what stands behind a backslash, where `c` comes first, and answers with the
character that it denotes. -/
def readEscaped (c : Char) : Action (Option Char) := do
  if isDecimalDigit c then readDecimalCode
  else
    let _ ← advance
    if c = 'x' then readHexCode 2
    else if c = 'u' then readHexCode 4
    else return Escape.letterValue? c

/-- Passes the line end behind a backslash. -/
def eatLineEnd : Action Unit := do
  let first ← advance
  if first = some '\r' ∧ (← peek 0) = some '\n' then
    let _ ← advance
    return
  else return

/-- Passes a backslash and what belongs to it, and adds what this denotes to a value. -/
def readEscape (multiline : Bool) (value : List Char) : Action (List Char) := do
  let start ← position
  let _ ← advance
  match ← peek 0 with
  | none => return value ++ ['\\']
  | some c =>
    if isLineEnd c ∧ multiline then
      eatLineEnd
      return value
    else if isLineEnd c then return value ++ ['\\']
    else
      match ← readEscaped c with
      | some decoded => return value ++ [decoded]
      | none =>
        let text ← textSince start
        recordError ⟨.invalidEscapeSequence, ← spanSince start, none⟩
        return value ++ text

/-- Whether the next three characters are the delimiter. -/
def closesMultiline (delimiter : Char) : Action Bool := do
  return (← peek 0) == some delimiter && (← peek 1) == some delimiter &&
    (← peek 2) == some delimiter

/-- Whether the literal is closed where `c` comes next. -/
def closesAt (delimiter : Char) (multiline : Bool) (c : Char) : Action Bool :=
  if c = delimiter then if multiline then closesMultiline delimiter else return true
  else return false

/-- Passes what comes next in a literal: a part of its content, which is added to a
value, or the delimiter that closes it. -/
def readUnit (delimiter : Char) (raw multiline : Bool) (value : List Char) :
    Action (Turn (List Char) (List Char × Bool)) := do
  match ← peek 0 with
  | none => return .done (value, false)
  | some c =>
    if isLineEnd c ∧ multiline = false then return .done (value, false)
    else if ← closesAt delimiter multiline c then
      advanceBy (if multiline then 3 else 1)
      return .done (value, true)
    else if c = '\\' ∧ raw = false then return .again (← readEscape multiline value)
    else
      let _ ← advance
      return .again (value ++ [c])

/-- Passes the content of a literal and the delimiter that closes it, and answers with what
the content denotes and whether the literal is closed. -/
def readContent (delimiter : Char) (raw multiline : Bool) : Action (List Char × Bool) :=
  loop [] (readUnit delimiter raw multiline)

/-- Reads a string literal. -/
def readQuoted : Action Token := do
  let start ← position
  let raw := (← advance) == some '\x60'
  let delimiter := if raw then '\x60' else '\x22'
  let multiline := (← peek 0) == some delimiter && (← peek 1) == some delimiter
  advanceBy (if multiline then 2 else 0)
  let (value, closed) ← readContent delimiter raw multiline
  let span ← spanSince start
  let text ← textSince start
  recordUnless closed ⟨.unterminatedString, span, some ⟨.stringLiteral, text⟩⟩
  return ⟨.string text value raw multiline, span⟩

end Lexis.Machine
