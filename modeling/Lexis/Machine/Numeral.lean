/-
# Numerals by steps

How a machine reads a number.  It passes the mark of a radix only with a digit of the
radix behind it, and separators only with a digit behind them, for which it looks past the
separators.  What has been passed is then parsed as a whole, without its separators and
the two characters of a mark; a number that cannot be parsed has the greatest value, and
the failure is recorded.  Last it skips what is wrongly attached.
-/

import Lexis.Machine.Basic
import Lexis.Numeral.Parse

namespace Lexis.Machine

/-- Passes the mark of a radix, if a digit of that radix is behind it. -/
def readMark : Action Radix := do
  if (← peek 0) ≠ some '0' then return .decimal
  else
    match (← peek 1).bind Radix.ofMark? with
    | none => return .decimal
    | some radix =>
      if (← peek 2).any radix.isDigit then
        advanceBy 2
        return radix
      else return .decimal

/-- Passes separators if a digit is behind them, and answers whether it is. -/
def eatSeparators (radix : Radix) : Action Bool := do
  let separators := ((← rest).takeWhile (· == '_')).length
  if separators = 0 then return false
  else if (← peek separators).any radix.isDigit then
    advanceBy separators
    return true
  else return false

/-- Passes digits and the separators behind them. -/
def eatDigitRun (radix : Radix) : Action (Turn Unit Unit) := do
  let _ ← eatWhile radix.isDigit
  if ← eatSeparators radix then return .again () else return .done ()

/-- Passes digits and the separators between them. -/
def eatDigits (radix : Radix) : Action Unit := loop () fun _ => eatDigitRun radix

/-- Passes a fraction, and answers whether there is one. -/
def eatFraction : Action Bool := do
  if (← peek 0) = some '.' then
    if (← peek 1).any isDecimalDigit then
      let _ ← advance
      eatDigits .decimal
      return true
    else return false
  else return false

/-- Passes an exponent, and answers whether there is one. -/
def eatExponent : Action Bool := do
  let mark ← peek 0
  if mark = some 'e' ∨ mark = some 'E' then
    let next ← peek 1
    let sign := if next = some '+' ∨ next = some '-' then 1 else 0
    if (← peek (1 + sign)).any isDecimalDigit then
      advanceBy (sign + 1)
      eatDigits .decimal
      return true
    else return false
  else return false

/-- Passes a numeral, and answers with its radix and whether it has a fraction or an
exponent. -/
def eatNumeral : Action (Radix × Bool) := do
  let radix ← readMark
  eatDigits radix
  if radix = .decimal then
    let fraction ← eatFraction
    let exponent ← eatExponent
    return (radix, fraction || exponent)
  else return (radix, false)

/-- The text of an integer behind its mark. -/
def unmarked? (radix : Radix) (text : List Char) : Option (List Char) :=
  if radix = .decimal then some text else Text.dropBytes? 2 text

/-- The integer that has the text. -/
def decodeInteger (span : Span) (text : List Char) (radix : Radix) : Action Token := do
  let digits ← cut fun _ => unmarked? radix text
  match radix.parse Numeral.maxInteger (digitsOf digits) with
  | .ok value => return ⟨.integer text radix value, span⟩
  | .error _ =>
    recordError ⟨.invalidNumericLiteral, span, some ⟨.integerLiteral, text⟩⟩
    return ⟨.integer text radix Numeral.maxInteger, span⟩

/-- The floating-point number that has the text. -/
def decodeFloat (span : Span) (text : List Char) : Action Token := do
  let value := (Decimal.parse? (digitsOf text)).getD .infinity
  recordUnless value.isFinite ⟨.invalidNumericLiteral, span, some ⟨.floatLiteral, text⟩⟩
  return ⟨.float text value, span⟩

/-- The number that has the text. -/
def decode (span : Span) (text : List Char) (radix : Radix) (isFloat : Bool) : Action Token :=
  if isFloat then decodeFloat span text else decodeInteger span text radix

/-- Passes a character of words, or a point and the digit behind it. -/
def skipOne : Action (Turn Unit Unit) := do
  match ← peek 0, ← peek 1 with
  | none, _ => return .done ()
  | some c, next =>
    if isWordChar c then
      let _ ← advance
      return .again ()
    else if c = '.' ∧ next.any isDecimalDigit then
      advanceBy 2
      return .again ()
    else return .done ()

/-- Passes what can start no token of its own behind a number. -/
def skipAttached : Action Unit := loop () fun _ => skipOne

/-- Skips what is wrongly attached to a number. -/
def readSuffix (number : Token) : Action Unit := do
  let start ← position
  skipAttached
  let span ← spanSince start
  if span.isEmpty then return
  else
    recordError ⟨.invalidNumericLiteral, span, some ⟨number.kind, number.text⟩⟩
    recordTrivia ⟨.skipped, span⟩

/-- Reads a number. -/
def readNumber : Action Token := do
  let start ← position
  let (radix, isFloat) ← eatNumeral
  let span ← spanSince start
  let text ← textSince start
  let number ← decode span text radix isFloat
  readSuffix number
  return number

end Lexis.Machine
