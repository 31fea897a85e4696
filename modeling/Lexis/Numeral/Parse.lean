/-
# Parsing numbers

The numbers that texts without separators stand for.  An integer is parsed digit by
digit (`Radix.parse`) and has none if there is no digit, with the first character that is
no digit, and as soon as the number is out of range.  A decimal numeral is taken apart
into a whole number and a power of ten, whose product is rounded (`Decimal.parse?`); its
range has no end, since what is too great becomes infinite.
-/

import Lexis.Numeral.Basic

namespace Lexis

namespace Radix

/-- Why a number cannot be parsed. -/
inductive ParseFault
  /-- There is no digit. -/
  | empty
  /-- There is a character that is no digit of the radix. -/
  | invalidDigit
  /-- The number is out of range. -/
  | overflow
deriving DecidableEq, Repr

/-- The number whose first digits make `n`, the greatest possible one being `most`. -/
def accumulate (r : Radix) (most : Nat) (n : Nat) : List Char → Except ParseFault Nat
  | [] => .ok n
  | c :: cs =>
    if r.isDigit c then
      let m := n * r.base + (digitValue? c).getD 0
      if m ≤ most then accumulate r most m cs else .error .overflow
    else .error .invalidDigit

/-- The number that the characters denote; a plus may stand before the digits. -/
def parse (r : Radix) (most : Nat) : List Char → Except ParseFault Nat
  | [] => .error .empty
  | c :: cs => if c = '+' ∧ cs ≠ [] then r.accumulate most 0 cs else r.accumulate most 0 (c :: cs)

end Radix

namespace Decimal

/-- The number of decimal digits that are all of the text, of which there is one at least. -/
def digits? (text : List Char) : Option Nat :=
  if text ≠ [] ∧ text.all isDecimalDigit then some (numberOf 10 text) else none

/-- The digits behind a point, or none, and the text after them. -/
def fraction : List Char → List Char × List Char
  | [] => ([], [])
  | c :: cs =>
    if c = '.' then (cs.takeWhile isDecimalDigit, cs.dropWhile isDecimalDigit) else ([], c :: cs)

/-- The power of ten of an exponent that is all of the text. -/
def exponent? : List Char → Option Int
  | [] => some 0
  | mark :: cs =>
    if mark = 'e' ∨ mark = 'E' then
      let sign := Numeral.sign? cs
      (digits? (cs.drop sign.toList.length)).map fun (n : Nat) =>
        if sign = some '-' then -(n : Int) else n
    else none

/-- A decimal numeral as a whole number and the power of ten by which it counts. -/
def decompose? (text : List Char) : Option (Nat × Int) :=
  let whole := text.takeWhile isDecimalDigit
  let (fraction, after) := fraction (text.dropWhile isDecimalDigit)
  if whole ++ fraction = [] then none
  else (exponent? after).map fun e => (numberOf 10 (whole ++ fraction), e - fraction.length)

/-- The binary64 number that a decimal numeral without a sign stands for.  Before and behind
the point there may be digits, and there must be one of them; an exponent may follow. -/
def parse? (text : List Char) : Option Binary64 :=
  (decompose? text).map fun (mantissa, exponent) => Binary64.ofDecimal mantissa exponent

end Decimal

end Lexis
