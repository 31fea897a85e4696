/-
# Numerals

A numeral is read as its parts: a radix, the digits of the whole part and, in
decimal numerals, a fraction and an exponent.  Each part is taken only if a
digit is sure to follow its mark, and as long as possible:

* a leading `0b`, `0o` or `0x` counts as a mark of the radix only before a
  digit of that radix, otherwise the numeral is the decimal zero;
* a point counts as the start of a fraction only before a decimal digit;
* `e` or `E` counts as the start of an exponent only before a decimal
  digit or of a sign and a decimal digit.

A numeral with a fraction or an exponent denotes a floating-point number, every
other one an integer.  `Numeral.chars` writes the parts back as they stood.
-/

import Lexis.Numeral.DigitRun
import Lexis.Numeral.Binary64

namespace Lexis

/-- The exponent of a decimal numeral. -/
structure Exponent where
  /-- The letter `e` or `E`. -/
  mark : Char
  /-- The sign, if one is written. -/
  sign : Option Char
  /-- The digits with their separators. -/
  digits : List Char
deriving DecidableEq, Repr

/-- A numeral by its parts. -/
structure Numeral where
  /-- The radix, which is decimal where no other is announced. -/
  radix : Radix
  /-- The digits before the point, with their separators. -/
  whole : List Char
  /-- The digits after the point, with their separators. -/
  fraction : Option (List Char)
  /-- The power of ten. -/
  exponent : Option Exponent
deriving DecidableEq, Repr

namespace Exponent

/-- The exponent as it is written. -/
def chars (e : Exponent) : List Char := e.mark :: e.sign.toList ++ e.digits

/-- The power of ten that the exponent denotes. -/
def value (e : Exponent) : Int :=
  let n := Radix.decimal.valueOf e.digits
  if e.sign = some '-' then -(n : Int) else n

end Exponent

/-- The run of digits at the head of a text that begins with a digit. -/
def digits? (r : Radix) (text : List Char) : Option (List Char) :=
  if text.head?.any r.isDigit then some (digitRun r text) else none

namespace Numeral

/-- The fraction as it is written, with its point. -/
def fractionChars : Option (List Char) → List Char
  | none => []
  | some run => '.' :: run

/-- The exponent as it is written, or nothing. -/
def exponentChars : Option Exponent → List Char
  | none => []
  | some e => e.chars

/-- The numeral as it is written. -/
def chars (n : Numeral) : List Char :=
  n.radix.mark ++ n.whole ++ fractionChars n.fraction ++ exponentChars n.exponent

/-- The digits after a mark of a radix other than ten. -/
def marked? : List Char → Option Numeral
  | zero :: mark :: cs =>
    if zero = '0' then
      (Radix.ofMark? mark).bind fun r => (digits? r cs).map fun run => ⟨r, run, none, none⟩
    else none
  | _ => none

/-- The fraction at the head of a text: a point and digits. -/
def fraction? : List Char → Option (List Char)
  | [] => none
  | point :: cs => if point = '.' then digits? .decimal cs else none

/-- The sign at the head of a text. -/
def sign? : List Char → Option Char
  | [] => none
  | c :: _ => if c = '+' ∨ c = '-' then some c else none

/-- The exponent at the head of a text: its letter, a sign or none, and digits. -/
def exponent? : List Char → Option Exponent
  | [] => none
  | mark :: cs =>
    if mark = 'e' ∨ mark = 'E' then
      let sign := sign? cs
      (digits? .decimal (cs.drop sign.toList.length)).map fun run => ⟨mark, sign, run⟩
    else none

/-- The decimal numeral at the head of a text that begins with a digit. -/
def readDecimal (text : List Char) : Numeral :=
  let whole := digitRun .decimal text
  let fraction := fraction? (text.drop whole.length)
  let exponent := exponent? (text.drop (whole ++ fractionChars fraction).length)
  ⟨.decimal, whole, fraction, exponent⟩

/-- The numeral at the head of a text that begins with a digit. -/
def read (text : List Char) : Numeral := (marked? text).getD (readDecimal text)

/-- Whether the numeral denotes a floating-point number. -/
def isFloat (n : Numeral) : Bool := n.fraction.isSome || n.exponent.isSome

/-- The number that an integer numeral denotes. -/
def integer (n : Numeral) : Nat := n.radix.valueOf n.whole

/-- The greatest value that an integer literal can have. -/
def maxInteger : Nat := Nat.pow 2 128 - 1

/-- The digits of a decimal numeral, those of the fraction included. -/
def mantissa (n : Numeral) : Nat := Radix.decimal.valueOf (n.whole ++ n.fraction.getD [])

/-- The power of ten by which the mantissa of a decimal numeral counts. -/
def scale (n : Numeral) : Int :=
  (n.exponent.map Exponent.value).getD 0 - (digitsOf (n.fraction.getD [])).length

/-- The floating-point number nearest to what the numeral denotes. -/
def float (n : Numeral) : Binary64 := Binary64.ofDecimal n.mantissa n.scale

/-- Whether the value lies beyond the greatest that a literal of its sort can have. -/
def overflows (n : Numeral) : Bool :=
  if n.isFloat then !n.float.isFinite else decide (maxInteger < n.integer)

/-- The characters after a numeral that can start no token of their own there:
characters of words, and points before a decimal digit. -/
def malformedSuffix : List Char → List Char
  | [] => []
  | [c] => if isWordChar c then [c] else []
  | c :: d :: cs =>
    if isWordChar c then c :: malformedSuffix (d :: cs)
    else if c = '.' ∧ isDecimalDigit d then c :: d :: malformedSuffix cs
    else []

example : read ['1', '_', '0', '.', '5', 'e', '+', 'x'] =
    ⟨.decimal, ['1', '_', '0'], some ['5'], none⟩ := by decide

example : read ['0', 'x', 'f', '_', 'g'] = ⟨.hexadecimal, ['f'], none, none⟩ := by decide

example : read ['0', 'b', '2'] = ⟨.decimal, ['0'], none, none⟩ := by decide

example : malformedSuffix ['_', '.', '5', '.', 'x'] = ['_', '.', '5'] := by decide

end Numeral

/-- A run of digits that is found is a front of the text. -/
theorem isPrefix_of_digits? {r : Radix} {text run : List Char} (h : digits? r text = some run) :
    run <+: text := by
  unfold digits? at h
  split at h
  · obtain rfl := Option.some.inj h
    exact ⟨afterDigits r text, digitRun_append_afterDigits r text⟩
  · simp at h

namespace Numeral

theorem isPrefix_fractionChars (text : List Char) : fractionChars (fraction? text) <+: text := by
  cases text with
  | nil => exact ⟨[], rfl⟩
  | cons point cs =>
    simp only [fraction?]
    split
    · rename_i hp
      subst hp
      cases h : digits? .decimal cs with
      | none => exact ⟨_, rfl⟩
      | some run =>
        obtain ⟨rest, rfl⟩ := isPrefix_of_digits? h
        exact ⟨rest, rfl⟩
    · exact ⟨_, rfl⟩

theorem isPrefix_sign? (text : List Char) : (sign? text).toList <+: text := by
  cases text with
  | nil => exact ⟨[], rfl⟩
  | cons c cs =>
    simp only [sign?]
    split
    · exact ⟨cs, rfl⟩
    · exact ⟨c :: cs, rfl⟩

theorem isPrefix_exponentChars (text : List Char) : exponentChars (exponent? text) <+: text := by
  cases text with
  | nil => exact ⟨[], rfl⟩
  | cons mark cs =>
    simp only [exponent?]
    split
    · cases h : digits? .decimal (cs.drop (sign? cs).toList.length) with
      | none => exact ⟨_, rfl⟩
      | some run =>
        obtain ⟨rest, hrest⟩ := isPrefix_of_digits? h
        refine ⟨rest, ?_⟩
        simp only [Option.map_some, exponentChars, Exponent.chars, List.cons_append,
          List.append_assoc, hrest]
        exact congrArg (mark :: ·) (List.prefix_iff_eq_append.1 (isPrefix_sign? cs))
    · exact ⟨_, rfl⟩

/-- A numeral without a fraction and an exponent is a mark and digits. -/
theorem chars_marked (radix : Radix) (run : List Char) :
    chars ⟨radix, run, none, none⟩ = radix.mark ++ run := by
  simp only [chars, fractionChars, exponentChars, List.append_nil]

theorem isPrefix_chars_marked? {text : List Char} {n : Numeral} (h : marked? text = some n) :
    n.chars <+: text := by
  unfold marked? at h
  split at h
  · split at h
    · rename_i hz
      obtain ⟨r, hr, h⟩ := Option.bind_eq_some_iff.1 h
      obtain ⟨run, hrun, rfl⟩ := Option.map_eq_some_iff.1 h
      obtain ⟨rest, rfl⟩ := isPrefix_of_digits? hrun
      exact ⟨rest, by simp [chars, Radix.mark_of_ofMark? hr, fractionChars, exponentChars, hz]⟩
    · simp at h
  · simp at h

theorem isPrefix_chars_readDecimal (text : List Char) : (readDecimal text).chars <+: text := by
  obtain ⟨afterFraction, hf⟩ := isPrefix_fractionChars (afterDigits .decimal text)
  obtain ⟨rest, he⟩ := isPrefix_exponentChars afterFraction
  have hw := digitRun_append_afterDigits .decimal text
  have ht : text = (digitRun .decimal text ++
      fractionChars (fraction? (afterDigits .decimal text))) ++ afterFraction := by
    rw [List.append_assoc, hf, hw]
  have hdrop : text.drop (digitRun .decimal text ++
      fractionChars (fraction? (afterDigits .decimal text))).length = afterFraction :=
    (congrArg (List.drop _) ht).trans List.drop_left
  refine ⟨rest, ?_⟩
  simp only [readDecimal, chars, Radix.mark, List.nil_append]
  change digitRun .decimal text ++ fractionChars (fraction? (afterDigits .decimal text)) ++
    exponentChars (exponent? (text.drop (digitRun .decimal text ++
      fractionChars (fraction? (afterDigits .decimal text))).length)) ++ rest = text
  rw [hdrop, List.append_assoc, he, List.append_assoc, hf, hw]

/-- **A numeral is a front of the text.** -/
theorem isPrefix_chars_read (text : List Char) : (read text).chars <+: text := by
  unfold read
  cases h : marked? text with
  | none => exact isPrefix_chars_readDecimal text
  | some n => exact isPrefix_chars_marked? h

/-- A malformed suffix is a front of the text. -/
theorem isPrefix_malformedSuffix (text : List Char) : malformedSuffix text <+: text := by
  fun_induction malformedSuffix text with
  | case1 => exact ⟨[], rfl⟩
  | case2 c => exact ⟨[], rfl⟩
  | case3 c => exact ⟨[c], rfl⟩
  | case4 c d cs _ ih =>
    obtain ⟨rest, h⟩ := ih
    exact ⟨rest, by rw [List.cons_append, h]⟩
  | case5 c d cs _ _ ih =>
    obtain ⟨rest, h⟩ := ih
    exact ⟨rest, by rw [List.cons_append, List.cons_append, h]⟩
  | case6 c d cs => exact ⟨c :: d :: cs, rfl⟩

end Numeral

end Lexis
