/-
# Nonnegative binary64 numbers

A floating-point number without a sign, kept as its bit pattern.  The finite
numbers are whole multiples of the smallest one, `2 ^ -1074`; `units?` reads
off that multiple, so that every comparison with an exact value can be made in
natural numbers.

`ofRatio` rounds a quotient to the nearest number.  With `units = q · 2 ^ 1074`
it takes the smallest scale `2 ^ s` at which the quotient has at most 53
binary digits before the point, rounds there with ties to even, and reads
the pattern off as `s · 2 ^ 52` plus the rounded significand.  A carry out of
the significand lands in the exponent by itself, and a pattern at or above that
of infinity is an overflow.
-/

namespace Lexis

/-- A nonnegative binary64 number by its bit pattern. -/
structure Binary64 where
  /-- The 64 bits as a number: eleven bits of exponent above 52 of fraction. -/
  bits : Nat
deriving DecidableEq, Repr

namespace Binary64

/-- The weight of the lowest exponent bit. -/
def exponentUnit : Nat := Nat.pow 2 52

/-- Zero. -/
def zero : Binary64 := ⟨0⟩

/-- Infinity: all exponent bits set, no fraction. -/
def infinity : Binary64 := ⟨2047 * exponentUnit⟩

/-- Whether the number is finite. -/
def isFinite (x : Binary64) : Bool := decide (x.bits < infinity.bits)

/-- How many times the smallest positive number fits into a finite number. -/
def units? (x : Binary64) : Option Nat :=
  if x.isFinite then
    let exponent := x.bits / exponentUnit
    let fraction := x.bits % exponentUnit
    some (if exponent = 0 then fraction else (exponentUnit + fraction) * Nat.pow 2 (exponent - 1))
  else none

/-- The quotient rounded to the nearest whole number, a half to the even one. -/
def roundHalfEven (num den : Nat) : Nat :=
  let whole := num / den
  let twice := 2 * (num % den)
  if twice < den then whole
  else if den < twice then whole + 1
  else whole + whole % 2

/-- The scale at which a number of this many units has at most 53 binary digits. -/
def scaleOf (units : Nat) : Nat := units.log2 - 52

/-- The number nearest to `num / den`, for a positive denominator. -/
def ofRatio (num den : Nat) : Binary64 :=
  let scaled := num * Nat.pow 2 1074
  let scale := scaleOf (scaled / den)
  let bits := scale * exponentUnit + roundHalfEven scaled (den * Nat.pow 2 scale)
  if bits < infinity.bits then ⟨bits⟩ else infinity

/-- The number nearest to `mantissa · 10 ^ exponent`.

Exponents out of reach are settled without computing the power: from
`10 ^ 311` on all is overflow, and below `10 ^ -330` all is zero. -/
def ofDecimal (mantissa : Nat) (exponent : Int) : Binary64 :=
  if mantissa = 0 then zero
  else if 310 < exponent then infinity
  else if exponent + (mantissa.log2 + 1) < -330 then zero
  else if 0 ≤ exponent then ofRatio (mantissa * Nat.pow 10 exponent.toNat) 1
  else ofRatio mantissa (Nat.pow 10 (-exponent).toNat)

/-- Halfway between the greatest finite number and the one that would follow it
lies the least overflow. -/
example : (ofDecimal 17976931348623158 292).isFinite = true ∧
    ofDecimal 17976931348623159 292 = infinity := by decide +kernel

/-- The smallest positive number is the result from half of it on, the half
itself excluded. -/
example : ofDecimal 24703282292062327 (-340) = zero ∧
    ofDecimal 24703282292062328 (-340) = ⟨1⟩ := by decide +kernel

theorem isFinite_infinity : infinity.isFinite = false := by decide

end Binary64

end Lexis
