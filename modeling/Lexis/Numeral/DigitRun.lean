/-
# Runs of digits with separators

The digits of a numeral may be grouped by underscores.  An underscore belongs
to the numeral only if a digit stands after it, or further underscores and
then a digit; `digitRun` reads the longest such run and `afterDigits` is what
it leaves.

The value of a run is that of its digits, the separators left out.
-/

import Lexis.Numeral.Radix

namespace Lexis

/-- The longest run at the head of the text made of digits of the radix and of
underscores that more of the run follows. -/
def digitRun (r : Radix) : List Char → List Char
  | [] => []
  | c :: cs =>
    if r.isDigit c then c :: digitRun r cs
    else if c = '_' then
      match digitRun r cs with
      | [] => []
      | d :: ds => '_' :: d :: ds
    else []

/-- The text after the run of digits at its head. -/
def afterDigits (r : Radix) (text : List Char) : List Char :=
  text.drop (digitRun r text).length

/-- The digits of a run, without its separators. -/
def digitsOf (run : List Char) : List Char := run.filter fun c => c != '_'

/-- The number that digits denote in a base, the first digit weighing most. -/
def numberOf (base : Nat) (digits : List Char) : Nat :=
  digits.foldl (fun n c => n * base + (digitValue? c).getD 0) 0

/-- The number that a run of digits and separators denotes. -/
def Radix.valueOf (r : Radix) (run : List Char) : Nat := numberOf r.base (digitsOf run)

/-- Nothing is lost between a run of digits and what it leaves. -/
@[simp] theorem digitRun_append_afterDigits (r : Radix) (text : List Char) :
    digitRun r text ++ afterDigits r text = text := by
  unfold afterDigits
  induction text with
  | nil => rfl
  | cons c cs ih =>
    simp only [digitRun]
    split
    · simp [ih]
    · split
      · rename_i h
        subst h
        split
        · rfl
        · rename_i h
          rw [h] at ih
          simpa using ih
      · rfl

theorem digitRun_cons_of_isDigit {r : Radix} {c : Char} (h : r.isDigit c = true)
    (cs : List Char) : digitRun r (c :: cs) = c :: digitRun r cs := by
  rw [digitRun, if_pos h]

end Lexis
