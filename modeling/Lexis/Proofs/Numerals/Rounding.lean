/-
# Rounding to binary64

A nonnegative value rounds to the binary64 number that is nearest to it, and of two numbers
that are equally near to the even one (`Binary64.IsNearest`).  From the middle between the
greatest finite number and the one that would follow it the value is out of range
(`Binary64.leastOverflow`).  That `ofRatio` and `ofDecimal` compute this number is the main
result, `Binary64.isRounded_ofDecimal`.

All is measured in units of the smallest positive number.  Then the finite numbers are an
ascending sequence of whole numbers (`Binary64.unitsOf`), which goes on beyond infinity as if
the exponent had no bound.  A pattern is what a value is rounded to if the value lies between
the middles to the two patterns next to it (`Binary64.RoundsTo`); of these it is enough to know
that the step to the next pattern is a power of two (`Binary64.unitsOf_succ`).
-/

import Lexis.Numeral.Binary64
import Mathlib.Algebra.Order.Field.Power
import Mathlib.Algebra.Order.Ring.Abs
import Mathlib.Data.Nat.Cast.Order.Field
import Mathlib.Order.Monotone.Basic
import Mathlib.Tactic.Linarith
import Mathlib.Tactic.LinearCombination
import Mathlib.Tactic.Positivity
import Mathlib.Tactic.Ring

namespace Lexis

namespace Binary64

/-! ### Units -/

/-- The units of a pattern, as if the exponent had no bound. -/
def unitsOf (bits : Nat) : Nat :=
  if bits / exponentUnit = 0 then bits % exponentUnit
  else (exponentUnit + bits % exponentUnit) * 2 ^ (bits / exponentUnit - 1)

/-- How many units make one. -/
def unitsPerOne : ℚ := 2 ^ 1074

/-- The value of a finite number. -/
def toRat (x : Binary64) : ℚ := (x.units?.getD 0 : ℚ) / unitsPerOne

theorem unitsPerOne_pos : 0 < unitsPerOne := pow_pos two_pos 1074

theorem exponentUnit_pos : 0 < exponentUnit := by decide

theorem units?_of_isFinite {x : Binary64} (h : x.isFinite = true) :
    x.units? = some (unitsOf x.bits) := by
  rw [units?, if_pos h, unitsOf]
  rfl

theorem toRat_of_isFinite {x : Binary64} (h : x.isFinite = true) :
    x.toRat = (unitsOf x.bits : ℚ) / unitsPerOne := by
  rw [toRat, units?_of_isFinite h, Option.getD_some]

theorem isFinite_iff {x : Binary64} : x.isFinite = true ↔ x.bits < infinity.bits :=
  decide_eq_true_iff

variable {s R b c : Nat} {X q : ℚ} {x y : Binary64}

/-- **A significand at its scale** counts as often as the scale says.  Only at the lowest scale
may it be short, and it may be one too many, which is a carry. -/
theorem unitsOf_scale (hs : s = 0 ∨ exponentUnit ≤ R) (hR : R ≤ 2 * exponentUnit) :
    unitsOf (s * exponentUnit + R) = R * 2 ^ s := by
  have hpos := exponentUnit_pos
  rcases Nat.lt_or_ge R exponentUnit with hshort | hlong
  · obtain rfl := hs.resolve_right (Nat.not_le_of_lt hshort)
    rw [Nat.zero_mul, Nat.zero_add, unitsOf, if_pos (Nat.div_eq_of_lt hshort),
      Nat.mod_eq_of_lt hshort, Nat.pow_zero, Nat.mul_one]
  · obtain ⟨fraction, rfl⟩ := Nat.exists_eq_add_of_le hlong
    have hbits : s * exponentUnit + (exponentUnit + fraction) =
        fraction + exponentUnit * (s + 1) := by ring
    rw [hbits, unitsOf, Nat.add_mul_div_left _ _ hpos, Nat.add_mul_mod_self_left]
    rcases Nat.lt_or_ge fraction exponentUnit with hlt | hge
    · rw [Nat.div_eq_of_lt hlt, Nat.mod_eq_of_lt hlt, Nat.zero_add,
        if_neg (Nat.succ_ne_zero s), Nat.add_sub_cancel]
    · obtain rfl : fraction = exponentUnit := by omega
      rw [Nat.div_self hpos, Nat.mod_self, if_neg (by omega), Nat.add_sub_cancel_left, Nat.pow_succ]
      ring

/-- Each pattern is a significand at its scale. -/
theorem exists_scale (b : Nat) : ∃ R, b = (b / exponentUnit - 1) * exponentUnit + R ∧
    R < 2 * exponentUnit ∧ (b / exponentUnit - 1 = 0 ∨ exponentUnit ≤ R) := by
  have hpos := exponentUnit_pos
  have hdiv := Nat.div_add_mod' b exponentUnit
  have hmod := Nat.mod_lt b hpos
  rcases hquot : b / exponentUnit with - | k
  · rw [hquot] at hdiv
    exact ⟨b, by omega, by omega, Or.inl rfl⟩
  · rw [hquot, Nat.add_mul] at hdiv
    exact ⟨exponentUnit + b % exponentUnit, by rw [Nat.add_sub_cancel]; omega, by omega,
      Or.inr (Nat.le_add_right _ _)⟩

/-- **From a pattern to the next** it is a power of two. -/
theorem unitsOf_succ (b : Nat) : unitsOf (b + 1) = unitsOf b + 2 ^ (b / exponentUnit - 1) := by
  obtain ⟨R, hb, hR, hs⟩ := exists_scale b
  generalize b / exponentUnit - 1 = s at hb hs ⊢
  subst hb
  rw [Nat.add_assoc, unitsOf_scale (hs.imp_right fun h => Nat.le_succ_of_le h) hR,
    unitsOf_scale hs (Nat.le_of_lt hR), Nat.succ_mul]

theorem strictMono_unitsOf : StrictMono unitsOf := by
  refine strictMono_nat_of_lt_succ fun b => ?_
  rw [unitsOf_succ]
  exact Nat.lt_add_of_pos_right (Nat.pow_pos (by decide))

theorem unitsOf_le (h : b ≤ c) : (unitsOf b : ℚ) ≤ unitsOf c :=
  Nat.cast_le.2 (strictMono_unitsOf.monotone h)

theorem unitsOf_lt (h : b < c) : (unitsOf b : ℚ) < unitsOf c :=
  Nat.cast_lt.2 (strictMono_unitsOf h)

/-! ### Nearest patterns -/

section Middle

variable {v w : ℚ}

/-- Of two values the lesser is as near as the greater up to the middle between them … -/
theorem lesser_nearer_iff (h : v < w) : |v - X| ≤ |w - X| ↔ 2 * X ≤ v + w := by
  rw [← sq_le_sq]
  constructor <;> intro hle <;> nlinarith

/-- … and the greater as near as the lesser from there on. -/
theorem greater_nearer_iff (h : v < w) : |w - X| ≤ |v - X| ↔ v + w ≤ 2 * X := by
  rw [← sq_le_sq]
  constructor <;> intro hle <;> nlinarith

/-- Two values are equally near only to the middle between them. -/
theorem add_eq_of_abs_sub_eq (h : v < w) (heq : |v - X| = |w - X|) : v + w = 2 * X :=
  le_antisymm ((greater_nearer_iff h).1 heq.ge) ((lesser_nearer_iff h).1 heq.le)

end Middle

/-- **A number of units rounds to a pattern:** it lies between the middles to the patterns
next to it, and on one of the middles only if the pattern is even. -/
structure RoundsTo (X : ℚ) (b : Nat) : Prop where
  /-- It does not lie below the middle to the pattern before. -/
  low : ∀ c, c + 1 = b → (unitsOf c : ℚ) + unitsOf b < 2 * X ∨
    ((unitsOf c : ℚ) + unitsOf b = 2 * X ∧ Even b)
  /-- It does not lie above the middle to the pattern after. -/
  high : 2 * X < (unitsOf b : ℚ) + unitsOf (b + 1) ∨
    (2 * X = (unitsOf b : ℚ) + unitsOf (b + 1) ∧ Even b)

namespace RoundsTo

theorem of_lt (h : RoundsTo X b) (hc : c < b) :
    (unitsOf c : ℚ) + unitsOf b < 2 * X ∨ ((unitsOf c : ℚ) + unitsOf b = 2 * X ∧ Even b) := by
  obtain ⟨d, rfl⟩ := Nat.exists_eq_add_of_lt hc
  rcases (unitsOf_le (Nat.le_add_right c d)).lt_or_eq with hlt | heq
  · rcases h.low (c + d) rfl with hlow | ⟨hlow, -⟩ <;> exact Or.inl (by linarith)
  · rw [heq]
    exact h.low (c + d) rfl

theorem of_gt (h : RoundsTo X b) (hc : b < c) :
    2 * X < (unitsOf b : ℚ) + unitsOf c ∨ (2 * X = (unitsOf b : ℚ) + unitsOf c ∧ Even b) := by
  rcases (unitsOf_le (Nat.succ_le_of_lt hc)).lt_or_eq with hlt | heq
  · rcases h.high with hhigh | ⟨hhigh, -⟩ <;> exact Or.inl (by linarith)
  · rw [← heq]
    exact h.high

/-- **No pattern is nearer** than the one that is rounded to. -/
theorem nearest (h : RoundsTo X b) (c : Nat) : |(unitsOf b : ℚ) - X| ≤ |(unitsOf c : ℚ) - X| := by
  rcases Nat.lt_trichotomy c b with hc | rfl | hc
  · rw [greater_nearer_iff (unitsOf_lt hc)]
    rcases h.of_lt hc with hlt | ⟨heq, -⟩
    · exact hlt.le
    · exact heq.le
  · exact le_refl _
  · rw [lesser_nearer_iff (unitsOf_lt hc)]
    rcases h.of_gt hc with hlt | ⟨heq, -⟩
    · exact hlt.le
    · exact heq.le

/-- **If another pattern is as near,** the one that is rounded to is even. -/
theorem even (h : RoundsTo X b) (hne : c ≠ b)
    (heq : |(unitsOf c : ℚ) - X| = |(unitsOf b : ℚ) - X|) : Even b := by
  rcases Nat.lt_or_gt_of_ne hne with hc | hc
  · have hmiddle := add_eq_of_abs_sub_eq (unitsOf_lt hc) heq
    rcases h.of_lt hc with hlt | ⟨-, heven⟩
    · exact absurd hmiddle hlt.ne
    · exact heven
  · have hmiddle := add_eq_of_abs_sub_eq (unitsOf_lt hc) heq.symm
    rcases h.of_gt hc with hlt | ⟨-, heven⟩
    · exact absurd hmiddle.symm hlt.ne
    · exact heven

end RoundsTo

/-! ### Overflow -/

/-- The middle between the greatest finite number and the one that would follow it. -/
def leastOverflow : ℚ := 2 ^ 1024 - 2 ^ 970

/-- The greatest finite number is odd, and the least overflow is the middle behind it. -/
theorem exists_greatest : ∃ greatest, greatest + 1 = infinity.bits ∧ ¬ Even greatest ∧
    (unitsOf greatest : ℚ) + unitsOf infinity.bits = 2 * (leastOverflow * unitsPerOne) := by
  refine ⟨infinity.bits - 1, by decide, by decide, ?_⟩
  have hsum : unitsOf (infinity.bits - 1) + unitsOf infinity.bits + 2 * (2 ^ 970 * 2 ^ 1074) =
      2 * (2 ^ 1024 * 2 ^ 1074) := by decide +kernel
  have hcast := congrArg (Nat.cast (R := ℚ)) hsum
  simp only [Nat.cast_add, Nat.cast_mul, Nat.cast_pow, Nat.cast_ofNat] at hcast
  rw [leastOverflow, unitsPerOne, sub_mul, mul_sub, eq_sub_iff_add_eq]
  exact hcast

namespace RoundsTo

/-- **The pattern that is rounded to is finite** up to the least overflow, this excluded. -/
theorem lt_infinity_iff (h : RoundsTo X b) :
    b < infinity.bits ↔ X < leastOverflow * unitsPerOne := by
  obtain ⟨greatest, hgreatest, hodd, hsum⟩ := exists_greatest
  constructor
  · intro hlt
    have hle : b ≤ greatest := by omega
    have hunits := unitsOf_le hle
    have hnext := unitsOf_le (show b + 1 ≤ infinity.bits by omega)
    rcases h.high with hhigh | ⟨hhigh, heven⟩
    · linarith
    · -- the middle itself would be rounded to the even pattern
      have hne : b ≠ greatest := fun heq => hodd (heq ▸ heven)
      have hstrict := unitsOf_lt (Nat.lt_of_le_of_ne hle hne)
      linarith
  · intro hlt
    refine Nat.lt_of_not_le fun hle => ?_
    have hunits := unitsOf_le hle
    rcases h.of_lt (show greatest < b by omega) with hlow | ⟨hlow, -⟩ <;> linarith

end RoundsTo

/-! ### Nearest numbers -/

/-- **The number is nearest** to a value that is not negative, so that no number below zero has to
be looked at: it is finite, no finite number is nearer, and if another is as near, its own
pattern is even. -/
structure IsNearest (x : Binary64) (q : ℚ) : Prop where
  /-- It is finite. -/
  isFinite : x.isFinite = true
  /-- No finite number is nearer. -/
  nearest : ∀ y : Binary64, y.isFinite = true → |x.toRat - q| ≤ |y.toRat - q|
  /-- If another is as near, the last bit of the number is zero. -/
  even : ∀ y : Binary64, y.isFinite = true → y ≠ x → |y.toRat - q| = |x.toRat - q| → Even x.bits

/-- Distances in units are distances, on another scale. -/
theorem abs_toRat_sub (h : x.isFinite = true) (q : ℚ) :
    |x.toRat - q| = |(unitsOf x.bits : ℚ) - q * unitsPerOne| / unitsPerOne := by
  have hpos := unitsPerOne_pos
  have hsub : x.toRat - q = ((unitsOf x.bits : ℚ) - q * unitsPerOne) / unitsPerOne := by
    rw [toRat_of_isFinite h, sub_div, mul_div_cancel_right₀ q hpos.ne']
  rw [hsub, abs_div, abs_of_pos hpos]

theorem RoundsTo.isNearest (h : RoundsTo (q * unitsPerOne) b) (hb : b < infinity.bits) :
    IsNearest ⟨b⟩ q where
  isFinite := isFinite_iff.2 hb
  nearest := fun y hy => by
    rw [abs_toRat_sub (isFinite_iff.2 hb), abs_toRat_sub hy]
    exact (div_le_div_iff_of_pos_right unitsPerOne_pos).2 (h.nearest y.bits)
  even := fun y hy hne heq => by
    rw [abs_toRat_sub (isFinite_iff.2 hb), abs_toRat_sub hy,
      div_left_inj' unitsPerOne_pos.ne'] at heq
    exact h.even (fun hbits => hne (by rw [← hbits])) heq

theorem toRat_lt (hx : x.isFinite = true) (hy : y.isFinite = true) (h : x.bits < y.bits) :
    x.toRat < y.toRat := by
  rw [toRat_of_isFinite hx, toRat_of_isFinite hy]
  exact (div_lt_div_iff_of_pos_right unitsPerOne_pos).2 (unitsOf_lt h)

namespace IsNearest

/-- Of two nearest numbers the first is not less: both would be even, and a number between
them would be nearer. -/
theorem not_bits_lt (hx : x.IsNearest q) (hy : y.IsNearest q) : ¬ x.bits < y.bits := by
  intro hlt
  have hdist := le_antisymm (hx.nearest y hy.isFinite) (hy.nearest x hx.isFinite)
  have hne : y ≠ x := fun heq => Nat.ne_of_gt hlt (congrArg Binary64.bits heq)
  obtain ⟨m, hm⟩ := hx.even y hy.isFinite hne hdist.symm
  obtain ⟨n, hn⟩ := hy.even x hx.isFinite hne.symm hdist
  have hbetween : x.bits + 1 < y.bits := by omega
  have hfinite : (⟨x.bits + 1⟩ : Binary64).isFinite = true :=
    isFinite_iff.2 (hbetween.trans (isFinite_iff.1 hy.isFinite))
  have hmiddle := add_eq_of_abs_sub_eq (toRat_lt hx.isFinite hy.isFinite hlt) hdist
  have hless := toRat_lt hfinite hy.isFinite hbetween
  have hnear := (lesser_nearer_iff (toRat_lt hx.isFinite hfinite (Nat.lt_succ_self _))).1
    (hx.nearest _ hfinite)
  linarith

/-- **There is one nearest number** at most. -/
theorem unique (hx : x.IsNearest q) (hy : y.IsNearest q) : x = y := by
  have hbits : x.bits = y.bits :=
    Nat.le_antisymm (Nat.le_of_not_lt (hy.not_bits_lt hx)) (Nat.le_of_not_lt (hx.not_bits_lt hy))
  cases x
  cases y
  exact congrArg Binary64.mk hbits

end IsNearest

/-- **The number is what a value is rounded to:** the nearest one, or infinity from the least
overflow on. -/
structure IsRounded (x : Binary64) (q : ℚ) : Prop where
  /-- Before the least overflow it is nearest. -/
  nearest : q < leastOverflow → x.IsNearest q
  /-- From the least overflow on it is infinity. -/
  saturated : leastOverflow ≤ q → x = infinity

/-- **There is one number** that a value is rounded to. -/
theorem IsRounded.unique (hx : x.IsRounded q) (hy : y.IsRounded q) : x = y := by
  rcases lt_or_ge q leastOverflow with hlt | hge
  · exact (hx.nearest hlt).unique (hy.nearest hlt)
  · rw [hx.saturated hge, hy.saturated hge]

theorem IsRounded.isFinite_iff (h : x.IsRounded q) : x.isFinite = true ↔ q < leastOverflow := by
  constructor
  · intro hfinite
    refine lt_of_not_ge fun hge => ?_
    rw [h.saturated hge, isFinite_infinity] at hfinite
    simp at hfinite
  · exact fun hlt => (h.nearest hlt).isFinite

/-- A pattern that is rounded to is a number, unless it is out of range. -/
theorem RoundsTo.isRounded (h : RoundsTo (q * unitsPerOne) b) :
    (if b < infinity.bits then ⟨b⟩ else infinity : Binary64).IsRounded q := by
  have hiff : b < infinity.bits ↔ q < leastOverflow :=
    h.lt_infinity_iff.trans (mul_lt_mul_iff_left₀ unitsPerOne_pos)
  constructor
  · intro hlt
    rw [if_pos (hiff.2 hlt)]
    exact h.isNearest (hiff.2 hlt)
  · intro hge
    rw [if_neg (mt hiff.1 (not_lt_of_ge hge))]

/-! ### Quotients -/

theorem div_le_roundHalfEven (num den : Nat) : num / den ≤ roundHalfEven num den := by
  unfold roundHalfEven
  dsimp only
  split
  · exact Nat.le_refl _
  · split <;> omega

theorem roundHalfEven_le_div_add_one (num den : Nat) : roundHalfEven num den ≤ num / den + 1 := by
  unfold roundHalfEven
  dsimp only
  split
  · omega
  · split <;> omega

/-- **A quotient is rounded to the nearest whole number,** a half to the even one. -/
theorem roundHalfEven_spec (num : Nat) {den : Nat} (hden : 0 < den) :
    (2 * (roundHalfEven num den : ℚ) < 2 * (num / den) + 1 ∨
      (2 * (roundHalfEven num den : ℚ) = 2 * (num / den) + 1 ∧ Even (roundHalfEven num den))) ∧
    (2 * (num / den : ℚ) < 2 * roundHalfEven num den + 1 ∨
      (2 * (num / den : ℚ) = 2 * roundHalfEven num den + 1 ∧ Even (roundHalfEven num den))) := by
  have hden' : (0 : ℚ) < den := Nat.cast_pos.2 hden
  have hquot : (num / den : ℚ) = (num / den : ℕ) + (num % den : ℕ) / (den : ℚ) := by
    rw [add_div' _ _ _ hden'.ne', ← Nat.cast_mul, ← Nat.cast_add, Nat.div_add_mod']
  have hless : 2 * (num % den) < den ↔ 2 * ((num % den : ℕ) / (den : ℚ)) < 1 := by
    rw [← mul_div_assoc, div_lt_one hden']
    exact_mod_cast Iff.rfl
  have hmore : den < 2 * (num % den) ↔ 1 < 2 * ((num % den : ℕ) / (den : ℚ)) := by
    rw [← mul_div_assoc, one_lt_div hden']
    exact_mod_cast Iff.rfl
  have hpos : (0 : ℚ) ≤ (num % den : ℕ) / (den : ℚ) := by positivity
  have hlt : ((num % den : ℕ) / (den : ℚ)) < 1 :=
    (div_lt_one hden').2 (Nat.cast_lt.2 (Nat.mod_lt num hden))
  unfold roundHalfEven
  dsimp only
  rw [hquot]
  generalize num / den = whole
  generalize ((num % den : ℕ) / (den : ℚ)) = part at *
  by_cases hdown : 2 * (num % den) < den
  · rw [if_pos hdown]
    have := hless.1 hdown
    exact ⟨Or.inl (by linarith), Or.inl (by linarith)⟩
  · rw [if_neg hdown]
    by_cases hup : den < 2 * (num % den)
    · rw [if_pos hup, Nat.cast_add, Nat.cast_one]
      have := hmore.1 hup
      exact ⟨Or.inl (by linarith), Or.inl (by linarith)⟩
    · -- exactly a half
      rw [if_neg hup]
      have hhalf := le_antisymm (not_lt.1 (mt hmore.2 hup)) (not_lt.1 (mt hless.2 hdown))
      rcases Nat.mod_two_eq_zero_or_one whole with heven | hodd
      · rw [heven, Nat.add_zero]
        exact ⟨Or.inl (by linarith), Or.inr ⟨by linarith, Nat.even_iff.2 heven⟩⟩
      · rw [hodd, Nat.cast_add, Nat.cast_one]
        exact ⟨Or.inr ⟨by linarith, Nat.even_iff.2 (by omega)⟩, Or.inl (by linarith)⟩

/-- What is rounded at a scale misses the quotient by half of the scale at most. -/
theorem roundHalfEven_mul_spec (num : Nat) {den p : Nat} (hden : 0 < den) (hp : 0 < p) :
    (2 * (roundHalfEven num (den * p) * p : ℚ) < 2 * (num / den) + p ∨
      (2 * (roundHalfEven num (den * p) * p : ℚ) = 2 * (num / den) + p ∧
        Even (roundHalfEven num (den * p)))) ∧
    (2 * (num / den : ℚ) < 2 * (roundHalfEven num (den * p) * p) + p ∨
      (2 * (num / den : ℚ) = 2 * (roundHalfEven num (den * p) * p) + p ∧
        Even (roundHalfEven num (den * p)))) := by
  obtain ⟨hleft, hright⟩ := roundHalfEven_spec num (Nat.mul_pos hden hp)
  have hp' : (0 : ℚ) < p := Nat.cast_pos.2 hp
  have hquot : (num / den : ℚ) = (num : ℚ) / (den * p : ℕ) * p := by
    rw [Nat.cast_mul, ← div_div, div_mul_cancel₀ _ hp'.ne']
  rw [hquot]
  generalize roundHalfEven num (den * p) = R at *
  generalize (num : ℚ) / (den * p : ℕ) = Y at *
  constructor
  · rcases hleft with hlt | ⟨heq, heven⟩
    · exact Or.inl (by nlinarith)
    · exact Or.inr ⟨by linear_combination (p : ℚ) * heq, heven⟩
  · rcases hright with hlt | ⟨heq, heven⟩
    · exact Or.inl (by nlinarith)
    · exact Or.inr ⟨by linear_combination (p : ℚ) * heq, heven⟩

/-- At its scale a number of units has at most 53 binary digits … -/
theorem lt_of_scaleOf (units : Nat) : units < 2 * exponentUnit * 2 ^ scaleOf units := by
  have hunit : 2 * exponentUnit = 2 ^ 53 := by decide
  rw [hunit, ← Nat.pow_add]
  refine Nat.lt_of_lt_of_le Nat.lt_log2_self (Nat.pow_le_pow_right (by decide) ?_)
  unfold scaleOf
  omega

/-- … and no less, unless the scale is the lowest. -/
theorem le_of_scaleOf (units : Nat) (h : scaleOf units ≠ 0) :
    exponentUnit * 2 ^ scaleOf units ≤ units := by
  have hunit : exponentUnit = 2 ^ 52 := by decide
  unfold scaleOf at h ⊢
  have hne : units ≠ 0 := by
    rintro rfl
    simp at h
  rw [hunit, ← Nat.pow_add, show 52 + (units.log2 - 52) = units.log2 by omega]
  exact Nat.log2_self_le hne

/-- The step behind a significand is no less than its scale … -/
theorem le_step_after (hs : s = 0 ∨ exponentUnit ≤ R) :
    s ≤ (s * exponentUnit + R) / exponentUnit - 1 := by
  rcases hs with rfl | hlong
  · exact Nat.zero_le _
  · refine Nat.le_sub_one_of_lt ((Nat.le_div_iff_mul_le exponentUnit_pos).2 ?_)
    rw [Nat.succ_mul]
    omega

/-- … and the step before it no greater … -/
theorem step_before_le (hR : R ≤ 2 * exponentUnit) (hc : c + 1 = s * exponentUnit + R) :
    c / exponentUnit - 1 ≤ s := by
  refine Nat.sub_le_of_le_add (Nat.le_of_lt_succ ((Nat.div_lt_iff_lt_mul exponentUnit_pos).2 ?_))
  rw [Nat.succ_mul, Nat.add_one_mul]
  omega

/-- … but less only before the least significand of a scale. -/
theorem eq_of_step_before_lt (hs : s = 0 ∨ exponentUnit ≤ R) (hc : c + 1 = s * exponentUnit + R)
    (hlt : c / exponentUnit - 1 < s) : R = exponentUnit := by
  have hbelow := (Nat.div_lt_iff_lt_mul exponentUnit_pos).1
    (show c / exponentUnit < s + 1 by omega)
  rw [Nat.add_one_mul] at hbelow
  have hlong := hs.resolve_left (by omega)
  omega

/-- **What is rounded to a significand at a scale** rounds to the pattern that is composed of the
scale and the significand.  Above the lowest scale it must fill the significand. -/
theorem RoundsTo.of_scale (hs : s = 0 ∨ exponentUnit ≤ R) (hR : R ≤ 2 * exponentUnit)
    (hfull : s ≠ 0 → (exponentUnit : ℚ) * 2 ^ s ≤ X)
    (hlow : 2 * ((R : ℚ) * 2 ^ s) < 2 * X + 2 ^ s ∨
      (2 * ((R : ℚ) * 2 ^ s) = 2 * X + 2 ^ s ∧ Even R))
    (hhigh : 2 * X < 2 * ((R : ℚ) * 2 ^ s) + 2 ^ s ∨
      (2 * X = 2 * ((R : ℚ) * 2 ^ s) + 2 ^ s ∧ Even R)) :
    RoundsTo X (s * exponentUnit + R) := by
  have hunits : (unitsOf (s * exponentUnit + R) : ℚ) = R * 2 ^ s := by
    rw [unitsOf_scale hs hR]
    push_cast
    rfl
  have heven : Even R → Even (s * exponentUnit + R) :=
    fun h => ((show Even exponentUnit by decide).mul_left s).add h
  constructor
  · intro c hc
    have hstep := congrArg (Nat.cast (R := ℚ)) (unitsOf_succ c)
    rw [hc] at hstep
    push_cast at hstep
    rw [hunits] at hstep ⊢
    rcases Nat.lt_or_eq_of_le (step_before_le hR hc) with hlt | heq
    · -- nothing is left between the least significand and the middle before it
      have hX := hfull (by omega)
      have hpow : (0 : ℚ) < 2 ^ (c / exponentUnit - 1) := pow_pos two_pos _
      rw [eq_of_step_before_lt hs hc hlt] at hstep ⊢
      exact Or.inl (by linarith)
    · rw [heq] at hstep
      rcases hlow with h | ⟨h, heven'⟩
      · exact Or.inl (by linarith)
      · exact Or.inr ⟨by linarith, heven heven'⟩
  · have hstep := congrArg (Nat.cast (R := ℚ)) (unitsOf_succ (s * exponentUnit + R))
    push_cast at hstep
    have hpow : (2 : ℚ) ^ s ≤ 2 ^ ((s * exponentUnit + R) / exponentUnit - 1) :=
      pow_le_pow_right₀ one_le_two (le_step_after hs)
    rw [hstep, hunits]
    rcases hpow.lt_or_eq with hlt | heq
    · refine Or.inl ?_
      rcases hhigh with h | ⟨h, -⟩ <;> linarith
    · rw [← heq]
      rcases hhigh with h | ⟨h, heven'⟩
      · exact Or.inl (by linarith)
      · exact Or.inr ⟨by linarith, heven heven'⟩

/-- **A quotient of units rounds** to the pattern of its scale and of what it is rounded to there. -/
theorem roundsTo_roundHalfEven (num : Nat) {den : Nat} (hden : 0 < den) :
    RoundsTo (num / den) (scaleOf (num / den) * exponentUnit +
      roundHalfEven num (den * Nat.pow 2 (scaleOf (num / den)))) := by
  have hfits := lt_of_scaleOf (num / den)
  have hfull := le_of_scaleOf (num / den)
  generalize scaleOf (num / den) = s at *
  have hp : 0 < 2 ^ s := Nat.pow_pos (by decide)
  have hmiss := roundHalfEven_mul_spec num hden hp
  have hfloor := div_le_roundHalfEven num (den * 2 ^ s)
  have hceil := roundHalfEven_le_div_add_one num (den * 2 ^ s)
  rw [Nat.pow_eq]
  rw [← Nat.div_div_eq_div_mul] at hfloor hceil
  rw [Nat.cast_pow, Nat.cast_ofNat] at hmiss
  refine .of_scale ?_ ?_ (fun hne => ?_) hmiss.1 hmiss.2
  · refine or_iff_not_imp_left.2 fun hne => le_trans ?_ hfloor
    exact (Nat.le_div_iff_mul_le hp).2 (hfull hne)
  · exact hceil.trans ((Nat.div_lt_iff_lt_mul hp).2 hfits)
  · refine le_trans ?_ Nat.cast_div_le
    exact_mod_cast hfull hne

theorem cast_natPow {K : Type} [Semiring K] (base n : Nat) :
    ((Nat.pow base n : Nat) : K) = (base : K) ^ n :=
  Nat.cast_pow base n

theorem div_mul_unitsPerOne (num den : Nat) :
    (num / den : ℚ) * unitsPerOne = (num * Nat.pow 2 1074 : Nat) / den := by
  unfold unitsPerOne
  generalize 1074 = n
  rw [Nat.cast_mul, cast_natPow, Nat.cast_ofNat, div_mul_eq_mul_div]

/-- **A quotient is rounded.** -/
theorem isRounded_ofRatio (num : Nat) {den : Nat} (hden : 0 < den) :
    (ofRatio num den).IsRounded (num / den) := by
  refine RoundsTo.isRounded ?_
  rw [div_mul_unitsPerOne]
  exact roundsTo_roundHalfEven _ hden

/-! ### Decimals -/

theorem isRounded_zero (h : 2 * (q * unitsPerOne) < 1) : zero.IsRounded q := by
  have hunits : unitsOf 0 = 0 ∧ unitsOf 1 = 1 := by decide
  refine RoundsTo.isRounded (b := 0) ⟨fun c hc => absurd hc (Nat.succ_ne_zero c), Or.inl ?_⟩
  rw [hunits.1, Nat.zero_add, hunits.2]
  simpa using h

theorem leastOverflow_le : leastOverflow ≤ 10 ^ (311 : Int) := by
  have hle : 2 ^ 1024 ≤ 10 ^ 311 := by decide +kernel
  have hcast : ((2 ^ 1024 : Nat) : ℚ) ≤ (10 ^ 311 : Nat) := Nat.cast_le.2 hle
  rw [Nat.cast_pow, Nat.cast_pow, Nat.cast_ofNat, Nat.cast_ofNat] at hcast
  rw [zpow_ofNat]
  exact (sub_le_self _ (pow_pos two_pos 970).le).trans hcast

theorem two_mul_unitsPerOne_lt : 2 * unitsPerOne < 10 ^ (331 : Int) := by
  have hlt : 2 * 2 ^ 1074 < 10 ^ 331 := by decide +kernel
  have hcast : ((2 * 2 ^ 1074 : Nat) : ℚ) < (10 ^ 331 : Nat) := Nat.cast_lt.2 hlt
  rw [Nat.cast_mul, Nat.cast_pow, Nat.cast_pow, Nat.cast_ofNat, Nat.cast_ofNat] at hcast
  rw [zpow_ofNat]
  exact hcast

/-- What is less than `10 ^ -331` is less than half of the smallest number. -/
theorem isRounded_zero_of_lt (exponent : Int) (hq : q < 10 ^ exponent) (h : exponent ≤ -331) :
    zero.IsRounded q := by
  refine isRounded_zero ?_
  have hpow : (10 : ℚ) ^ exponent ≤ 10 ^ (-331 : Int) := zpow_le_zpow_right₀ (by norm_num) h
  have hpos : (0 : ℚ) < 10 ^ (-331 : Int) := zpow_pos (by norm_num) _
  calc 2 * (q * unitsPerOne) = q * (2 * unitsPerOne) := by ring
    _ < 10 ^ (-331 : Int) * (2 * unitsPerOne) :=
      mul_lt_mul_of_pos_right (hq.trans_le hpow) (mul_pos two_pos unitsPerOne_pos)
    _ ≤ 10 ^ (-331 : Int) * 10 ^ (331 : Int) :=
      (mul_le_mul_iff_right₀ hpos).2 two_mul_unitsPerOne_lt.le
    _ = 1 := zpow_neg_mul_zpow_self 331 (by norm_num)

/-- A number has at most as many decimal digits as binary ones. -/
theorem cast_lt_pow_log2 (mantissa : Nat) : (mantissa : ℚ) < 10 ^ (mantissa.log2 + 1) := by
  have hlt : mantissa < 10 ^ (mantissa.log2 + 1) :=
    Nat.lt_log2_self.trans_le (Nat.pow_le_pow_left (by decide) _)
  exact_mod_cast hlt

/-- **A decimal is rounded.** -/
theorem isRounded_ofDecimal (mantissa : Nat) (exponent : Int) :
    (ofDecimal mantissa exponent).IsRounded (mantissa * 10 ^ exponent) := by
  have hten : (0 : ℚ) < 10 ^ exponent := zpow_pos (by norm_num) exponent
  unfold ofDecimal
  split
  · rename_i hzero
    rw [hzero, Nat.cast_zero, zero_mul]
    exact isRounded_zero (by norm_num)
  rename_i hne
  split
  · -- out of range at once
    rename_i hlarge
    have hone : (1 : ℚ) ≤ mantissa := Nat.one_le_cast.2 (Nat.pos_of_ne_zero hne)
    have hpow : (10 : ℚ) ^ (311 : Int) ≤ 10 ^ exponent := zpow_le_zpow_right₀ (by norm_num) hlarge
    have hle : leastOverflow ≤ mantissa * 10 ^ exponent :=
      leastOverflow_le.trans (hpow.trans (le_mul_of_one_le_left hten.le hone))
    exact ⟨fun hlt => absurd hle (not_le_of_gt hlt), fun _ => rfl⟩
  split
  · -- less than half of the smallest number
    rename_i hsmall
    refine isRounded_zero_of_lt ((mantissa.log2 + 1 : Nat) + exponent) ?_ ?_
    · rw [zpow_add₀ (by norm_num), zpow_natCast]
      exact mul_lt_mul_of_pos_right (cast_lt_pow_log2 mantissa) hten
    · push_cast
      omega
  split
  · rename_i hnonneg
    obtain ⟨n, rfl⟩ := Int.eq_ofNat_of_zero_le hnonneg
    have h := isRounded_ofRatio (mantissa * Nat.pow 10 n) Nat.one_pos
    rw [Nat.cast_mul, cast_natPow, Nat.cast_one, div_one] at h
    rwa [zpow_natCast]
  · rename_i hneg
    obtain ⟨n, hn⟩ := Int.eq_ofNat_of_zero_le (show 0 ≤ -exponent by omega)
    have hpos : 0 < Nat.pow 10 n := Nat.pow_pos (by decide)
    have h := isRounded_ofRatio mantissa hpos
    rw [cast_natPow] at h
    obtain rfl : exponent = -(n : Int) := by omega
    rw [neg_neg, Int.toNat_natCast, zpow_neg, zpow_natCast, ← div_eq_mul_inv]
    exact h

end Binary64

end Lexis
