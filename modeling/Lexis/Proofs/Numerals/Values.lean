/-
# Values of integer literals

What is left of an integer literal without the mark of its radix and without separators are
the digits that it is parsed from.  There is at least one, and each of them is a digit of the
radix, since the literal belongs to the grammar of numerals (`Digits.digitsOf_ne_nil`,
`Digits.forall₂_writes`).  So they denote a number (`Radix.number`).

A parse takes the digits one by one and fails with the first of them that is no digit or
takes the number out of range (`Radix.parse`).  On the way the number never decreases, so a parse
of digits fails only if the whole number is out of range (`Radix.parse_of_writes`).  This is
when the literal takes the greatest value and an error (`integers_exact_or_saturated`).
-/

import Lexis.Numeral.Parse
import Lexis.Proofs.Blanks
import Lexis.Proofs.Numerals.Literals
import Lexis.Proofs.Spelling
import Mathlib.Data.Nat.Digits.Defs

namespace Lexis

namespace Radix

/-- **The character writes a digit** of the radix, a letter in either case. -/
def Writes (r : Radix) (c : Char) (d : Nat) : Prop := d < r.base ∧ EitherCase c (Nat.digitChar d)

/-- **The number that digits denote** by their places, the last of which counts ones. -/
def number (r : Radix) (digits : List Nat) : Nat := Nat.ofDigits r.base digits.reverse

variable {r : Radix} {c : Char} {cs : List Char} {d : Nat} {ds : List Nat} {most : Nat}

theorem base_pos (r : Radix) : 0 < r.base := by
  cases r <;> decide

/-! ### Digits and numbers -/

/-- What has a value as a digit writes that value. -/
theorem eitherCase_of_digitValue? (h : digitValue? c = some d) :
    EitherCase c (Nat.digitChar d) := by
  have hall : ∀ n < 103, ∀ d ∈ digitValue? (Char.ofNat n),
      Char.ofNat n = Nat.digitChar d ∨ Char.ofNat n = (Nat.digitChar d).toUpper := by
    decide +kernel
  have hc : c.toNat < 103 := Nat.lt_succ_of_le (toNat_of_digitValue? h).2
  have hwrites := hall c.toNat hc d (by rwa [Char.ofNat_toNat])
  rwa [Char.ofNat_toNat] at hwrites

theorem Writes.digitValue? (h : r.Writes c d) : digitValue? c = some d := by
  have hbase : r.base ≤ 16 := by cases r <;> decide
  exact digitValue?_of_eitherCase (Nat.lt_of_lt_of_le h.1 hbase) h.2

theorem Writes.isDigit (h : r.Writes c d) : r.isDigit c = true := by
  rw [Radix.isDigit, isDigitBelow, h.digitValue?]
  exact decide_eq_true h.1

/-- **A digit of a radix** writes a number below the base. -/
theorem writes_of_isDigit (h : r.isDigit c = true) : r.Writes c ((digitValue? c).getD 0) := by
  rw [Radix.isDigit, isDigitBelow] at h
  split at h
  · rename_i d hd
    rw [hd]
    exact ⟨of_decide_eq_true h, eitherCase_of_digitValue? hd⟩
  · simp at h

theorem number_cons (r : Radix) (d : Nat) (ds : List Nat) :
    r.number (d :: ds) = d * r.base ^ ds.length + r.number ds := by
  rw [number, number, Nat.ofDigits_reverse_cons, Nat.add_comm, Nat.mul_comm]

theorem number_append (r : Radix) (ds fs : List Nat) :
    r.number (ds ++ fs) = r.number ds * r.base ^ fs.length + r.number fs := by
  rw [number, number, number, List.reverse_append, Nat.ofDigits_append, List.length_reverse,
    Nat.add_comm, Nat.mul_comm]

/-- One more digit in front of others shifts what stands before them. -/
theorem shift_cons (r : Radix) (n d : Nat) (ds : List Nat) :
    (n * r.base + d) * r.base ^ ds.length + r.number ds =
      n * r.base ^ (d :: ds).length + r.number (d :: ds) := by
  rw [number_cons, List.length_cons, pow_succ]
  ring

/-- **Digits are summed up to the number that they denote.** -/
theorem numberOf_of_writes (h : List.Forall₂ r.Writes cs ds) :
    numberOf r.base cs = r.number ds := by
  suffices hfold : ∀ n, cs.foldl (fun n c => n * r.base + (digitValue? c).getD 0) n =
      n * r.base ^ ds.length + r.number ds by
    rw [numberOf, hfold, Nat.zero_mul, Nat.zero_add]
  induction h with
  | nil => simp [number]
  | cons hc _ ih =>
    intro n
    rw [List.foldl_cons, ih, hc.digitValue?, Option.getD_some, shift_cons]

/-! ### Parses -/

/-- **Digits are accumulated** to the number that they denote, or out of range. -/
theorem accumulate_of_writes (h : List.Forall₂ r.Writes cs ds) {n : Nat} (hn : n ≤ most) :
    r.accumulate most n cs =
      if n * r.base ^ ds.length + r.number ds ≤ most then
        .ok (n * r.base ^ ds.length + r.number ds)
      else .error .overflow := by
  induction h generalizing n with
  | nil => simp [accumulate, number, hn]
  | @cons c d cs ds hc _ ih =>
    simp only [accumulate, hc.isDigit, if_true, hc.digitValue?, Option.getD_some, ← shift_cons]
    by_cases hm : n * r.base + d ≤ most
    · rw [if_pos hm, ih hm]
    · -- what is out of range stays so
      have hpow : 0 < r.base ^ ds.length := Nat.pow_pos r.base_pos
      have hle := Nat.le_mul_of_pos_right (n * r.base + d) hpow
      rw [if_neg hm, if_neg (by omega)]

/-- **A parse of digits fails only out of range.** -/
theorem parse_of_writes (h : List.Forall₂ r.Writes cs ds) (hne : ds ≠ []) :
    r.parse most cs =
      if r.number ds ≤ most then .ok (r.number ds) else .error .overflow := by
  have hparse := accumulate_of_writes h (Nat.zero_le most)
  rw [Nat.zero_mul, Nat.zero_add] at hparse
  cases h with
  | nil => exact absurd rfl hne
  | cons hc _ =>
    rw [parse, if_neg, hparse]
    rintro ⟨rfl, -⟩
    have hplus : r.isDigit '+' = false := by cases r <;> decide
    rw [hc.isDigit] at hplus
    simp at hplus

/-- What consists of digits writes the values of these. -/
theorem forall₂_writes_of_isDigit (h : ∀ c ∈ cs, r.isDigit c = true) :
    List.Forall₂ r.Writes cs (cs.map fun c => (digitValue? c).getD 0) := by
  rw [List.forall₂_map_right_iff, List.forall₂_same]
  exact fun c hc => writes_of_isDigit (h c hc)

theorem parse_of_isDigit (h : ∀ c ∈ cs, r.isDigit c = true) (hne : cs ≠ []) (most : Nat) :
    r.parse most cs =
      if numberOf r.base cs ≤ most then .ok (numberOf r.base cs) else .error .overflow := by
  have hwrites := forall₂_writes_of_isDigit h
  rw [numberOf_of_writes hwrites]
  exact parse_of_writes hwrites (by simpa using hne)

end Radix

/-! ### Literals -/

theorem digitsOf_append (as bs : List Char) : digitsOf (as ++ bs) = digitsOf as ++ digitsOf bs :=
  List.filter_append as bs

namespace Digits

variable {r : Radix} {run : List Char}

/-- Without separators there are digits left. -/
theorem digitsOf_ne_nil (h : Digits r run) : digitsOf run ≠ [] := by
  obtain ⟨c, cs, rfl, hc⟩ := h.exists_cons
  have hsep : c ≠ '_' := fun heq => by
    rw [heq, r.isDigit_underscore] at hc
    simp at hc
  simp [digitsOf, hsep]

/-- **Without separators digits are what is written.** -/
theorem forall₂_writes (h : Digits r run) :
    List.Forall₂ r.Writes (digitsOf run)
      ((digitsOf run).map fun c => (digitValue? c).getD 0) := by
  refine Radix.forall₂_writes_of_isDigit fun c hc => ?_
  obtain ⟨hmem, hsep⟩ := List.mem_filter.1 hc
  exact (h.of_mem c hmem).resolve_right (by simpa using hsep)

/-- **The parse of a run** without its separators fails only out of range. -/
theorem parse_digitsOf (h : Digits r run) (most : Nat) :
    r.parse most (digitsOf run) =
      if r.valueOf run ≤ most then .ok (r.valueOf run) else .error .overflow := by
  refine Radix.parse_of_isDigit (fun c hc => ?_) h.digitsOf_ne_nil most
  obtain ⟨hmem, hsep⟩ := List.mem_filter.1 hc
  exact (h.of_mem c hmem).resolve_right (by simpa using hsep)

end Digits

/-- **What an integer token holds:** `run` is its text behind the mark of the radix, and
`digits` are what is written there between the separators. -/
structure Source.HoldsInteger (s : Source) (t : Token) (text : List Char) (radix : Radix)
    (value : Nat) (run : List Char) (digits : List Nat) : Prop where
  /-- The text is the mark and a run of digits with separators. -/
  spelled : text = radix.mark ++ run
  /-- The run belongs to the grammar of digits. -/
  grammar : Digits radix run
  /-- Without separators the run writes the digits, of which there is one at least. -/
  written : List.Forall₂ radix.Writes (digitsOf run) digits
  ne_nil : digits ≠ []
  /-- A parse of them fails only since the number is out of range. -/
  parse : radix.parse (2 ^ 128 - 1) (digitsOf run) =
    if radix.number digits ≤ 2 ^ 128 - 1 then .ok (radix.number digits) else .error .overflow
  /-- The value is the number, unless it is out of range. -/
  value : value = if radix.number digits ≤ 2 ^ 128 - 1 then radix.number digits else 2 ^ 128 - 1
  /-- The token has no error of its own, unless the number is out of range, and then it has one. -/
  errors : (s.errors.filter fun e => decide (e.span = t.span)) =
    if radix.number digits ≤ 2 ^ 128 - 1 then []
    else [⟨.invalidNumericLiteral, t.span, some ⟨.integerLiteral, text⟩⟩]

/-- An integer consists of the mark of its radix and digits. -/
theorem NumeralText.exists_digits {radix : Radix} {text : List Char}
    (h : NumeralText radix false text) : ∃ run, text = radix.mark ++ run ∧ Digits radix run := by
  cases h with
  | marked _ hrun => exact ⟨_, rfl, hrun⟩
  | @decimal whole fraction exponent _ hwhole _ _ hfloat =>
    obtain ⟨hfraction, hexponent⟩ := not_or.1 (mt hfloat.2 Bool.false_ne_true)
    rw [not_not.1 hfraction, not_not.1 hexponent, List.append_nil, List.append_nil]
    exact ⟨whole, rfl, hwhole⟩

namespace Lexeme

variable {radix : Radix} {run suffix : List Char} {r : Reader}

theorem digits_of_read? (hl : read? r.rest = some (.number ⟨radix, run, none, none⟩ suffix)) :
    Digits radix run := by
  obtain ⟨hnum, -⟩ := longest_of_number hl
  obtain ⟨run', hrun, hdigits⟩ := NumeralText.exists_digits hnum
  rw [Numeral.chars_marked] at hrun
  rwa [List.append_cancel_left hrun]

/-- **The only error over the text of a number** is that of an overflow. -/
theorem filter_errors_numeral {numeral : Numeral}
    (hl : read? r.rest = some (.number numeral suffix)) :
    ((number numeral suffix).errors r).filter
        (fun e => decide (e.span = r.spanOver numeral.chars.length)) =
      if numeral.overflows then [⟨.invalidNumericLiteral, r.spanOver numeral.chars.length,
        some (Recovered.ofPayload (.ofNumeral numeral))⟩]
      else [] := by
  have hbehind := offset_lt_of_number hl
  -- what is attached begins behind the text
  have hne : (r.advanceBy numeral.chars.length).spanOver suffix.length ≠
      r.spanOver numeral.chars.length := fun h =>
    Nat.ne_of_gt hbehind (congrArg (fun span => span.start.offset) h)
  have hattached : (if suffix = [] then [] else [(⟨.invalidNumericLiteral,
      (r.advanceBy numeral.chars.length).spanOver suffix.length,
      some (Recovered.ofPayload (.ofNumeral numeral))⟩ : LexError)]).filter
        (fun e => decide (e.span = r.spanOver numeral.chars.length)) = [] := by
    split
    · rfl
    · rw [List.filter_cons_of_neg (by simpa only [decide_eq_true_eq] using hne), List.filter_nil]
  rw [errors_number, List.filter_append, hattached, List.append_nil]
  split
  · exact List.filter_cons_of_pos (decide_eq_true rfl)
  · rfl

/-- **An integer has an error over its text** if it is out of range. -/
theorem filter_errors_integer
    (hl : read? r.rest = some (.number ⟨radix, run, none, none⟩ suffix)) :
    ((number ⟨radix, run, none, none⟩ suffix).errors r).filter
        (fun e => decide (e.span = r.spanOver (radix.mark ++ run).length)) =
      if radix.valueOf run ≤ Numeral.maxInteger then []
      else [⟨.invalidNumericLiteral, r.spanOver (radix.mark ++ run).length,
        some ⟨.integerLiteral, radix.mark ++ run⟩⟩] := by
  have hoverflow : (⟨radix, run, none, none⟩ : Numeral).overflows =
      decide (Numeral.maxInteger < radix.valueOf run) := rfl
  have hrecovered : Recovered.ofPayload (.ofNumeral ⟨radix, run, none, none⟩) =
      ⟨.integerLiteral, (⟨radix, run, none, none⟩ : Numeral).chars⟩ := rfl
  have hfilter := filter_errors_numeral hl
  rw [hoverflow, hrecovered, Numeral.chars_marked] at hfilter
  rw [hfilter]
  by_cases hle : radix.valueOf run ≤ Numeral.maxInteger
  · rw [if_pos hle, if_neg (by simpa using hle)]
  · rw [if_neg hle, if_pos (by simpa using hle)]

end Lexeme

/-- **Integers are exact or saturated.**  What an integer literal consists of, behind the mark of
its radix and without separators, is digits.  If the number that they denote is less than
`2 ^ 128`, it is the value of the token, and no error has the span of the token.  If it is not,
the value is `2 ^ 128 - 1`, and one error tells of it.  No other failure of a parse is
possible. -/
theorem integers_exact_or_saturated (s : Source) {t : Token} (ht : t ∈ s.tokens)
    {text : List Char} {radix : Radix} {value : Nat}
    (hpayload : t.payload = .integer text radix value) :
    ∃ run digits, s.HoldsInteger t text radix value run digits := by
  obtain ⟨run, suffix, r, hstep, rfl, rfl, hspan⟩ := s.exists_step_of_integer ht hpayload
  obtain ⟨-, hl, -⟩ := Reader.of_mem_steps hstep
  have hgrammar := Lexeme.digits_of_read? hl
  have hwritten := hgrammar.forall₂_writes
  have hne : (digitsOf run).map (fun c => (digitValue? c).getD 0) ≠ [] := by
    simpa using hgrammar.digitsOf_ne_nil
  have hmost : Numeral.maxInteger = 2 ^ 128 - 1 := rfl
  have hvalue : radix.valueOf run = radix.number _ := Radix.numberOf_of_writes hwritten
  refine ⟨run, _, rfl, hgrammar, hwritten, hne, Radix.parse_of_writes hwritten hne, ?_, ?_⟩
  · rw [hvalue, hmost, Nat.min_def]
  · rw [hspan, ← hvalue, ← hmost, ← Lexeme.filter_errors_integer hl]
    exact Source.filter_errors_spanOver hstep _

/-- The least hexadecimal number that is out of range, with zeros before it. -/
theorem integers_exact_or_saturated_overflow :
    ∃ t ∈ (Source.ofString "a" "0x0_10000000000000000_0000000000000000").tokens,
      t.payload = .integer "0x0_10000000000000000_0000000000000000".toList .hexadecimal
        (2 ^ 128 - 1) ∧
      ∃ run digits, (Source.ofString "a" "0x0_10000000000000000_0000000000000000").HoldsInteger t
        "0x0_10000000000000000_0000000000000000".toList .hexadecimal (2 ^ 128 - 1) run digits := by
  have htoken : (Scan.ofSource (Source.ofString "a"
      "0x0_10000000000000000_0000000000000000")).next.1 ∈
        (Source.ofString "a" "0x0_10000000000000000_0000000000000000").tokens := by
    decide +kernel
  have hpayload : (Scan.ofSource (Source.ofString "a"
      "0x0_10000000000000000_0000000000000000")).next.1.payload =
        .integer "0x0_10000000000000000_0000000000000000".toList .hexadecimal (2 ^ 128 - 1) := by
    decide +kernel
  exact ⟨_, htoken, hpayload, integers_exact_or_saturated _ htoken hpayload⟩

end Lexis
