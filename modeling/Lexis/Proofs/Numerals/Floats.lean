/-
# Values of floating-point literals

What is left of a floating-point literal without separators is a decimal numeral: digits, and a
fraction or an exponent or both, in each of which there is a digit at least (`FloatDenotes`).
This is due to the grammar of numerals, which allows a separator only before a digit, so that
no part is left empty (`Numeral.IsDecimal.denotes`).

A parse takes the numeral apart into a whole number and a power of ten (`Decimal.decompose?`)
and rounds their product.  It accepts all numerals that denote a number
(`FloatDenotes.parse?`), so only a number out of range has an error
(`floats_nearest_or_saturated`).  That the parts of the numeral as they are read give the
same value as the parse of its text needs no comparison of the two ways: both give the number
that the one is rounded to which the text denotes, and there is one such number only
(`Binary64.IsRounded.unique`).
-/

import Lexis.Proofs.Numerals.Rounding
import Lexis.Proofs.Numerals.Values
import Mathlib.Tactic.FieldSimp

namespace Lexis

/-! ### What decimal numerals denote -/

/-- **The digits of a fraction:** none, or those behind a point, of which there is one at
least. -/
inductive FractionDigits : List Char → List Nat → Prop
  | none : FractionDigits [] []
  | point {cs ds} (h : List.Forall₂ Radix.decimal.Writes cs ds) (hne : ds ≠ []) :
    FractionDigits ('.' :: cs) ds

/-- **The power of ten of an exponent:** none, or a letter, a sign or none, and digits, of which
there is one at least. -/
inductive ExponentValue : List Char → Int → Prop
  | none : ExponentValue [] 0
  | power {mark sign cs ds} (hmark : mark = 'e' ∨ mark = 'E')
      (hsign : sign = [] ∨ sign = ['+'] ∨ sign = ['-'])
      (h : List.Forall₂ Radix.decimal.Writes cs ds) (hne : ds ≠ []) :
    ExponentValue (mark :: (sign ++ cs))
      (if sign = ['-'] then -(Radix.decimal.number ds : Int) else Radix.decimal.number ds)

/-- **The number that a floating-point numeral denotes,** if it is written without separators:
digits, of which there is one at least, and a fraction or an exponent or both. -/
inductive FloatDenotes : List Char → ℚ → Prop
  | parts {whole ds fraction fs exponent e} (hwhole : List.Forall₂ Radix.decimal.Writes whole ds)
      (hne : ds ≠ []) (hfraction : FractionDigits fraction fs)
      (hexponent : ExponentValue exponent e) (hfloat : fraction ≠ [] ∨ exponent ≠ []) :
    FloatDenotes (whole ++ (fraction ++ exponent))
      ((Radix.decimal.number ds + Radix.decimal.number fs / 10 ^ fs.length) * 10 ^ e)

namespace Radix

variable {cs after : List Char} {ds : List Nat}

/-- Digits of the radix ten are decimal digits. -/
theorem isDecimalDigit_of_writes (h : List.Forall₂ Radix.decimal.Writes cs ds) :
    ∀ c ∈ cs, isDecimalDigit c = true := by
  induction h with
  | nil => simp
  | cons hc _ ih => exact List.forall_mem_cons.2 ⟨hc.isDigit, ih⟩

/-- Digits are told from what comes behind them by the first character that is none. -/
theorem span_of_writes (h : List.Forall₂ Radix.decimal.Writes cs ds)
    (hafter : ∀ c ∈ after.head?, isDecimalDigit c = false) :
    (cs ++ after).takeWhile isDecimalDigit = cs ∧
      (cs ++ after).dropWhile isDecimalDigit = after := by
  have hall := isDecimalDigit_of_writes h
  rw [List.takeWhile_append_of_pos hall, List.dropWhile_append_of_pos hall]
  cases after with
  | nil => simp
  | cons c after => simp [hafter c rfl]

/-- Digits without separators are digits of the grammar. -/
theorem digits_of_writes (h : List.Forall₂ Radix.decimal.Writes cs ds) (hne : ds ≠ []) :
    Digits .decimal cs := by
  induction h with
  | nil => exact absurd rfl hne
  | @cons c d cs ds hc hcs ih =>
    by_cases hds : ds = []
    · subst hds
      obtain rfl := List.forall₂_nil_right_iff.1 hcs
      exact .digit hc.isDigit
    · exact .group 0 hc.isDigit (ih hds)

end Radix

/-! ### Numerals that are parsed -/

namespace FractionDigits

variable {fraction after : List Char} {fs : List Nat}

theorem split (h : FractionDigits fraction fs)
    (hafter : ∀ c ∈ after.head?, isDecimalDigit c = false ∧ c ≠ '.') :
    ∃ cs, List.Forall₂ Radix.decimal.Writes cs fs ∧
      Decimal.fraction (fraction ++ after) = (cs, after) := by
  cases h with
  | none =>
    refine ⟨[], .nil, ?_⟩
    cases after with
    | nil => rfl
    | cons c after => exact if_neg (hafter c rfl).2
  | @point cs ds h hne =>
    obtain ⟨htake, hdrop⟩ := Radix.span_of_writes h fun c hc => (hafter c hc).1
    refine ⟨cs, h, ?_⟩
    rw [List.cons_append, Decimal.fraction, if_pos rfl, htake, hdrop]

end FractionDigits

theorem Decimal.digits?_of_writes {cs : List Char} {ds : List Nat}
    (h : List.Forall₂ Radix.decimal.Writes cs ds) (hne : ds ≠ []) :
    digits? cs = some (Radix.decimal.number ds) := by
  have hcs : cs ≠ [] := (Radix.digits_of_writes h hne).ne_nil
  rw [digits?, if_pos ⟨hcs, List.all_eq_true.2 (Radix.isDecimalDigit_of_writes h)⟩]
  exact congrArg some (Radix.numberOf_of_writes h)

namespace ExponentValue

variable {exponent : List Char} {e : Int}

theorem exponent? (h : ExponentValue exponent e) : Decimal.exponent? exponent = some e := by
  cases h with
  | none => rfl
  | @power mark sign cs ds hmark hsign h hne =>
    have hs := ExponentText.sign?_append hsign (Radix.digits_of_writes h hne) []
    rw [List.append_nil] at hs
    have hminus : Numeral.sign? (sign ++ cs) = some '-' ↔ sign = ['-'] := by
      rw [← Option.head?_toList (o := Numeral.sign? _), hs]
      rcases hsign with rfl | rfl | rfl <;> simp
    rw [Decimal.exponent?, if_pos hmark]
    dsimp only
    rw [hs, List.drop_left, Decimal.digits?_of_writes h hne, Option.map_some]
    simp only [hminus]

/-- An exponent begins with no digit and no point. -/
theorem head_ne (h : ExponentValue exponent e) :
    ∀ c ∈ exponent.head?, isDecimalDigit c = false ∧ c ≠ '.' := by
  cases h with
  | none => simp
  | power hmark =>
    intro c hc
    obtain rfl := Option.some.inj hc
    rcases hmark with rfl | rfl <;> decide

end ExponentValue

/-- Digits behind the point count by powers of ten less. -/
theorem decimal_value (whole fs : List Nat) (e : Int) :
    ((Radix.decimal.number (whole ++ fs) : Nat) : ℚ) * 10 ^ (e - fs.length) =
      (Radix.decimal.number whole + Radix.decimal.number fs / 10 ^ fs.length) * 10 ^ e := by
  have hten : (10 : ℚ) ≠ 0 := by norm_num
  have hpow : (10 : ℚ) ^ fs.length ≠ 0 := pow_ne_zero _ hten
  rw [Radix.number_append, zpow_sub₀ hten, zpow_natCast]
  push_cast
  rw [show ((Radix.decimal.base : Nat) : ℚ) = 10 from rfl]
  field_simp

namespace FloatDenotes

variable {text : List Char} {q q' : ℚ}

/-- **A numeral is taken apart** into a whole number and a power of ten. -/
theorem decompose? (h : FloatDenotes text q) :
    ∃ mantissa exponent, Decimal.decompose? text = some (mantissa, exponent) ∧
      (mantissa * 10 ^ exponent : ℚ) = q := by
  cases h with
  | @parts whole ds fraction fs exponent e hwhole hne hfraction hexponent _ =>
    obtain ⟨cs, hcs, hsplit⟩ := hfraction.split hexponent.head_ne
    have hhead : ∀ c ∈ (fraction ++ exponent).head?, isDecimalDigit c = false := by
      cases hfraction with
      | none => exact fun c hc => (hexponent.head_ne c hc).1
      | point =>
        intro c hc
        obtain rfl := Option.some.inj hc
        decide
    obtain ⟨htake, hdrop⟩ := Radix.span_of_writes hwhole hhead
    have hnil : whole ++ cs ≠ [] :=
      List.append_ne_nil_of_left_ne_nil (Radix.digits_of_writes hwhole hne).ne_nil cs
    have hnumber : numberOf 10 (whole ++ cs) = Radix.decimal.number (ds ++ fs) :=
      Radix.numberOf_of_writes (List.rel_append hwhole hcs)
    refine ⟨_, _, ?_, decimal_value ds fs e⟩
    rw [Decimal.decompose?]
    dsimp only
    rw [htake, hdrop, hsplit]
    dsimp only
    rw [if_neg hnil, hexponent.exponent?, Option.map_some, hnumber, hcs.length_eq]

/-- **A numeral denotes one number.** -/
theorem unique (h : FloatDenotes text q) (h' : FloatDenotes text q') : q' = q := by
  obtain ⟨m, e, heq, rfl⟩ := h.decompose?
  obtain ⟨m', e', heq', rfl⟩ := h'.decompose?
  obtain ⟨rfl, rfl⟩ := Prod.mk.inj (Option.some.inj (heq.symm.trans heq'))
  rfl

/-- **The parse of a numeral succeeds,** and gives what the number is rounded to. -/
theorem parse? (h : FloatDenotes text q) {x : Binary64} (hx : x.IsRounded q) :
    Decimal.parse? text = some x := by
  obtain ⟨m, e, heq, rfl⟩ := h.decompose?
  rw [Decimal.parse?, heq, hx.unique (Binary64.isRounded_ofDecimal m e)]
  rfl

end FloatDenotes

/-! ### Numerals that are read -/

/-- **The parts of a numeral** with a fraction or an exponent belong to the grammar. -/
structure Numeral.IsDecimal (n : Numeral) : Prop where
  /-- It is not marked. -/
  radix : n.radix = .decimal
  /-- There are digits before the point … -/
  whole : Digits .decimal n.whole
  /-- … and behind it … -/
  fraction : ∀ run ∈ n.fraction, Digits .decimal run
  /-- … and in the exponent, behind a letter and a sign or none. -/
  exponent : ∀ e ∈ n.exponent, (e.mark = 'e' ∨ e.mark = 'E') ∧
    (∀ c ∈ e.sign, c = '+' ∨ c = '-') ∧ Digits .decimal e.digits

namespace Numeral

/-- **A floating-point numeral that is read** has decimal parts. -/
theorem isDecimal_read {c : Char} (hc : isDecimalDigit c = true) (cs : List Char)
    (hfloat : (read (c :: cs)).isFloat = true) : (read (c :: cs)).IsDecimal := by
  unfold read at hfloat ⊢
  cases hm : marked? (c :: cs) with
  | some n =>
    obtain ⟨radix, run, rfl, -⟩ := of_marked?_eq_some hm
    rw [hm] at hfloat
    simp [isFloat] at hfloat
  | none =>
    have hdigits : digits? .decimal (c :: cs) = some (digitRun .decimal (c :: cs)) := if_pos hc
    rw [Option.getD_none, readDecimal_eq]
    exact {
      radix := rfl
      whole := digits_of_digits? hdigits
      fraction := fun run hrun => digits_of_fraction? hrun
      exponent := fun e he => by
        obtain ⟨hmark, hsign, _, hdigits⟩ := of_exponent?_eq_some he
        exact ⟨hmark, hsign, digits_of_digits? hdigits⟩ }

namespace IsDecimal

variable {n : Numeral}

theorem fractionDigits (h : n.IsDecimal) :
    FractionDigits (digitsOf (fractionChars n.fraction))
      ((digitsOf (n.fraction.getD [])).map fun c => (digitValue? c).getD 0) := by
  cases hfraction : n.fraction with
  | none => exact .none
  | some run =>
    have hrun := h.fraction run hfraction
    exact .point hrun.forall₂_writes (by simpa using hrun.digitsOf_ne_nil)

theorem exponentValue (h : n.IsDecimal) :
    ExponentValue (digitsOf (exponentChars n.exponent))
      ((n.exponent.map Exponent.value).getD 0) := by
  cases hexponent : n.exponent with
  | none => exact .none
  | some e =>
    obtain ⟨hmark, hsign, hdigits⟩ := h.exponent e hexponent
    obtain ⟨mark, sign, run⟩ := e
    have hne : (digitsOf run).map (fun c => (digitValue? c).getD 0) ≠ [] := by
      simpa using hdigits.digitsOf_ne_nil
    have hletter : (mark != '_') = true := by rcases hmark with rfl | rfl <;> rfl
    have hnumber : Radix.decimal.valueOf run = Radix.decimal.number _ :=
      Radix.numberOf_of_writes hdigits.forall₂_writes
    cases sign with
    | none =>
      have hvalue := ExponentValue.power hmark (Or.inl rfl) hdigits.forall₂_writes hne
      rw [if_neg (by simp), ← hnumber] at hvalue
      simpa [exponentChars, Exponent.chars, Exponent.value, digitsOf, hletter] using hvalue
    | some c =>
      have hsigned : [c] = [] ∨ [c] = ['+'] ∨ [c] = ['-'] := by
        rcases hsign c rfl with rfl | rfl <;> simp
      have hvalue := ExponentValue.power hmark hsigned hdigits.forall₂_writes hne
      rw [← hnumber] at hvalue
      have hseparator : (c != '_') = true := by rcases hsign c rfl with rfl | rfl <;> rfl
      simpa [exponentChars, Exponent.chars, Exponent.value, digitsOf, hletter, hseparator]
        using hvalue

/-- The mantissa is what the digits before and behind the point denote. -/
theorem mantissa_eq (h : n.IsDecimal) :
    n.mantissa = Radix.decimal.number (((digitsOf n.whole).map fun c => (digitValue? c).getD 0) ++
      (digitsOf (n.fraction.getD [])).map fun c => (digitValue? c).getD 0) := by
  have hfraction : List.Forall₂ Radix.decimal.Writes (digitsOf (n.fraction.getD []))
      ((digitsOf (n.fraction.getD [])).map fun c => (digitValue? c).getD 0) := by
    cases hf : n.fraction with
    | none => exact .nil
    | some run => exact (h.fraction run hf).forall₂_writes
  rw [mantissa, Radix.valueOf, digitsOf_append]
  exact Radix.numberOf_of_writes (List.rel_append h.whole.forall₂_writes hfraction)

/-- **Without separators a numeral denotes** its mantissa, counted by its scale. -/
theorem denotes (h : n.IsDecimal) (hfloat : n.isFloat = true) :
    FloatDenotes (digitsOf n.chars) (n.mantissa * 10 ^ n.scale) := by
  have hparts : digitsOf (fractionChars n.fraction) ≠ [] ∨
      digitsOf (exponentChars n.exponent) ≠ [] := by
    rcases Bool.or_eq_true_iff.1 hfloat with hsome | hsome
    · obtain ⟨run, hrun⟩ := Option.isSome_iff_exists.1 hsome
      exact Or.inl (by simp [hrun, fractionChars, digitsOf])
    · obtain ⟨e, he⟩ := Option.isSome_iff_exists.1 hsome
      have hletter : e.mark ≠ '_' := by
        rcases (h.exponent e he).1 with hmark | hmark <;> rw [hmark] <;> decide
      exact Or.inr (by simp [he, exponentChars, Exponent.chars, digitsOf, hletter])
  have hdenotes := FloatDenotes.parts h.whole.forall₂_writes
    (by simpa using h.whole.digitsOf_ne_nil) h.fractionDigits h.exponentValue hparts
  rw [← decimal_value, ← h.mantissa_eq, List.length_map] at hdenotes
  rwa [chars, h.radix, Radix.mark, List.nil_append, List.append_assoc, digitsOf_append,
    digitsOf_append]

end IsDecimal

end Numeral

/-! ### Tokens -/

/-- **What a floating-point token holds:** `q` is the number that its text denotes. -/
structure Source.HoldsFloat (s : Source) (t : Token) (text : List Char) (value : Binary64)
    (q : ℚ) : Prop where
  /-- Without separators the text denotes the number … -/
  denotes : FloatDenotes (digitsOf text) q
  /-- … and no other. -/
  unique : ∀ q', FloatDenotes (digitsOf text) q' → q' = q
  /-- The parse of it succeeds. -/
  parse : Decimal.parse? (digitsOf text) = some value
  /-- The value is the number that is nearest, unless it is out of range. -/
  nearest : q < Binary64.leastOverflow → ∀ x : Binary64, x.IsNearest q ↔ x = value
  /-- Out of range it is infinity. -/
  saturated : Binary64.leastOverflow ≤ q → value = Binary64.infinity
  /-- The token has no error of its own, unless it is out of range, and then it has one. -/
  errors : (s.errors.filter fun e => decide (e.span = t.span)) =
    if q < Binary64.leastOverflow then []
    else [⟨.invalidNumericLiteral, t.span, some ⟨.floatLiteral, text⟩⟩]

/-- The lexeme of a floating-point token consists of a numeral that has a fraction or an
exponent, and of what is attached. -/
theorem Source.exists_step_of_float {s : Source} {t : Token} (ht : t ∈ s.tokens)
    {text : List Char} {value : Binary64} (hpayload : t.payload = .float text value) :
    ∃ numeral suffix r, (.number numeral suffix, r) ∈ (Reader.ofSource s).steps ∧
      numeral.isFloat = true ∧ text = numeral.chars ∧ value = numeral.float ∧
      t.span = r.spanOver text.length := by
  obtain ⟨l, r, p, hstep, -, -, hp, rfl⟩ := exists_step_of_mem_tokens ht
  obtain rfl : p = .float text value := hpayload
  obtain ⟨numeral, suffix, rfl, hn⟩ := Lexeme.makes_of_payload? hp
  unfold Payload.ofNumeral at hn
  split at hn
  · rename_i hfloat
    obtain ⟨rfl, rfl⟩ := Payload.float.inj hn
    exact ⟨numeral, suffix, r, hstep, hfloat, rfl, rfl, rfl⟩
  · simp at hn

namespace Lexeme

variable {numeral : Numeral} {suffix : List Char} {r : Reader}

/-- A floating-point numeral that is read denotes a number, and this is rounded. -/
theorem denotes_of_read? (hl : read? r.rest = some (.number numeral suffix))
    (hfloat : numeral.isFloat = true) :
    FloatDenotes (digitsOf numeral.chars) (numeral.mantissa * 10 ^ numeral.scale) := by
  obtain ⟨⟨c, cs, hrest, hc⟩, rfl, -⟩ := number_of_read? hl
  rw [hrest] at hfloat ⊢
  exact (Numeral.isDecimal_read hc cs hfloat).denotes hfloat

/-- **A floating-point number has an error over its text** if it is out of range. -/
theorem filter_errors_float {q : ℚ} (hl : read? r.rest = some (.number numeral suffix))
    (hfloat : numeral.isFloat = true) (hq : numeral.float.IsRounded q) :
    ((number numeral suffix).errors r).filter
        (fun e => decide (e.span = r.spanOver numeral.chars.length)) =
      if q < Binary64.leastOverflow then []
      else [⟨.invalidNumericLiteral, r.spanOver numeral.chars.length,
        some ⟨.floatLiteral, numeral.chars⟩⟩] := by
  have hoverflow : numeral.overflows = !numeral.float.isFinite := if_pos hfloat
  have hrecovered : Recovered.ofPayload (.ofNumeral numeral) = ⟨.floatLiteral, numeral.chars⟩ := by
    rw [Payload.ofNumeral, if_pos hfloat]
    rfl
  rw [filter_errors_numeral hl, hoverflow, hrecovered]
  by_cases hlt : q < Binary64.leastOverflow
  · rw [if_pos hlt, hq.isFinite_iff.2 hlt]
    rfl
  · rw [if_neg hlt, Bool.eq_false_iff.2 (mt hq.isFinite_iff.1 hlt)]
    rfl

end Lexeme

/-- **Floating-point numbers are nearest or saturated.**  Without separators a floating-point
literal is a decimal numeral with a fraction or an exponent, so the parse of it cannot fail.  If
the number that it denotes is less than `2 ^ 1024 - 2 ^ 970`, the value of the token is the
binary64 number nearest to it, of two that are equally near the even one, and no error has the
span of the token.  If it is not, the value is infinity, and one error tells of it. -/
theorem floats_nearest_or_saturated (s : Source) {t : Token} (ht : t ∈ s.tokens)
    {text : List Char} {value : Binary64} (hpayload : t.payload = .float text value) :
    ∃ q, s.HoldsFloat t text value q := by
  obtain ⟨numeral, suffix, r, hstep, hfloat, rfl, rfl, hspan⟩ := s.exists_step_of_float ht hpayload
  obtain ⟨-, hl, -⟩ := Reader.of_mem_steps hstep
  have hdenotes := Lexeme.denotes_of_read? hl hfloat
  have hrounded : numeral.float.IsRounded (numeral.mantissa * 10 ^ numeral.scale) :=
    Binary64.isRounded_ofDecimal numeral.mantissa numeral.scale
  refine ⟨_, hdenotes, fun q' h => hdenotes.unique h, hdenotes.parse? hrounded,
    fun hlt x => ⟨fun hx => hx.unique (hrounded.nearest hlt), fun hx => hx ▸ hrounded.nearest hlt⟩,
    hrounded.saturated, ?_⟩
  rw [hspan, ← Lexeme.filter_errors_float hl hfloat hrounded]
  exact Source.filter_errors_spanOver hstep _

/-- With separators in all parts, somewhat less than the smallest positive number, to which it
rounds. -/
theorem floats_nearest_or_saturated_subnormal :
    ∃ t ∈ (Source.ofString "a" "4_9.0_0e-3_25").tokens,
      t.payload = .float "4_9.0_0e-3_25".toList ⟨1⟩ ∧
      ∃ q, (Source.ofString "a" "4_9.0_0e-3_25").HoldsFloat t "4_9.0_0e-3_25".toList ⟨1⟩ q := by
  have htoken : (Scan.ofSource (Source.ofString "a" "4_9.0_0e-3_25")).next.1 ∈
      (Source.ofString "a" "4_9.0_0e-3_25").tokens := by
    decide +kernel
  have hpayload : (Scan.ofSource (Source.ofString "a" "4_9.0_0e-3_25")).next.1.payload =
      .float "4_9.0_0e-3_25".toList ⟨1⟩ := by
    decide +kernel
  exact ⟨_, htoken, hpayload, floats_nearest_or_saturated _ htoken hpayload⟩

end Lexis
