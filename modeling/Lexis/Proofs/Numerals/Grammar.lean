/-
# The grammar of numerals

Numerals have a grammar (`NumeralText`): digits with separators, before them a mark of
their radix or nothing, and after decimal ones a fraction and an exponent or none.  What is
read as a numeral is the longest front of the text that belongs to the grammar
(`Numeral.longestFront_read`), although it is read greedily, part after part, and each part
is taken as soon as a digit is seen behind its mark.

Greed does no harm since each part ends before a character that could not go on with it: a
shorter run of digits is followed by a digit or a separator, and no other part begins with
one.  So a numeral of the grammar that goes on behind its first part has the same first part
as the one that is read (`Digits.digitRun_append_eq`).

What is attached to a numeral has a grammar as well (`Attached`), and the suffix that is
taken is the longest front in it (`Numeral.longestFront_malformedSuffix`).
-/

import Lexis.Proofs.Lookahead.Numeral

namespace Lexis

/-- **The longest front** of the text that has a property. -/
structure LongestFront (P : List Char → Prop) (text front : List Char) : Prop where
  /-- It has the property. -/
  holds : P front
  /-- It is a front of the text. -/
  begins : front <+: text
  /-- No other front that has the property is longer. -/
  longest : ∀ other, P other → other <+: text → other.length ≤ front.length

/-! ### Digits -/

/-- **Digits of a radix:** a digit, and then any number of groups of underscores and a
digit. -/
inductive Digits (r : Radix) : List Char → Prop
  /-- A single digit. -/
  | digit {c} (h : r.isDigit c = true) : Digits r [c]
  /-- A digit before underscores, if any, and more digits. -/
  | group {c run} (n : Nat) (h : r.isDigit c = true) (hrun : Digits r run) :
    Digits r (c :: (List.replicate n '_' ++ run))

theorem Radix.isDigit_underscore (r : Radix) : r.isDigit '_' = false := by
  cases r <;> decide

namespace Digits

variable {r : Radix} {run : List Char}

theorem exists_cons (h : Digits r run) : ∃ c cs, run = c :: cs ∧ r.isDigit c = true := by
  cases h with
  | digit h => exact ⟨_, _, rfl, h⟩
  | group n h hrun => exact ⟨_, _, rfl, h⟩

theorem ne_nil (h : Digits r run) : run ≠ [] := by
  obtain ⟨c, cs, rfl, -⟩ := h.exists_cons
  exact List.cons_ne_nil c cs

/-- Digits hold nothing but digits and separators. -/
theorem of_mem (h : Digits r run) : ∀ c ∈ run, r.isDigit c = true ∨ c = '_' := by
  induction h with
  | digit h => simpa using Or.inl h
  | group n h hrun ih =>
    refine List.forall_mem_cons.2 ⟨Or.inl h, fun d hd => ?_⟩
    rcases List.mem_append.1 hd with hd | hd
    · exact Or.inr (List.eq_of_mem_replicate hd)
    · exact ih d hd

end Digits

/-- A separator belongs to the digits after it. -/
theorem digitRun_underscore {r : Radix} {text : List Char} (h : digitRun r text ≠ []) :
    digitRun r ('_' :: text) = '_' :: digitRun r text := by
  obtain ⟨c, cs, hc⟩ := List.exists_cons_of_ne_nil h
  simp only [digitRun, r.isDigit_underscore, hc, if_true, Bool.false_eq_true, if_false]

theorem digitRun_replicate_append {r : Radix} {text : List Char} (h : digitRun r text ≠ [])
    (n : Nat) : digitRun r (List.replicate n '_' ++ text) =
      List.replicate n '_' ++ digitRun r text := by
  induction n with
  | zero => rfl
  | succ n ih =>
    have hne : digitRun r (List.replicate n '_' ++ text) ≠ [] := by simp [ih, h]
    rw [List.replicate_succ, List.cons_append, digitRun_underscore hne, ih]
    rfl

/-- What is read as digits is empty, or some separators and digits. -/
theorem digitRun_cases (r : Radix) (text : List Char) :
    digitRun r text = [] ∨
      ∃ n run, digitRun r text = List.replicate n '_' ++ run ∧ Digits r run := by
  induction text with
  | nil => exact Or.inl rfl
  | cons c cs ih =>
    by_cases hc : r.isDigit c = true
    · rw [digitRun_cons_of_isDigit hc]
      refine Or.inr ⟨0, c :: digitRun r cs, rfl, ?_⟩
      rcases ih with hnil | ⟨n, run, hrun, hdigits⟩
      · rw [hnil]
        exact .digit hc
      · rw [hrun]
        exact .group n hc hdigits
    · rw [digitRun, if_neg hc]
      split
      · rcases ih with hnil | ⟨n, run, hrun, hdigits⟩
        · rw [hnil]
          exact Or.inl rfl
        · obtain ⟨d, ds, hcons⟩ := List.exists_cons_of_ne_nil
            (show List.replicate n '_' ++ run ≠ [] by simp [hdigits.ne_nil])
          refine Or.inr ⟨n + 1, run, ?_, hdigits⟩
          rw [hrun, hcons]
          simp only [List.replicate_succ, List.cons_append, hcons]
      · exact Or.inl rfl

namespace Digits

variable {r : Radix} {run : List Char}

/-- **No digits at the head of a text are longer** than the run that is read. -/
theorem isPrefix_digitRun (h : Digits r run) (after : List Char) :
    run <+: digitRun r (run ++ after) := by
  induction h with
  | digit h =>
    rw [List.singleton_append, digitRun_cons_of_isDigit h]
    exact List.prefix_cons_inj _ |>.2 List.nil_prefix
  | group n h hrun ih =>
    have hne : digitRun r (_ ++ after) ≠ [] := fun hnil =>
      hrun.ne_nil (List.prefix_nil.1 (hnil ▸ ih))
    rw [List.cons_append, digitRun_cons_of_isDigit h, List.append_assoc,
      digitRun_replicate_append hne]
    exact List.prefix_cons_inj _ |>.2 ((List.prefix_append_right_inj _).2 ih)

/-- **Digits before what is neither a digit nor a separator** are the run that is read. -/
theorem digitRun_append_eq (h : Digits r run) {after : List Char}
    (hafter : ∀ c ∈ after.head?, r.isDigit c = false ∧ c ≠ '_') :
    digitRun r (run ++ after) = run := by
  have hlonger := h.isPrefix_digitRun []
  have hshorter : digitRun r run <+: run := ⟨afterDigits r run, digitRun_append_afterDigits r run⟩
  rw [List.append_nil] at hlonger
  rw [digitRun_append hafter]
  exact (hlonger.eq_of_length_le hshorter.length_le).symm

end Digits

theorem digits_of_digits? {r : Radix} {text run : List Char} (h : digits? r text = some run) :
    Digits r run := by
  obtain ⟨c, cs, hcons, hc⟩ := Numeral.exists_cons_of_digits? h
  unfold digits? at h
  split at h
  · have hrun : digitRun r text = run := Option.some.inj h
    rcases digitRun_cases r text with hnil | ⟨n, digits, hdigits, hall⟩
    · rw [← hrun, hnil] at hcons
      simp at hcons
    · cases n with
      | zero =>
        rw [← hrun, hdigits]
        exact hall
      | succ n =>
        rw [← hrun, hdigits, List.replicate_succ] at hcons
        obtain rfl := (List.cons.inj hcons).1
        rw [r.isDigit_underscore] at hc
        simp at hc
  · simp at h

/-- Digits at the head of a text are found, and maybe more. -/
theorem Digits.exists_digits? {r : Radix} {run : List Char} (h : Digits r run)
    (after : List Char) : ∃ more, digits? r (run ++ after) = some more ∧ run <+: more := by
  obtain ⟨c, cs, rfl, hc⟩ := h.exists_cons
  exact ⟨_, if_pos hc, h.isPrefix_digitRun after⟩

theorem Digits.digits?_append_eq {r : Radix} {run after : List Char} (h : Digits r run)
    (hafter : ∀ c ∈ after.head?, r.isDigit c = false ∧ c ≠ '_') :
    digits? r (run ++ after) = some run := by
  rw [digits?, h.digitRun_append_eq hafter, if_pos]
  obtain ⟨c, cs, rfl, hc⟩ := h.exists_cons
  exact hc

/-! ### Numerals -/

/-- **A fraction:** nothing, or a point and decimal digits. -/
inductive FractionText : List Char → Prop
  | none : FractionText []
  | point {run} (h : Digits .decimal run) : FractionText ('.' :: run)

/-- **An exponent:** nothing, or its letter, a sign or none, and decimal digits. -/
inductive ExponentText : List Char → Prop
  | none : ExponentText []
  | power {mark sign run} (hmark : mark = 'e' ∨ mark = 'E')
      (hsign : sign = [] ∨ sign = ['+'] ∨ sign = ['-']) (h : Digits .decimal run) :
    ExponentText (mark :: (sign ++ run))

/-- **The numerals of the grammar,** with their radix and whether they have a fraction or an
exponent. -/
inductive NumeralText : Radix → Bool → List Char → Prop
  /-- The mark of a radix and digits. -/
  | marked {radix run} (hradix : radix ≠ .decimal) (h : Digits radix run) :
    NumeralText radix false (radix.mark ++ run)
  /-- Decimal digits, a fraction and an exponent. -/
  | decimal {whole fraction exponent float} (hwhole : Digits .decimal whole)
      (hfraction : FractionText fraction) (hexponent : ExponentText exponent)
      (hfloat : float = true ↔ fraction ≠ [] ∨ exponent ≠ []) :
    NumeralText .decimal float (whole ++ (fraction ++ exponent))

/-- The text is a numeral. -/
def IsNumeral (text : List Char) : Prop := ∃ radix float, NumeralText radix float text

namespace ExponentText

variable {exponent : List Char}

/-- An exponent begins with no digit and no separator, and with no point. -/
theorem head_ne (h : ExponentText exponent) :
    ∀ c ∈ exponent.head?, (Radix.decimal.isDigit c = false ∧ c ≠ '_') ∧ c ≠ '.' := by
  cases h with
  | none => simp
  | power hmark hsign h =>
    intro c hc
    obtain rfl := Option.some.inj hc
    rcases hmark with rfl | rfl <;> decide

theorem sign?_append {sign run : List Char} (hsign : sign = [] ∨ sign = ['+'] ∨ sign = ['-'])
    (h : Digits .decimal run) (after : List Char) :
    (Numeral.sign? (sign ++ (run ++ after))).toList = sign := by
  rcases hsign with rfl | rfl | rfl
  · obtain ⟨c, cs, rfl, hc⟩ := h.exists_cons
    have hne : ¬ (c = '+' ∨ c = '-') := by
      rintro (rfl | rfl) <;> exact absurd hc (by decide)
    simp [Numeral.sign?, hne]
  · rfl
  · rfl

/-- **No exponent at the head of a text is longer** than the one that is read. -/
theorem isPrefix_exponentChars (h : ExponentText exponent) (after : List Char) :
    exponent <+: Numeral.exponentChars (Numeral.exponent? (exponent ++ after)) := by
  cases h with
  | none => exact List.nil_prefix
  | @power mark sign run hmark hsign h =>
    obtain ⟨more, hmore, hle⟩ := h.exists_digits? after
    have hs := sign?_append hsign h after
    have hread : Numeral.exponent? (mark :: (sign ++ run) ++ after) =
        some ⟨mark, Numeral.sign? (sign ++ (run ++ after)), more⟩ := by
      rw [List.cons_append, List.append_assoc, Numeral.exponent?, if_pos hmark]
      simp only [hs, List.drop_left, hmore, Option.map_some]
    rw [hread]
    show mark :: (sign ++ run) <+: mark :: ((Numeral.sign? _).toList ++ more)
    rw [hs]
    exact List.prefix_cons_inj _ |>.2 ((List.prefix_append_right_inj _).2 hle)

end ExponentText

/-- **What is read as an exponent** is one. -/
theorem Numeral.exponentText_exponentChars (text : List Char) :
    ExponentText (exponentChars (exponent? text)) := by
  cases he : exponent? text with
  | none => exact .none
  | some e =>
    obtain ⟨hmark, hsign, cs, hdigits⟩ := of_exponent?_eq_some he
    obtain ⟨mark, sign, digits⟩ := e
    refine .power hmark ?_ (digits_of_digits? hdigits)
    cases sign with
    | none => exact Or.inl rfl
    | some c => rcases hsign c rfl with rfl | rfl <;> simp

/-- A fraction that is found consists of digits behind the point. -/
theorem Numeral.digits_of_fraction? {text run : List Char} (h : fraction? text = some run) :
    Digits .decimal run := by
  cases text with
  | nil => simp [fraction?] at h
  | cons point cs =>
    rw [fraction?] at h
    split at h
    · exact digits_of_digits? h
    · simp at h

/-- **What is read as a fraction** is one. -/
theorem Numeral.fractionText_fractionChars (text : List Char) :
    FractionText (fractionChars (fraction? text)) := by
  cases hf : fraction? text with
  | none => exact .none
  | some run => exact .point (digits_of_fraction? hf)

/-- What does not begin with a point has no fraction. -/
theorem Numeral.fraction?_of_head? {text : List Char} (h : ∀ c ∈ text.head?, c ≠ '.') :
    fraction? text = none := by
  cases text with
  | nil => rfl
  | cons c cs => rw [fraction?, if_neg (h c rfl)]

/-- The fraction and the exponent that are read at the head of a text. -/
def Numeral.tailChars (text : List Char) : List Char :=
  fractionChars (fraction? text) ++
    exponentChars (exponent? (text.drop (fractionChars (fraction? text)).length))

/-- **No fraction and exponent at the head of a text are longer** than those that are read. -/
theorem FractionText.isPrefix_tailChars {fraction exponent : List Char}
    (hf : FractionText fraction) (he : ExponentText exponent) (after : List Char) :
    fraction ++ exponent <+: Numeral.tailChars (fraction ++ (exponent ++ after)) := by
  by_cases hnil : exponent = []
  · -- the fraction comes last, and more digits may follow it
    subst hnil
    rw [List.append_nil, List.nil_append, Numeral.tailChars]
    refine List.IsPrefix.trans ?_ (List.prefix_append _ _)
    cases hf with
    | none => exact List.nil_prefix
    | point h =>
      obtain ⟨more, hmore, hle⟩ := h.exists_digits? after
      rw [List.cons_append, Numeral.fraction?, if_pos rfl, hmore]
      exact List.prefix_cons_inj _ |>.2 hle
  · -- the letter of the exponent ends the fraction
    obtain ⟨c, cs, rfl⟩ := List.exists_cons_of_ne_nil hnil
    obtain ⟨hletter, hpoint⟩ := he.head_ne c rfl
    have hfraction : Numeral.fractionChars (Numeral.fraction? (fraction ++ (c :: cs ++ after))) =
        fraction := by
      cases hf with
      | none =>
        rw [List.nil_append, Numeral.fraction?_of_head? (by simpa using hpoint)]
        rfl
      | point h =>
        rw [List.cons_append, Numeral.fraction?, if_pos rfl,
          h.digits?_append_eq (by simpa using hletter)]
        rfl
    rw [Numeral.tailChars, hfraction, List.drop_left]
    exact (List.prefix_append_right_inj _).2 (he.isPrefix_exponentChars after)

/-- What follows the digits of a decimal numeral begins with neither a digit nor a separator. -/
theorem FractionText.head_ne {fraction exponent : List Char} (hf : FractionText fraction)
    (he : ExponentText exponent) :
    ∀ c ∈ (fraction ++ exponent).head?, Radix.decimal.isDigit c = false ∧ c ≠ '_' := by
  cases hf with
  | none => exact fun c hc => (he.head_ne c hc).1
  | point h =>
    intro c hc
    obtain rfl := Option.some.inj hc
    decide

/-- A decimal numeral is read part after part. -/
theorem Numeral.readDecimal_eq (text : List Char) :
    readDecimal text = ⟨.decimal, digitRun .decimal text, fraction? (afterDigits .decimal text),
      exponent? ((afterDigits .decimal text).drop
        (fractionChars (fraction? (afterDigits .decimal text))).length)⟩ := by
  simp only [readDecimal, afterDigits, List.length_append, List.drop_drop]

theorem Numeral.chars_readDecimal (text : List Char) :
    (readDecimal text).chars = digitRun .decimal text ++ tailChars (afterDigits .decimal text) := by
  rw [readDecimal_eq, chars, tailChars, List.append_assoc]
  rfl

/-- **No decimal numeral at the head of a text is longer** than the one that is read. -/
theorem Digits.isPrefix_chars_readDecimal {whole fraction exponent : List Char}
    (hwhole : Digits .decimal whole) (hfraction : FractionText fraction)
    (hexponent : ExponentText exponent) (after : List Char) :
    whole ++ (fraction ++ exponent) <+:
      (Numeral.readDecimal (whole ++ (fraction ++ (exponent ++ after)))).chars := by
  rw [Numeral.chars_readDecimal]
  by_cases hnil : fraction ++ exponent = []
  · rw [hnil, List.append_nil]
    exact (hwhole.isPrefix_digitRun _).trans (List.prefix_append _ _)
  · have hafter : ∀ c ∈ (fraction ++ (exponent ++ after)).head?,
        Radix.decimal.isDigit c = false ∧ c ≠ '_' := by
      obtain ⟨c, cs, hcons⟩ := List.exists_cons_of_ne_nil hnil
      have hhead := hfraction.head_ne hexponent
      rw [← List.append_assoc, hcons]
      rwa [hcons] at hhead
    rw [afterDigits, hwhole.digitRun_append_eq hafter, List.drop_left]
    exact (List.prefix_append_right_inj _).2 (hfraction.isPrefix_tailChars hexponent after)

/-! ### Radixes -/

theorem Radix.ofMark?_of_isDigit {c : Char} (h : Radix.decimal.isDigit c = true) :
    ofMark? c = none := by
  have hne : c ≠ 'b' ∧ c ≠ 'o' ∧ c ≠ 'x' := by
    refine ⟨?_, ?_, ?_⟩ <;> (rintro rfl; exact absurd h (by decide))
  simp [ofMark?, hne]

theorem Digits.ofMark?_of_mem {run : List Char} (h : Digits .decimal run) :
    ∀ c ∈ run, Radix.ofMark? c = none := by
  intro c hc
  rcases h.of_mem c hc with hc | rfl
  · exact Radix.ofMark?_of_isDigit hc
  · rfl

namespace NumeralText

variable {radix radix' : Radix} {float float' : Bool} {text : List Char}

/-- A decimal numeral holds no letter that announces a radix. -/
theorem ofMark?_of_mem (h : NumeralText .decimal float text) :
    ∀ c ∈ text, Radix.ofMark? c = none := by
  cases h with
  | marked hradix => exact absurd rfl hradix
  | decimal hwhole hfraction hexponent =>
    refine List.forall_mem_append.2 ⟨hwhole.ofMark?_of_mem, List.forall_mem_append.2 ⟨?_, ?_⟩⟩
    · cases hfraction with
      | none => simp
      | point h => exact List.forall_mem_cons.2 ⟨rfl, h.ofMark?_of_mem⟩
    · cases hexponent with
      | none => simp
      | power hmark hsign h =>
        refine List.forall_mem_cons.2 ⟨?_, List.forall_mem_append.2 ⟨?_, h.ofMark?_of_mem⟩⟩
        · rcases hmark with rfl | rfl <;> rfl
        · rcases hsign with rfl | rfl | rfl <;> simp [Radix.ofMark?]

/-- The radix is announced by the second character. -/
theorem radix_eq (h : NumeralText radix float text) :
    radix = (text[1]?.bind Radix.ofMark?).getD .decimal := by
  cases h with
  | marked hradix h =>
    cases radix with
    | decimal => exact absurd rfl hradix
    | _ => rfl
  | decimal hwhole hfraction hexponent hfloat =>
    have hmem := ofMark?_of_mem (.decimal hwhole hfraction hexponent hfloat)
    cases hsecond : (_ : List Char)[1]? with
    | none => rfl
    | some c => rw [Option.bind_some, hmem c (List.mem_of_getElem? hsecond)]; rfl

/-- A decimal numeral has a fraction or an exponent if it holds more than digits and
separators. -/
theorem float_iff (h : NumeralText .decimal float text) :
    float = true ↔ ∃ c ∈ text, Radix.decimal.isDigit c = false ∧ c ≠ '_' := by
  cases h with
  | marked hradix => exact absurd rfl hradix
  | @decimal whole fraction exponent _ hwhole hfraction hexponent hfloat =>
    rw [hfloat]
    constructor
    · intro hne
      have htail : fraction ++ exponent ≠ [] := fun hnil => by
        obtain ⟨rfl, rfl⟩ := List.append_eq_nil_iff.1 hnil
        simp at hne
      obtain ⟨c, cs, hcons⟩ := List.exists_cons_of_ne_nil htail
      refine ⟨c, List.mem_append_right _ (hcons ▸ List.mem_cons_self), ?_⟩
      exact hfraction.head_ne hexponent c (by rw [hcons]; rfl)
    · rintro ⟨c, hc, hdigit, hseparator⟩
      rcases List.mem_append.1 hc with hc | hc
      · rcases hwhole.of_mem c hc with h | h
        · rw [hdigit] at h
          simp at h
        · exact absurd h hseparator
      · rcases List.mem_append.1 hc with hc | hc
        · exact Or.inl (List.ne_nil_of_mem hc)
        · exact Or.inr (List.ne_nil_of_mem hc)

theorem float_eq_false (h : NumeralText radix float text) (hradix : radix ≠ .decimal) :
    float = false := by
  cases h with
  | marked => rfl
  | decimal => exact absurd rfl hradix

/-- **A numeral belongs to the grammar in one way only.** -/
theorem unique (h : NumeralText radix float text) (h' : NumeralText radix' float' text) :
    radix' = radix ∧ float' = float := by
  obtain rfl : radix' = radix := h'.radix_eq.trans h.radix_eq.symm
  refine ⟨rfl, ?_⟩
  by_cases hradix : radix' = .decimal
  · subst hradix
    exact Bool.eq_iff_iff.2 (h'.float_iff.trans h.float_iff.symm)
  · rw [h.float_eq_false hradix, h'.float_eq_false hradix]

end NumeralText

/-! ### What is read -/

namespace Numeral

/-- **No marked numeral at the head of a text is longer** than the one that is read. -/
theorem exists_marked? {radix : Radix} (hradix : radix ≠ .decimal) {run : List Char}
    (h : Digits radix run) (after : List Char) :
    ∃ more, marked? (radix.mark ++ (run ++ after)) = some ⟨radix, more, none, none⟩ ∧
      run <+: more := by
  obtain ⟨more, hmore, hle⟩ := h.exists_digits? after
  refine ⟨more, ?_, hle⟩
  cases radix with
  | decimal => exact absurd rfl hradix
  | _ => exact congrArg (Option.map _) hmore

/-- What is read with a mark has a radix other than ten, and digits of it. -/
theorem of_marked?_eq_some {text : List Char} {n : Numeral} (h : marked? text = some n) :
    ∃ radix run, n = ⟨radix, run, none, none⟩ ∧ radix ≠ .decimal ∧ Digits radix run ∧
      (text[1]?.bind Radix.ofMark?) = some radix := by
  unfold marked? at h
  split at h
  · split at h
    · obtain ⟨radix, hradix, h⟩ := Option.bind_eq_some_iff.1 h
      obtain ⟨run, hrun, rfl⟩ := Option.map_eq_some_iff.1 h
      refine ⟨radix, run, rfl, ?_, digits_of_digits? hrun, hradix⟩
      rintro rfl
      have hmark := Radix.mark_of_ofMark? hradix
      simp [Radix.mark] at hmark
    · simp at h
  · simp at h

theorem fractionChars_ne_nil_iff {f : Option (List Char)} :
    fractionChars f ≠ [] ↔ f.isSome = true := by
  cases f <;> simp [fractionChars]

theorem exponentChars_ne_nil_iff {e : Option Exponent} :
    exponentChars e ≠ [] ↔ e.isSome = true := by
  cases e <;> simp [exponentChars, Exponent.chars]

/-- **What is read as a numeral** belongs to the grammar. -/
theorem numeralText_read {c : Char} (hc : isDecimalDigit c = true) (cs : List Char) :
    NumeralText (read (c :: cs)).radix (read (c :: cs)).isFloat (read (c :: cs)).chars := by
  unfold read
  cases hm : marked? (c :: cs) with
  | some n =>
    obtain ⟨radix, run, rfl, hradix, hrun, -⟩ := of_marked?_eq_some hm
    rw [Option.getD_some, chars_marked]
    exact .marked hradix hrun
  | none =>
    have hdigits : digits? .decimal (c :: cs) = some (digitRun .decimal (c :: cs)) := if_pos hc
    have hwhole := digits_of_digits? hdigits
    rw [Option.getD_none, chars_readDecimal]
    refine .decimal hwhole (fractionText_fractionChars _) (exponentText_exponentChars _) ?_
    rw [readDecimal_eq, isFloat, Bool.or_eq_true, fractionChars_ne_nil_iff,
      exponentChars_ne_nil_iff]

/-- A decimal numeral before what is read with a mark is a single digit. -/
theorem length_le_of_marked? {float : Bool} {text after : List Char} {n : Numeral}
    (h : NumeralText .decimal float text) (hm : marked? (text ++ after) = some n) :
    text.length ≤ n.chars.length := by
  obtain ⟨radix, run, rfl, -, hrun, hmark⟩ := of_marked?_eq_some hm
  have hone : text.length ≤ 1 := Nat.le_of_not_lt fun hlong => by
    have hsecond : (text ++ after)[1]? = some text[1] := by
      rw [List.getElem?_append_left (by omega), List.getElem?_eq_getElem (by omega)]
    rw [hsecond, Option.bind_some, h.ofMark?_of_mem _ (List.getElem_mem _)] at hmark
    simp at hmark
  have hpos := List.length_pos_iff.2 hrun.ne_nil
  rw [chars_marked, List.length_append]
  omega

/-- **What is read as a numeral is the longest front** of the text in the grammar. -/
theorem longestFront_read {c : Char} (hc : isDecimalDigit c = true) (cs : List Char) :
    LongestFront IsNumeral (c :: cs) (read (c :: cs)).chars where
  holds := ⟨_, _, numeralText_read hc cs⟩
  begins := isPrefix_chars_read _
  longest := by
    rintro other ⟨radix, float, hother⟩ ⟨after, htext⟩
    rw [← htext, read]
    by_cases hradix : radix = .decimal
    · subst hradix
      cases hm : marked? (other ++ after) with
      | some n => exact length_le_of_marked? hother hm
      | none =>
        cases hother with
        | marked hradix => exact absurd rfl hradix
        | decimal hwhole hfraction hexponent =>
          rw [Option.getD_none, List.append_assoc, List.append_assoc]
          exact (hwhole.isPrefix_chars_readDecimal hfraction hexponent after).length_le
    · cases hother with
      | decimal => exact absurd rfl hradix
      | marked _ h =>
        obtain ⟨more, hmore, hle⟩ := exists_marked? hradix h after
        rw [List.append_assoc, hmore, Option.getD_some, chars_marked]
        exact ((List.prefix_append_right_inj _).2 hle).length_le

end Numeral

/-! ### What is attached to a numeral -/

/-- **What can start no token of its own behind a numeral:** characters of words, and points
with a decimal digit. -/
inductive Attached : List Char → Prop
  | nil : Attached []
  /-- A character of a word comes first. -/
  | word {c cs} (h : isWordChar c = true) (hcs : Attached cs) : Attached (c :: cs)
  /-- A point and a decimal digit come first. -/
  | point {d cs} (h : isDecimalDigit d = true) (hcs : Attached cs) : Attached ('.' :: d :: cs)

namespace Attached

variable {as bs : List Char}

theorem append (ha : Attached as) (hb : Attached bs) : Attached (as ++ bs) := by
  induction ha with
  | nil => exact hb
  | word h _ ih => exact .word h ih
  | point h _ ih => exact .point h ih

end Attached

namespace Numeral

theorem malformedSuffix_of_isWordChar {c : Char} (h : isWordChar c = true) (cs : List Char) :
    malformedSuffix (c :: cs) = c :: malformedSuffix cs := by
  cases cs with
  | nil => simp only [malformedSuffix, h, if_true]
  | cons d ds => rw [malformedSuffix, if_pos h]

theorem malformedSuffix_of_point {d : Char} (h : isDecimalDigit d = true) (cs : List Char) :
    malformedSuffix ('.' :: d :: cs) = '.' :: d :: malformedSuffix cs := by
  have hpoint : ¬ isWordChar '.' = true := by decide
  rw [malformedSuffix, if_neg hpoint, if_pos ⟨rfl, h⟩]

/-- The suffix that is taken is attached to the numeral. -/
theorem attached_malformedSuffix (text : List Char) : Attached (malformedSuffix text) := by
  fun_induction malformedSuffix text with
  | case1 => exact .nil
  | case2 c hc => exact .word hc .nil
  | case3 => exact .nil
  | case4 c d cs hc ih => exact .word hc ih
  | case5 c d cs hc hpoint ih =>
    obtain ⟨rfl, hd⟩ := hpoint
    exact .point hd ih
  | case6 => exact .nil

/-- **What is taken as malformed is the longest front** of the text that can be attached to a
numeral. -/
theorem longestFront_malformedSuffix (text : List Char) :
    LongestFront Attached text (malformedSuffix text) where
  holds := attached_malformedSuffix text
  begins := isPrefix_malformedSuffix text
  longest := by
    rintro other hother ⟨after, rfl⟩
    induction hother with
    | nil => exact Nat.zero_le _
    | word h _ ih =>
      rw [List.cons_append, malformedSuffix_of_isWordChar h]
      exact Nat.succ_le_succ ih
    | point h _ ih =>
      rw [List.cons_append, List.cons_append, malformedSuffix_of_point h]
      exact Nat.succ_le_succ (Nat.succ_le_succ ih)

end Numeral

/-- Behind the longest front of what can be attached comes nothing more of it. -/
theorem LongestFront.not_attached {text front more after : List Char}
    (h : LongestFront Attached text front) (htext : text = front ++ (more ++ after))
    (hmore : Attached more) : more = [] := by
  have hle := h.longest (front ++ more) (h.holds.append hmore)
    ⟨after, by rw [htext, List.append_assoc]⟩
  rw [List.length_append] at hle
  exact List.length_eq_zero_iff.1 (by omega)

end Lexis
