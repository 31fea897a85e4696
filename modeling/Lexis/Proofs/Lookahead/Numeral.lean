/-
# How far a numeral looks ahead

Whether a part of a numeral is taken depends on text that the numeral does not
take in the end: on a digit after any number of underscores, after a point, or
after the letter and the sign of an exponent.  Two facts limit this.

The end of the line is as good as the end of the text: nothing that is read for
a numeral changes if the text goes on with a line end (`Numeral.read_append`,
`Numeral.malformedSuffix_append`).  And a numeral that stands alone is read as
it was in its text (`Numeral.read_chars`), although what follows it there has
decided where it ends.
-/

import Lexis.Lexeme

namespace Lexis

/-- The text has ended, or a line end comes next. -/
def AtLineEnd (text : List Char) : Prop := ∀ c ∈ text.head?, isLineEnd c = true

theorem atLineEnd_nil : AtLineEnd [] := by simp [AtLineEnd]

theorem atLineEnd_cons {c : Char} {cs : List Char} : AtLineEnd (c :: cs) ↔ c = '\n' ∨ c = '\r' := by
  simp [AtLineEnd, isLineEnd_iff]

/-- At the end of a line comes no character of a class that has no line end. -/
theorem AtLineEnd.not_of_head? {text : List Char} (h : AtLineEnd text) {p : Char → Bool}
    (hn : p '\n' = false) (hr : p '\r' = false) : ∀ c ∈ text.head?, p c = false := by
  intro c hc
  rcases isLineEnd_iff.1 (h c hc) with rfl | rfl
  · exact hn
  · exact hr

/-- A run of a class that has no line end holds none. -/
theorem not_isLineEnd_of_mem_takeWhile {p : Char → Bool} (hn : p '\n' = false)
    (hr : p '\r' = false) {text : List Char} {c : Char} (hc : c ∈ text.takeWhile p) :
    isLineEnd c = false := by
  have hp : p c = true := List.all_eq_true.1 List.all_takeWhile c hc
  rw [← Bool.not_eq_true, isLineEnd_iff]
  rintro (rfl | rfl)
  · simp [hn] at hp
  · simp [hr] at hp

/-- A front that does not grow over a line end has none inside. -/
theorem not_isLineEnd_of_append_eq {front : List Char → List Char}
    (hpre : ∀ text, front text <+: text)
    (happend : ∀ text tail, AtLineEnd tail → front (text ++ tail) = front text)
    {text : List Char} {c : Char} (hc : c ∈ front text) : isLineEnd c = false := by
  rw [← Bool.not_eq_true]
  intro hend
  obtain ⟨as, bs, hsplit⟩ := List.append_of_mem hc
  obtain ⟨rest, hrest⟩ := hpre text
  have htext : text = as ++ c :: (bs ++ rest) := by rw [← hrest, hsplit]; simp
  -- cut off before the line end, the text would have the same front
  have hcut : front text = front as := by
    rw [htext]
    exact happend as _ fun d hd => by obtain rfl := Option.some.inj hd; exact hend
  have hle := (hpre as).length_le
  rw [← hcut, hsplit, List.length_append, List.length_cons] at hle
  omega

/-! ### Runs of digits -/

/-- A run of digits ends before what is neither a digit nor a separator. -/
theorem digitRun_append {r : Radix} {tail : List Char}
    (h : ∀ c ∈ tail.head?, r.isDigit c = false ∧ c ≠ '_') (text : List Char) :
    digitRun r (text ++ tail) = digitRun r text := by
  induction text with
  | nil =>
    cases tail with
    | nil => rfl
    | cons c cs =>
      obtain ⟨hd, hu⟩ := h c rfl
      simp [digitRun, hd, hu]
  | cons c cs ih => simp only [List.cons_append, digitRun, ih]

/-- A run of digits is all of itself. -/
theorem digitRun_digitRun (r : Radix) (text : List Char) :
    digitRun r (digitRun r text) = digitRun r text := by
  induction text with
  | nil => rfl
  | cons c cs ih =>
    by_cases hd : r.isDigit c = true
    · rw [digitRun_cons_of_isDigit hd, digitRun_cons_of_isDigit hd, ih]
    · simp only [digitRun, if_neg hd]
      split
      · rename_i hc
        subst hc
        split
        · rfl
        · rename_i d ds hrun
          rw [hrun] at ih
          rw [digitRun, if_neg hd, if_pos rfl, ih]
      · rfl

/-- Digits that are found are found again where they stand alone, before what is
neither a digit nor a separator. -/
theorem digits?_run_append {r : Radix} {text run tail : List Char}
    (hrun : digits? r text = some run) (h : ∀ c ∈ tail.head?, r.isDigit c = false ∧ c ≠ '_') :
    digits? r (run ++ tail) = some run := by
  unfold digits? at hrun ⊢
  split at hrun
  · rename_i hhead
    obtain rfl := Option.some.inj hrun
    cases text with
    | nil => simp at hhead
    | cons c cs =>
      have hc : r.isDigit c = true := hhead
      rw [digitRun_append h, digitRun_digitRun, digitRun_cons_of_isDigit hc, if_pos]
      exact hc
  · simp at hrun

theorem digits?_run {r : Radix} {text run : List Char} (hrun : digits? r text = some run) :
    digits? r run = some run := by
  have hnil : ∀ c ∈ ([] : List Char).head?, r.isDigit c = false ∧ c ≠ '_' := by simp
  have := digits?_run_append hrun hnil
  rwa [List.append_nil] at this

theorem digits?_append {r : Radix} {tail : List Char}
    (h : ∀ c ∈ tail.head?, r.isDigit c = false ∧ c ≠ '_') (text : List Char) :
    digits? r (text ++ tail) = digits? r text := by
  have hhead : (text ++ tail).head?.any r.isDigit = text.head?.any r.isDigit := by
    cases text with
    | nil =>
      cases tail with
      | nil => rfl
      | cons c cs => exact (h c rfl).1
    | cons c cs => rfl
  rw [digits?, digits?, hhead, digitRun_append h]

theorem AtLineEnd.not_isDigit {tail : List Char} (h : AtLineEnd tail) (r : Radix) :
    ∀ c ∈ tail.head?, r.isDigit c = false ∧ c ≠ '_' := by
  intro c hc
  rcases isLineEnd_iff.1 (h c hc) with rfl | rfl <;> cases r <;> decide

/-! ### A break after a numeral -/

namespace Numeral

variable {tail : List Char}

theorem fraction?_append (h : AtLineEnd tail) (text : List Char) :
    fraction? (text ++ tail) = fraction? text := by
  cases text with
  | nil =>
    cases tail with
    | nil => rfl
    | cons c cs => rcases atLineEnd_cons.1 h with rfl | rfl <;> rfl
  | cons c cs => simp only [List.cons_append, fraction?, digits?_append (h.not_isDigit .decimal)]

theorem sign?_append (h : AtLineEnd tail) (text : List Char) :
    sign? (text ++ tail) = sign? text := by
  cases text with
  | nil =>
    cases tail with
    | nil => rfl
    | cons c cs => rcases atLineEnd_cons.1 h with rfl | rfl <;> rfl
  | cons c cs => rfl

theorem exponent?_append (h : AtLineEnd tail) (text : List Char) :
    exponent? (text ++ tail) = exponent? text := by
  cases text with
  | nil =>
    cases tail with
    | nil => rfl
    | cons c cs => rcases atLineEnd_cons.1 h with rfl | rfl <;> rfl
  | cons c cs =>
    simp only [List.cons_append, exponent?, sign?_append h,
      List.drop_append_of_le_length (isPrefix_sign? cs).length_le,
      digits?_append (h.not_isDigit .decimal)]

theorem marked?_append (h : AtLineEnd tail) (text : List Char) :
    marked? (text ++ tail) = marked? text := by
  match text with
  | [] =>
    match tail with
    | [] => rfl
    | [c] => rfl
    | c :: d :: cs => rcases atLineEnd_cons.1 h with rfl | rfl <;> rfl
  | [c] =>
    match tail with
    | [] => rfl
    | d :: cs =>
      rcases atLineEnd_cons.1 h with rfl | rfl <;> simp [marked?, Radix.ofMark?]
  | c :: d :: cs =>
    simp only [List.cons_append, marked?, digits?_append (h.not_isDigit _)]

theorem isPrefix_whole_fraction (text : List Char) :
    digitRun .decimal text ++ fractionChars (fraction? (text.drop (digitRun .decimal text).length))
      <+: text :=
  (List.prefix_append _ _).trans (isPrefix_chars_readDecimal text)

theorem readDecimal_append (h : AtLineEnd tail) (text : List Char) :
    readDecimal (text ++ tail) = readDecimal text := by
  have hrun := digitRun_append (h.not_isDigit .decimal) text
  have hlen := (isPrefix_whole_fraction text).length_le
  have hdrop : (text ++ tail).drop (digitRun .decimal text).length =
      text.drop (digitRun .decimal text).length ++ tail := by
    rw [List.length_append] at hlen
    exact List.drop_append_of_le_length (by omega)
  simp only [readDecimal, hrun, hdrop, fraction?_append h, List.drop_append_of_le_length hlen,
    exponent?_append h]

/-- **After a numeral a line end is as good as the end of the text.** -/
theorem read_append (h : AtLineEnd tail) (text : List Char) : read (text ++ tail) = read text := by
  rw [read, read, marked?_append h, readDecimal_append h]

theorem malformedSuffix_of_atLineEnd (h : AtLineEnd tail) : malformedSuffix tail = [] := by
  match tail with
  | [] => rfl
  | [c] => rcases atLineEnd_cons.1 h with rfl | rfl <;> rfl
  | c :: d :: cs =>
    have hword : isWordChar c = false := by rcases atLineEnd_cons.1 h with rfl | rfl <;> decide
    have hpoint : c ≠ '.' := by rcases atLineEnd_cons.1 h with rfl | rfl <;> decide
    simp [malformedSuffix, hword, hpoint]

/-- **After a malformed suffix a line end is as good as the end of the text.** -/
theorem malformedSuffix_append (h : AtLineEnd tail) (text : List Char) :
    malformedSuffix (text ++ tail) = malformedSuffix text := by
  fun_induction malformedSuffix text with
  | case1 => exact malformedSuffix_of_atLineEnd h
  | case2 c hc =>
    cases tail with
    | nil => simp [malformedSuffix, hc]
    | cons d ds => simp [malformedSuffix, hc, malformedSuffix_of_atLineEnd h]
  | case3 c hc =>
    cases tail with
    | nil => simp [malformedSuffix, hc]
    | cons d ds =>
      have hd : isDecimalDigit d = false := by
        rcases atLineEnd_cons.1 h with rfl | rfl <;> decide
      simp [malformedSuffix, hc, hd]
  | case4 c d cs hc ih =>
    rw [List.cons_append, List.cons_append, malformedSuffix, if_pos hc, ← List.cons_append, ih]
  | case5 c d cs hc hpoint ih =>
    rw [List.cons_append, List.cons_append, malformedSuffix, if_neg hc, if_pos hpoint, ih]
  | case6 c d cs hc hpoint =>
    rw [List.cons_append, List.cons_append, malformedSuffix, if_neg hc, if_neg hpoint]

theorem not_isLineEnd_of_mem_malformedSuffix {text : List Char} {c : Char}
    (hc : c ∈ malformedSuffix text) : isLineEnd c = false :=
  not_isLineEnd_of_append_eq isPrefix_malformedSuffix
    (fun text _ h => malformedSuffix_append h text) hc

/-! ### A numeral that stands alone -/

/-- What an exponent is made of: its letter, a sign or none, and digits. -/
theorem of_exponent?_eq_some {text : List Char} {e : Exponent} (h : exponent? text = some e) :
    (e.mark = 'e' ∨ e.mark = 'E') ∧ (∀ c ∈ e.sign, c = '+' ∨ c = '-') ∧
      ∃ cs, digits? .decimal cs = some e.digits := by
  cases text with
  | nil => simp [exponent?] at h
  | cons mark cs =>
    simp only [exponent?] at h
    split at h
    · rename_i hmark
      obtain ⟨run, hrun, rfl⟩ := Option.map_eq_some_iff.1 h
      refine ⟨hmark, fun c hc => ?_, _, hrun⟩
      cases cs with
      | nil => simp [sign?] at hc
      | cons d ds =>
        simp only [sign?] at hc
        split at hc
        · obtain rfl := Option.some.inj hc
          assumption
        · simp at hc
    · simp at h

/-- Digits that are found begin with a digit. -/
theorem exists_cons_of_digits? {r : Radix} {text run : List Char} (h : digits? r text = some run) :
    ∃ c cs, run = c :: cs ∧ r.isDigit c = true := by
  unfold digits? at h
  split at h
  · rename_i hhead
    obtain rfl := Option.some.inj h
    cases text with
    | nil => simp at hhead
    | cons c cs => exact ⟨c, _, digitRun_cons_of_isDigit hhead cs, hhead⟩
  · simp at h

theorem exponent?_chars {text : List Char} {e : Exponent} (h : exponent? text = some e) :
    exponent? e.chars = some e := by
  obtain ⟨hmark, hsign, cs, hdigits⟩ := of_exponent?_eq_some h
  obtain ⟨mark, sign, digits⟩ := e
  obtain ⟨c, ds, hd, hc⟩ := exists_cons_of_digits? hdigits
  have hrun := digits?_run hdigits
  have hs : sign? (sign.toList ++ digits) = sign := by
    cases sign with
    | none =>
      have hne : ¬ (c = '+' ∨ c = '-') := by
        rintro (rfl | rfl) <;> revert hc <;> decide
      simp only [Option.toList_none, List.nil_append]
      rw [show digits = c :: ds from hd, sign?, if_neg hne]
    | some x => exact if_pos (hsign x rfl)
  simp only [Exponent.chars, List.cons_append, exponent?, if_pos hmark, hs, List.drop_left]
  exact congrArg (Option.map _) hrun

/-- An exponent is no fraction, so a numeral without a fraction has none before its
exponent either. -/
theorem fraction?_exponentChars (text : List Char) :
    fraction? (exponentChars (exponent? text)) = none := by
  cases he : exponent? text with
  | none => rfl
  | some e =>
    have hmark : e.mark ≠ '.' := by
      rcases (of_exponent?_eq_some he).1 with h | h <;> rw [h] <;> decide
    simp [exponentChars, Exponent.chars, fraction?, hmark]

/-- No exponent begins with a digit or a separator. -/
theorem not_isDigit_exponentChars (text : List Char) :
    ∀ c ∈ (exponentChars (exponent? text)).head?, Radix.decimal.isDigit c = false ∧ c ≠ '_' := by
  intro c hc
  cases he : exponent? text with
  | none => simp [he, exponentChars] at hc
  | some e =>
    rw [he] at hc
    obtain rfl : e.mark = c := by simpa [exponentChars, Exponent.chars] using hc
    rcases (of_exponent?_eq_some he).1 with h | h <;> rw [h] <;> decide

/-- The fraction of a numeral is found again before its exponent. -/
theorem fraction?_chars (text after : List Char) :
    fraction? (fractionChars (fraction? text) ++ exponentChars (exponent? after)) =
      fraction? text := by
  cases hf : fraction? text with
  | none => exact fraction?_exponentChars after
  | some run =>
    cases text with
    | nil => simp [fraction?] at hf
    | cons point cs =>
      simp only [fraction?] at hf
      split at hf
      · rw [fractionChars, List.cons_append, fraction?, if_pos rfl]
        exact digits?_run_append hf (not_isDigit_exponentChars after)
      · simp at hf

/-- What follows the digits of a numeral begins with neither a digit nor a separator. -/
theorem not_isDigit_tail (text after : List Char) :
    ∀ c ∈ (fractionChars (fraction? text) ++ exponentChars (exponent? after)).head?,
      Radix.decimal.isDigit c = false ∧ c ≠ '_' := by
  cases fraction? text with
  | none => exact not_isDigit_exponentChars after
  | some run =>
    intro c hc
    obtain rfl : '.' = c := by simpa [fractionChars] using hc
    decide

theorem readDecimal_chars (text : List Char) :
    readDecimal (readDecimal text).chars = readDecimal text := by
  let whole := digitRun .decimal text
  let fraction := fraction? (text.drop whole.length)
  let exponent := exponent? (text.drop (whole ++ fractionChars fraction).length)
  have hchars : (readDecimal text).chars =
      whole ++ (fractionChars fraction ++ exponentChars exponent) := by
    simp only [readDecimal, chars, Radix.mark, List.nil_append, List.append_assoc]
    rfl
  have hwhole : digitRun .decimal (whole ++ (fractionChars fraction ++ exponentChars exponent)) =
      whole := by
    rw [digitRun_append (not_isDigit_tail _ _)]
    exact digitRun_digitRun .decimal text
  have hfraction : fraction? (fractionChars fraction ++ exponentChars exponent) = fraction :=
    fraction?_chars _ _
  have hexponent : exponent? (exponentChars exponent) = exponent := by
    cases he : exponent with
    | none => rfl
    | some e => exact exponent?_chars he
  rw [hchars]
  simp only [readDecimal, hwhole, List.drop_left, hfraction]
  rw [← List.append_assoc, List.drop_left, hexponent]

/-- What has no radix mark before digits at its head gets none by being cut off. -/
theorem marked?_eq_none_of_append {text rest : List Char} (h : marked? (text ++ rest) = none) :
    marked? text = none := by
  match text with
  | [] => rfl
  | [c] => rfl
  | zero :: mark :: cs =>
    simp only [List.cons_append, marked?] at h ⊢
    split at h
    · rename_i hz
      rw [if_pos hz]
      cases hr : Radix.ofMark? mark with
      | none => rfl
      | some r =>
        rw [hr, Option.bind_some, Option.map_eq_none_iff] at h
        have hnone : digits? r cs = none := by
          cases cs with
          | nil => rfl
          | cons c ds =>
            simp only [List.cons_append, digits?, List.head?_cons, Option.any_some] at h ⊢
            by_cases hc : r.isDigit c = true
            · simp [hc] at h
            · exact if_neg hc
        rw [Option.bind_some, hnone, Option.map_none]
    · rename_i hz
      exact if_neg hz

/-- **A numeral that stands alone** is read as it was in its text. -/
theorem read_chars (text : List Char) : read (read text).chars = read text := by
  cases hm : marked? text with
  | none =>
    have hread : read text = readDecimal text := by rw [read, hm]; rfl
    obtain ⟨rest, hrest⟩ := isPrefix_chars_readDecimal text
    have hnone : marked? (readDecimal text).chars = none :=
      marked?_eq_none_of_append (hrest.symm ▸ hm)
    rw [hread, read, hnone, Option.getD_none, readDecimal_chars]
  | some n =>
    have hread : read text = n := by rw [read, hm]; rfl
    rw [hread]
    suffices marked? n.chars = some n by rw [read, this]; rfl
    unfold marked? at hm
    split at hm
    · rename_i zero mark cs
      split at hm
      · obtain ⟨r, hr, hm⟩ := Option.bind_eq_some_iff.1 hm
        obtain ⟨run, hrun, rfl⟩ := Option.map_eq_some_iff.1 hm
        have hagain := digits?_run hrun
        simp [chars, Radix.mark_of_ofMark? hr, fractionChars, exponentChars, marked?, hr, hagain]
      · simp at hm
    · simp at hm

end Numeral

end Lexis
