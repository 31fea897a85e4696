/-
# Numerals read by a machine

A machine reads the numeral that is read from the text at its place, part by part, and what is
attached to it (`Machine.run_readNumber`).

Digits are passed in runs with separators between them, and what has been passed in the
end is the longest run with separators (`digitRun_eq_takeWhile_append`).  The text of a
numeral that is not decimal has the two characters of its mark in front, so that the
cut behind them is at a boundary; what is parsed then are digits, so that the parse
gives the value of the numeral or is out of range (`Machine.run_decodeInteger`,
`Machine.run_decodeFloat`).
-/

import Lexis.Machine.Numeral
import Lexis.Proofs.Machine.Cursor
import Lexis.Proofs.Numerals.Floats

namespace Lexis

/-! ### Marks and what is attached -/

/-- The digits of a marked numeral stand behind the two characters of its mark. -/
theorem Radix.dropBytes?_mark {radix : Radix} (hradix : radix ≠ .decimal) (run : List Char) :
    Text.dropBytes? 2 (radix.mark ++ run) = some run := by
  have hmark : Text.byteLength radix.mark = 2 := by
    cases radix with
    | decimal => exact absurd rfl hradix
    | _ => decide
  rw [← hmark, Text.dropBytes?_byteLength_append]

/-- A mark has two characters. -/
theorem Radix.length_mark {radix : Radix} (h : radix ≠ .decimal) : radix.mark.length = 2 := by
  cases radix with
  | decimal => exact absurd rfl h
  | _ => rfl

/-- A marked numeral that is read has the run of digits behind the two characters of its
mark. -/
theorem Numeral.eq_of_marked?_eq_some {text : List Char} {n : Numeral}
    (h : marked? text = some n) :
    n.radix ≠ .decimal ∧ n = ⟨n.radix, digitRun n.radix (text.drop 2), none, none⟩ := by
  obtain ⟨radix, run, rfl, hradix, -, -⟩ := of_marked?_eq_some h
  refine ⟨hradix, ?_⟩
  unfold marked? at h
  split at h
  · rename_i cs
    split at h
    · rw [Option.bind_eq_some_iff] at h
      obtain ⟨radix', -, h⟩ := h
      obtain ⟨run', hrun, heq⟩ := Option.map_eq_some_iff.1 h
      obtain ⟨rfl, rfl, -, -⟩ := mk.inj heq
      rw [digits?] at hrun
      split at hrun
      · obtain rfl := Option.some.inj hrun
        rfl
      · simp at hrun
    · simp at h
  · simp at h

/-- Where neither a character of words nor a point before a digit comes, nothing is
attached. -/
theorem Numeral.malformedSuffix_eq_nil {c : Char} {cs : List Char} (hword : ¬ isWordChar c = true)
    (hpoint : ¬ (c = '.' ∧ cs.head?.any isDecimalDigit = true)) :
    malformedSuffix (c :: cs) = [] := by
  cases cs with
  | nil => rw [malformedSuffix, if_neg hword]
  | cons d ds =>
    rw [malformedSuffix, if_neg hword]
    exact if_neg hpoint

/-! ### Runs of digits -/

/-- Digits come first in a run. -/
theorem digitRun_eq_takeWhile_append (radix : Radix) (text : List Char) :
    digitRun radix text =
      text.takeWhile radix.isDigit ++ digitRun radix (text.dropWhile radix.isDigit) := by
  induction text with
  | nil => rfl
  | cons c cs ih =>
    by_cases hc : radix.isDigit c = true
    · rw [digitRun_cons_of_isDigit hc, List.takeWhile_cons_of_pos hc,
        List.dropWhile_cons_of_pos hc, ih, List.cons_append]
    · rw [List.takeWhile_cons_of_neg hc, List.dropWhile_cons_of_neg hc, List.nil_append]

/-- Separators that no run is behind are not part of one. -/
theorem digitRun_replicate_append_eq_nil {radix : Radix} {text : List Char}
    (h : digitRun radix text = []) (n : Nat) :
    digitRun radix (List.replicate n '_' ++ text) = [] := by
  induction n with
  | zero => exact h
  | succ n ih =>
    rw [List.replicate_succ, List.cons_append, digitRun, ih]
    simp [radix.isDigit_underscore]

/-- Separators belong to a run if a digit is behind them. -/
theorem digitRun_eq_separators_append (radix : Radix) (text : List Char) :
    digitRun radix text =
      if (text.dropWhile (· == '_')).head?.any radix.isDigit then
        text.takeWhile (· == '_') ++ digitRun radix (text.dropWhile (· == '_'))
      else [] := by
  have hall : ∀ c ∈ text.takeWhile (· == '_'), c = '_' := fun c hc => by
    simpa using List.all_eq_true.1 List.all_takeWhile c hc
  have htext : text = List.replicate (text.takeWhile (· == '_')).length '_' ++
      text.dropWhile (· == '_') := by
    rw [← List.eq_replicate_of_mem hall, List.takeWhile_append_dropWhile]
  have hstop := List.head?_dropWhile_not (· == '_') text
  conv_lhs => rw [htext]
  cases hbehind : text.dropWhile (· == '_') with
  | nil => exact digitRun_replicate_append_eq_nil rfl _
  | cons c cs =>
    rw [List.head?_cons, Option.any_some]
    split
    · rename_i hc
      have hne : digitRun radix (c :: cs) ≠ [] := by rw [digitRun_cons_of_isDigit hc]; simp
      rw [digitRun_replicate_append hne, ← List.eq_replicate_of_mem hall]
    · rename_i hc
      have hsep : c ≠ '_' := by simpa [hbehind] using hstop
      exact digitRun_replicate_append_eq_nil (by rw [digitRun, if_neg hc, if_neg hsep]) _

/-- A run that leads to a character of another class than the first one is not empty. -/
theorem Reader.run_ne_nil {r : Reader} {p q : Char → Bool} (hq : ∀ c ∈ r.rest.head?, q c = false)
    (hany : (r.skipWhile p).rest.head?.any q = true) : r.run p ≠ [] := by
  intro hnil
  rw [skipWhile, hnil, Option.any_eq_true] at hany
  obtain ⟨c, hc, hqc⟩ := hany
  rw [hq c hc] at hqc
  exact Bool.false_ne_true hqc

namespace Machine

variable {r : Reader} {s : Source} {mode : Mode} {errors : List LexError} {trivia : List Trivia}

/-- **Separators are passed** if a digit is behind them. -/
theorem run_eatSeparators (h : r.StandsIn s) {radix : Radix}
    (hdigit : ∀ c ∈ r.rest.head?, radix.isDigit c = false) :
    (eatSeparators radix).run (r.machine mode errors trivia) =
      if (r.skipWhile (· == '_')).rest.head?.any radix.isDigit then
        some (true, (r.skipWhile (· == '_')).machine mode errors trivia)
      else some (false, r.machine mode errors trivia) := by
  have hpeek : r.peek (r.rest.takeWhile (· == '_')).length =
      (r.skipWhile (· == '_')).rest.head? := r.peek_eq_head? _
  rw [eatSeparators, run_bind_of_run (run_rest h)]
  by_cases hzero : (r.rest.takeWhile (· == '_')).length = 0
  · have hnone : (r.skipWhile (· == '_')).rest.head?.any radix.isDigit = false := by
      rw [Reader.skipWhile, Reader.run, hzero, Option.any_eq_false]
      simpa using hdigit
    rw [hnone]
    simp only [hzero]
    rfl
  · simp only [if_neg hzero]
    rw [run_bind_of_run (run_peek h _), hpeek]
    split
    · rw [run_bind_of_run (run_advanceBy h _)]
      rfl
    · rfl

/-- **A turn of the loop over digits** passes a run of them and the separators behind it, if a
digit follows. -/
theorem run_eatDigitRun (h : r.StandsIn s) (radix : Radix) :
    (eatDigitRun radix).run (r.machine mode errors trivia) =
      let after := r.skipWhile radix.isDigit
      if (after.skipWhile (· == '_')).rest.head?.any radix.isDigit then
        some (.again (), (after.skipWhile (· == '_')).machine mode errors trivia)
      else some (.done (), after.machine mode errors trivia) := by
  have hturn := @run_eatSeparators _ s mode errors trivia (h.skipWhile radix.isDigit) radix
    (r.not_of_head?_skipWhile radix.isDigit)
  dsimp only
  rw [eatDigitRun, run_bind_of_run (run_eatWhile h _)]
  split at hturn
  · rename_i hgo
    rw [run_bind_of_run hturn, if_pos hgo]
    rfl
  · rename_i hstop
    rw [run_bind_of_run hturn, if_neg hstop]
    rfl

/-- **The digits that are passed** are the longest run. -/
theorem run_eatDigits (h : r.StandsIn s) (radix : Radix) :
    (eatDigits radix).run (r.machine mode errors trivia) =
      some ((), (r.advanceBy (digitRun radix r.rest).length).machine mode errors trivia) := by
  rw [eatDigits]
  induction hn : r.rest.length using Nat.strongRecOn generalizing r with
  | ind n ih =>
    have hturn := @run_eatDigitRun r s mode errors trivia h radix
    have hdigits := digitRun_eq_takeWhile_append radix r.rest
    have hseparators := digitRun_eq_separators_append radix (r.skipWhile radix.isDigit).rest
    have hdigit := r.not_of_head?_skipWhile radix.isDigit
    rw [← r.rest_skipWhile] at hdigits
    rw [← Reader.rest_skipWhile] at hseparators
    rw [hdigits, List.length_append, Reader.advanceBy_add]
    change _ = some ((), ((r.skipWhile radix.isDigit).advanceBy _).machine mode errors trivia)
    rw [hseparators]
    dsimp only at hturn
    split at hturn
    · rename_i hgo
      -- the run of digits may be empty at the start, the separators before a digit are not
      have hrun := Reader.run_ne_nil hdigit hgo
      have hrest : (r.run radix.isDigit ++ (r.skipWhile radix.isDigit).run (· == '_')) ++
          ((r.skipWhile radix.isDigit).skipWhile (· == '_')).rest = r.rest := by
        rw [List.append_assoc, Reader.run_append_rest_skipWhile, Reader.run_append_rest_skipWhile]
      have hlength := congrArg List.length hrest
      have hpos := List.length_pos_iff.2 hrun
      have hbehind := (h.skipWhile radix.isDigit).skipWhile (· == '_')
      rw [List.length_append, List.length_append] at hlength
      rw [run_loop_of_passed h hbehind (List.append_ne_nil_of_right_ne_nil _ hrun) hrest hturn,
        if_pos hgo, List.length_append, Reader.advanceBy_add]
      exact ih _ (by omega) hbehind rfl
    · rename_i hstop
      rw [run_loop_of_done hturn, if_neg hstop]
      rfl

/-- **A fraction is passed** as it is read. -/
theorem run_eatFraction (h : r.StandsIn s) :
    eatFraction.run (r.machine mode errors trivia) =
      some ((Numeral.fraction? r.rest).isSome,
        (r.advanceBy (Numeral.fractionChars (Numeral.fraction? r.rest)).length).machine mode
          errors trivia) := by
  rw [eatFraction, run_bind_of_run (run_peek h 0)]
  cases hr : r.rest with
  | nil =>
    rw [Reader.peek_of_nil hr]
    rfl
  | cons c cs =>
    have hdigit : (r.peek 1).any isDecimalDigit = cs.head?.any (Radix.isDigit .decimal) := by
      rw [Reader.peek_one_of_cons hr]
      rfl
    rw [Reader.peek_zero_of_cons hr, Numeral.fraction?]
    by_cases hpoint : c = '.'
    · rw [if_pos hpoint, if_pos (congrArg some hpoint), run_bind_of_run (run_peek h 1), hdigit,
        digits?]
      split
      · rw [run_bind_of_run (run_advance h), run_bind_of_run (run_eatDigits h.advance .decimal),
          Reader.rest_advance_of_cons hr]
        rfl
      · rfl
    · rw [if_neg hpoint, if_neg (mt Option.some.inj hpoint)]
      rfl

/-- **An exponent is passed** as it is read. -/
theorem run_eatExponent (h : r.StandsIn s) :
    eatExponent.run (r.machine mode errors trivia) =
      some ((Numeral.exponent? r.rest).isSome,
        (r.advanceBy (Numeral.exponentChars (Numeral.exponent? r.rest)).length).machine mode
          errors trivia) := by
  rw [eatExponent, run_bind_of_run (run_peek h 0)]
  cases hr : r.rest with
  | nil =>
    rw [Reader.peek_of_nil hr]
    rfl
  | cons c cs =>
    have hsign : (if r.peek 1 = some '+' ∨ r.peek 1 = some '-' then 1 else 0) =
        (Numeral.sign? cs).toList.length := by
      rw [Reader.peek_succ_of_cons hr]
      cases cs with
      | nil => rfl
      | cons d ds =>
        simp only [Numeral.sign?, List.getElem?_cons_zero, Option.some.injEq]
        split <;> rfl
    rw [Reader.peek_zero_of_cons hr, Numeral.exponent?]
    by_cases hmark : c = 'e' ∨ c = 'E'
    · rw [if_pos hmark, if_pos (by simpa using hmark), run_bind_of_run (run_peek h 1)]
      simp only [hsign]
      generalize Numeral.sign? cs = sign at hsign
      have hdigit : (r.peek (1 + sign.toList.length)).any isDecimalDigit =
          (cs.drop sign.toList.length).head?.any (Radix.isDigit .decimal) := by
        rw [Nat.add_comm, Reader.peek_succ_of_cons hr, List.head?_drop]
        rfl
      rw [run_bind_of_run (run_peek h _), hdigit, digits?]
      split
      · have hrest : (r.advanceBy (sign.toList.length + 1)).rest = cs.drop sign.toList.length := by
          rw [Reader.rest_advanceBy, hr, List.drop_succ_cons]
        have hlength : ∀ run, (Numeral.exponentChars (some ⟨c, sign, run⟩)).length =
            sign.toList.length + 1 + run.length := fun run => by
          simp only [Numeral.exponentChars, Exponent.chars, List.cons_append, List.length_cons,
            List.length_append]
          omega
        rw [run_bind_of_run (run_advanceBy h _),
          run_bind_of_run (run_eatDigits (h.advanceBy _) .decimal), hrest, ← Reader.advanceBy_add,
          Option.map_some, hlength]
        rfl
      · rfl
    · rw [if_neg hmark, if_neg (by simpa using hmark)]
      rfl

/-- **A mark is passed** with a digit of its radix behind it, where a numeral is read that has
it. -/
theorem run_readMark (h : r.StandsIn s) :
    readMark.run (r.machine mode errors trivia) =
      match Numeral.marked? r.rest with
      | some n => some (n.radix, (r.advanceBy 2).machine mode errors trivia)
      | none => some (.decimal, r.machine mode errors trivia) := by
  rw [readMark, run_bind_of_run (run_peek h 0)]
  match hr : r.rest with
  | [] =>
    rw [Reader.peek_of_nil hr]
    rfl
  | [c] =>
    rw [Reader.peek_zero_of_cons hr]
    split
    · rfl
    · rw [run_bind_of_run (run_peek h 1), Reader.peek_succ_of_cons hr]
      rfl
  | c :: d :: cs =>
    have hdigit : r.peek 2 = cs.head? := by
      rw [Reader.peek_succ_of_cons hr, List.head?_eq_getElem?]
      rfl
    rw [Reader.peek_zero_of_cons hr, Numeral.marked?]
    by_cases hzero : c = '0'
    · rw [if_pos hzero, if_neg (not_not.2 (congrArg some hzero)),
        run_bind_of_run (run_peek h 1), Reader.peek_succ_of_cons hr, List.getElem?_cons_zero,
        Option.bind_some]
      cases Radix.ofMark? d with
      | none => rfl
      | some radix =>
        simp only [Option.bind_some, digits?]
        rw [run_bind_of_run (run_peek h 2), hdigit]
        split
        · rw [run_bind_of_run (run_advanceBy h 2)]
          rfl
        · rfl
    · rw [if_neg hzero, if_pos (mt Option.some.inj hzero)]
      rfl

/-- **A numeral is passed** as it is read. -/
theorem run_eatNumeral (h : r.StandsIn s) :
    eatNumeral.run (r.machine mode errors trivia) =
      some (((Numeral.read r.rest).radix, (Numeral.read r.rest).isFloat),
        (r.advanceBy (Numeral.read r.rest).chars.length).machine mode errors trivia) := by
  have hmark := @run_readMark r s mode errors trivia h
  cases hm : Numeral.marked? r.rest with
  | some n =>
    rw [hm] at hmark
    obtain ⟨hradix, hn⟩ := Numeral.eq_of_marked?_eq_some hm
    have hlength : n.chars.length = 2 + (digitRun n.radix (r.rest.drop 2)).length := by
      rw [hn, Numeral.chars_marked, List.length_append, Radix.length_mark hradix]
    have hfloat : n.isFloat = false := by rw [hn]; rfl
    rw [eatNumeral, run_bind_of_run hmark, run_bind_of_run (run_eatDigits (h.advanceBy 2) _),
      if_neg hradix, Reader.rest_advanceBy, ← Reader.advanceBy_add, ← hlength, Numeral.read, hm,
      Option.getD_some, hfloat]
    rfl
  | none =>
    rw [hm] at hmark
    have hread : Numeral.read r.rest = Numeral.readDecimal r.rest := by
      rw [Numeral.read, hm, Option.getD_none]
    rw [eatNumeral, run_bind_of_run hmark, run_bind_of_run (run_eatDigits h _), if_pos rfl,
      run_bind_of_run (run_eatFraction (h.advanceBy _)),
      run_bind_of_run (run_eatExponent ((h.advanceBy _).advanceBy _)), hread,
      Numeral.chars_readDecimal, Numeral.tailChars, Numeral.readDecimal_eq, List.length_append,
      List.length_append, Reader.advanceBy_add, Reader.advanceBy_add]
    simp only [Reader.rest_advanceBy]
    rfl

/-! ### Values -/

/-- **An integer is decoded** to its value, or to the greatest one with an error.  The cut behind
its mark is at a boundary, and the parse of its digits fails only out of range. -/
theorem run_decodeInteger {radix : Radix} {run : List Char} (hrun : Digits radix run)
    (span : Span) :
    (decodeInteger span (radix.mark ++ run) radix).run (r.machine mode errors trivia) =
      some (⟨.integer (radix.mark ++ run) radix (min (radix.valueOf run) Numeral.maxInteger), span⟩,
        r.machine mode (errors ++ if Numeral.maxInteger < radix.valueOf run then
          [⟨.invalidNumericLiteral, span, some ⟨.integerLiteral, radix.mark ++ run⟩⟩] else [])
          trivia) := by
  have hdigits : unmarked? radix (radix.mark ++ run) = some run := by
    rw [unmarked?]
    split
    · rename_i hradix
      rw [hradix]
      rfl
    · rename_i hradix
      exact Radix.dropBytes?_mark hradix run
  rw [decodeInteger, run_bind_of_run (run_cut hdigits), hrun.parse_digitsOf]
  by_cases hle : radix.valueOf run ≤ Numeral.maxInteger
  · rw [if_pos hle, if_neg (Nat.not_lt.2 hle), Nat.min_eq_left hle, List.append_nil]
    rfl
  · rw [if_neg hle, if_pos (Nat.not_le.1 hle), Nat.min_eq_right (Nat.le_of_not_le hle)]
    rfl

/-- **A floating-point number is decoded** to its value, with an error if this is infinite.  The
parse of its text does not fail. -/
theorem run_decodeFloat {n : Numeral} (hn : n.IsDecimal) (hfloat : n.isFloat = true)
    (span : Span) :
    (decodeFloat span n.chars).run (r.machine mode errors trivia) =
      some (⟨.float n.chars n.float, span⟩, r.machine mode (errors ++ if n.float.isFinite then []
          else [⟨.invalidNumericLiteral, span, some ⟨.floatLiteral, n.chars⟩⟩]) trivia) := by
  have hparse : Decimal.parse? (digitsOf n.chars) = some n.float :=
    (hn.denotes hfloat).parse? (Binary64.isRounded_ofDecimal n.mantissa n.scale)
  rw [decodeFloat, hparse, Option.getD_some, run_bind_of_run (run_recordUnless _ _)]
  rfl

/-- **The text of a numeral that is read is decoded** to its token. -/
theorem run_decode {c : Char} (hc : isDecimalDigit c = true) {cs : List Char} {n : Numeral}
    (hn : Numeral.read (c :: cs) = n) (span : Span) :
    (decode span n.chars n.radix n.isFloat).run (r.machine mode errors trivia) =
      some (⟨.ofNumeral n, span⟩, r.machine mode (errors ++ if n.overflows then
          [⟨.invalidNumericLiteral, span, some (Recovered.ofPayload (.ofNumeral n))⟩] else [])
        trivia) := by
  rw [decode, Recovered.ofPayload_ofNumeral, Payload.ofNumeral, Numeral.overflows]
  cases hfloat : n.isFloat with
  | true =>
    have hdecimal : n.IsDecimal := hn ▸ Numeral.isDecimal_read hc cs (hn ▸ hfloat)
    simp only [if_true]
    rw [run_decodeFloat hdecimal hfloat]
    cases n.float.isFinite <;> rfl
  | false =>
    -- a numeral without fraction and exponent is a mark and digits
    obtain ⟨radix, run, rfl⟩ : ∃ radix run, n = ⟨radix, run, none, none⟩ := by
      obtain ⟨radix, run, fraction, exponent⟩ := n
      obtain ⟨hfraction, hexponent⟩ := Bool.or_eq_false_iff.1 hfloat
      obtain rfl := Option.not_isSome_iff_eq_none.1 (Bool.eq_false_iff.1 hfraction)
      obtain rfl := Option.not_isSome_iff_eq_none.1 (Bool.eq_false_iff.1 hexponent)
      exact ⟨radix, run, rfl⟩
    have hgrammar := Numeral.numeralText_read hc cs
    rw [hn, hfloat, Numeral.chars_marked] at hgrammar
    obtain ⟨run', heq, hrun⟩ := hgrammar.exists_digits
    obtain rfl := List.append_cancel_left heq
    simp only [Bool.false_eq_true, if_false, Numeral.chars_marked, decide_eq_true_eq]
    exact run_decodeInteger hrun span

/-! ### What is attached -/

theorem run_skipOne_of_nil (h : r.StandsIn s) (hr : r.rest = []) :
    skipOne.run (r.machine mode errors trivia) =
      some (.done (), r.machine mode errors trivia) := by
  rw [skipOne, run_bind_of_run (run_peek h 0), run_bind_of_run (run_peek h 1),
    Reader.peek_of_nil hr]
  rfl

theorem run_skipOne_of_cons (h : r.StandsIn s) {c : Char} {cs : List Char}
    (hr : r.rest = c :: cs) :
    skipOne.run (r.machine mode errors trivia) =
      if isWordChar c then some (.again (), (r.advanceBy 1).machine mode errors trivia)
      else if c = '.' ∧ cs.head?.any isDecimalDigit then
        some (.again (), (r.advanceBy 2).machine mode errors trivia)
      else some (.done (), r.machine mode errors trivia) := by
  rw [skipOne, run_bind_of_run (run_peek h 0), run_bind_of_run (run_peek h 1),
    Reader.peek_zero_of_cons hr, Reader.peek_one_of_cons hr]
  dsimp only
  split
  · rw [run_bind_of_run (run_advance h)]
    rfl
  · split
    · rw [run_bind_of_run (run_advanceBy h 2)]
      rfl
    · rfl

/-- **What is attached to a number is passed** to its end. -/
theorem run_skipAttached (h : r.StandsIn s) {text : List Char} (hr : r.rest = text) :
    skipAttached.run (r.machine mode errors trivia) =
      some ((), (r.advanceBy (Numeral.malformedSuffix text).length).machine mode errors
        trivia) := by
  rw [skipAttached]
  induction hn : text.length using Nat.strongRecOn generalizing r text with
  | ind n ih =>
    cases text with
    | nil =>
      rw [run_loop_of_done (run_skipOne_of_nil h hr)]
      rfl
    | cons c cs =>
      rw [List.length_cons] at hn
      have hne : r.rest ≠ [] := by simp [hr]
      have hturn := @run_skipOne_of_cons r s mode errors trivia h c cs hr
      split at hturn
      · rename_i hword
        rw [run_loop_advanceBy h hne Nat.one_pos hturn,
          ih cs.length (by omega) (h.advanceBy 1) (Reader.rest_advance_of_cons hr) rfl,
          Numeral.malformedSuffix_of_isWordChar hword, ← Reader.advanceBy_add, Nat.add_comm]
        rfl
      · split at hturn
        · rename_i hpoint
          obtain ⟨rfl, hany⟩ := hpoint
          obtain ⟨d, hd, hdigit⟩ := Option.any_eq_true _ _ |>.1 hany
          obtain ⟨ds, rfl⟩ := List.head?_eq_some_iff.1 hd
          rw [List.length_cons] at hn
          rw [run_loop_advanceBy h hne Nat.two_pos hturn,
            ih ds.length (by omega) (h.advanceBy 2) (by rw [Reader.rest_advanceBy, hr]; rfl) rfl,
            Numeral.malformedSuffix_of_point hdigit, ← Reader.advanceBy_add, Nat.add_comm]
          rfl
        · rename_i hword hpoint
          rw [run_loop_of_done hturn, Numeral.malformedSuffix_eq_nil hword hpoint]
          rfl

/-- **What is attached to a number is skipped** with an error and as trivia, if it is anything. -/
theorem run_readSuffix (h : r.StandsIn s) (number : Token) {suffix : List Char}
    (hsuffix : Numeral.malformedSuffix r.rest = suffix) :
    (readSuffix number).run (r.machine mode errors trivia) =
      some ((), (r.advanceBy suffix.length).machine mode
        (errors ++ if suffix = [] then [] else [⟨.invalidNumericLiteral, r.spanOver suffix.length,
          some ⟨number.kind, number.text⟩⟩])
        (trivia ++ if suffix = [] then [] else [⟨.skipped, r.spanOver suffix.length⟩])) := by
  rw [readSuffix, run_bind_of_run run_position, run_bind_of_run (run_skipAttached h rfl), hsuffix,
    run_bind_of_run (run_spanSince _), Reader.spanSince_advanceBy]
  by_cases hnil : suffix = []
  · have hempty : (r.spanOver 0).isEmpty = true := beq_iff_eq.2 (Nat.sub_self _)
    rw [if_pos hnil, if_pos hnil, hnil, List.length_nil, if_pos hempty, List.append_nil,
      List.append_nil]
    rfl
  · obtain ⟨after, hafter⟩ := Numeral.isPrefix_malformedSuffix r.rest
    rw [hsuffix] at hafter
    obtain ⟨-, hempty, -⟩ := Reader.tiles_spanOver hafter.symm hnil
    rw [if_neg hnil, if_neg hnil, if_neg (Bool.eq_false_iff.1 hempty)]
    rfl

/-- **A number is read** as the text ahead has it. -/
theorem run_readNumber (h : r.StandsIn s) {c : Char} {cs : List Char} (hr : r.rest = c :: cs)
    (hc : isDecimalDigit c = true) :
    readNumber.run (r.machine mode errors trivia) =
      some (⟨.ofNumeral (Numeral.read (c :: cs)),
          r.spanOver (Numeral.read (c :: cs)).chars.length⟩,
        r.machineAfter (Lexeme.readNumber c cs) mode errors trivia) := by
  have hnumeral := @run_eatNumeral r s mode errors trivia h
  have hfront := Numeral.isPrefix_chars_read (c :: cs)
  rw [readNumber, run_bind_of_run run_position, run_bind_of_run hnumeral, Lexeme.readNumber, hr]
  generalize hn : Numeral.read (c :: cs) = n at hfront ⊢
  have hsuffix : Numeral.malformedSuffix (r.advanceBy n.chars.length).rest =
      Numeral.malformedSuffix ((c :: cs).drop n.chars.length) := by
    rw [Reader.rest_advanceBy, hr]
  dsimp only
  rw [run_bind_of_run (run_spanSince _), run_bind_of_run (run_textSince h (hr ▸ hfront)),
    run_bind_of_run (run_decode hc hn _),
    run_bind_of_run (run_readSuffix (h.advanceBy _) _ hsuffix), Reader.spanSince_advanceBy,
    Reader.machineAfter, Lexeme.errors_number, Lexeme.trivia_of_payload? rfl,
    Payload.text_ofNumeral, Lexeme.suffix, Lexeme.chars, List.length_append, Reader.advanceBy_add,
    List.append_assoc]
  rfl

end Machine

end Lexis
