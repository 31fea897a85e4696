/-
# Blanks

A run of blanks goes on as long as there are blanks (`Lexeme.blanks_of_read?`).  Besides such
runs only comments up to the end of their line and what is left open end with a blank
(`Lexeme.of_isBlank_getLast?`): no character of a word or of a number is a blank, and a lexeme
with a closing mark ends with the mark.  Of these only what takes all of the text ends with a
line end (`Lexeme.not_isLineEnd_getLast?`).
-/

import Lexis.Proofs.Lookahead.Lexeme
import Lexis.Proofs.Numerals.Grammar

namespace Lexis

/-! ### Characters -/

/-- **No character of a word is a blank.** -/
theorem not_isBlank_of_isWordChar {c : Char} (h : isWordChar c = true) : isBlank c = false := by
  have hall : ∀ range ∈ blankRanges, ∀ k < range.2 + 1 - range.1,
      range.1 + k ≠ '_'.toNat ∧ alphabeticRanges.contains (range.1 + k) = false ∧
        numericRanges.contains (range.1 + k) = false := by decide +kernel
  rw [← Bool.not_eq_true]
  intro hblank
  obtain ⟨range, hrange, hfirst, hlast⟩ := isBlank_iff.1 hblank
  obtain ⟨hunderscore, halphabetic, hnumeric⟩ := hall range hrange (c.toNat - range.1) (by omega)
  rw [Nat.add_sub_cancel' hfirst] at hunderscore halphabetic hnumeric
  simp only [isWordChar, isAlphanumeric, isAlphabetic, isNumeric, halphabetic, hnumeric,
    Bool.or_false, beq_iff_eq] at h
  exact hunderscore (congrArg Char.toNat h)

/-- A digit is an ASCII digit or letter. -/
theorem toNat_of_digitValue? {c : Char} {d : Nat} (h : digitValue? c = some d) :
    '0'.toNat ≤ c.toNat ∧ c.toNat ≤ 'f'.toNat := by
  have hle {a b : Char} (hab : a ≤ b) : a.toNat ≤ b.toNat :=
    UInt32.le_iff_toNat_le.1 (Char.le_def.1 hab)
  unfold digitValue? at h
  split at h
  · rename_i hc
    exact ⟨hle hc.1, (hle hc.2).trans (by decide)⟩
  · split at h
    · rename_i hc
      exact ⟨Nat.le_trans (by decide) (hle hc.1), hle hc.2⟩
    · split at h
      · rename_i hc
        exact ⟨Nat.le_trans (by decide) (hle hc.1), (hle hc.2).trans (by decide)⟩
      · simp at h

theorem Radix.not_isBlank_of_isDigit {r : Radix} {c : Char} (h : r.isDigit c = true) :
    isBlank c = false := by
  have hall : ∀ range ∈ blankRanges, range.2 < '0'.toNat ∨ 'f'.toNat < range.1 := by decide
  rw [isDigit, isDigitBelow] at h
  split at h
  · rename_i d hd
    obtain ⟨hlow, hhigh⟩ := toNat_of_digitValue? hd
    rw [← Bool.not_eq_true]
    intro hblank
    obtain ⟨range, hrange, hfirst, hlast⟩ := isBlank_iff.1 hblank
    have hapart := hall range hrange
    omega
  · simp at h

/-! ### Numbers -/

/-- The text holds no blank. -/
def NoBlank (text : List Char) : Prop := ∀ c ∈ text, isBlank c = false

instance (text : List Char) : Decidable (NoBlank text) :=
  decidable_of_iff (text.all (fun c => !isBlank c) = true) (by simp [NoBlank])

theorem noBlank_nil : NoBlank [] := fun _ hc => absurd hc List.not_mem_nil

theorem NoBlank.append {as bs : List Char} (has : NoBlank as) (hbs : NoBlank bs) :
    NoBlank (as ++ bs) := List.forall_mem_append.2 ⟨has, hbs⟩

theorem NoBlank.cons {c : Char} {cs : List Char} (hc : isBlank c = false) (hcs : NoBlank cs) :
    NoBlank (c :: cs) := List.forall_mem_cons.2 ⟨hc, hcs⟩

theorem Digits.noBlank {r : Radix} {run : List Char} (h : Digits r run) : NoBlank run := by
  intro c hc
  rcases h.of_mem c hc with hdigit | rfl
  · exact Radix.not_isBlank_of_isDigit hdigit
  · decide

theorem FractionText.noBlank {fraction : List Char} (h : FractionText fraction) :
    NoBlank fraction := by
  cases h with
  | none => exact noBlank_nil
  | point hrun => exact hrun.noBlank.cons (by decide)

theorem ExponentText.noBlank {exponent : List Char} (h : ExponentText exponent) :
    NoBlank exponent := by
  cases h with
  | none => exact noBlank_nil
  | power hmark hsign hrun =>
    refine NoBlank.cons ?_ (NoBlank.append ?_ hrun.noBlank)
    · rcases hmark with rfl | rfl <;> decide
    · rcases hsign with rfl | rfl | rfl <;> decide

/-- A numeral holds no blank. -/
theorem NumeralText.noBlank {radix : Radix} {float : Bool} {text : List Char}
    (h : NumeralText radix float text) : NoBlank text := by
  cases h with
  | marked _ hrun =>
    refine NoBlank.append ?_ hrun.noBlank
    cases radix <;> decide
  | decimal hwhole hfraction hexponent _ =>
    exact hwhole.noBlank.append (hfraction.noBlank.append hexponent.noBlank)

/-- What is attached to a numeral holds no blank. -/
theorem Attached.noBlank {text : List Char} (h : Attached text) : NoBlank text := by
  induction h with
  | nil => exact noBlank_nil
  | word hc _ ih => exact ih.cons (not_isBlank_of_isWordChar hc)
  | point hd _ ih =>
    have hdigit := Radix.not_isBlank_of_isDigit (r := .decimal) hd
    exact (ih.cons hdigit).cons (by decide)

/-! ### Runs of a class -/

/-- **The longest run of a class** at the head of a text. -/
theorem longestFront_takeWhile (p : Char → Bool) (text : List Char) :
    LongestFront (fun run => ∀ c ∈ run, p c = true) text (text.takeWhile p) where
  holds := fun _ hc => List.mem_takeWhile_imp hc
  begins := List.takeWhile_prefix p
  longest := by
    rintro other hother ⟨after, rfl⟩
    rw [List.takeWhile_append_of_pos hother, List.length_append]
    exact Nat.le_add_right _ _

/-- The longest run of a class at the head of a text that begins with one. -/
theorem longestFront_cons_takeWhile {p : Char → Bool} {c : Char} (hc : p c = true)
    (cs : List Char) :
    LongestFront (fun run => ∀ c ∈ run, p c = true) (c :: cs) (c :: cs.takeWhile p) := by
  have hlongest := longestFront_takeWhile p (c :: cs)
  rwa [List.takeWhile_cons_of_pos hc] at hlongest

/-! ### Lexemes -/

namespace Lexeme

variable {text : List Char} {l : Lexeme}

/-- **A run of blanks** is the longest one. -/
theorem blanks_of_read? {run : List Char} (h : read? text = some (.blanks run)) :
    (∃ c ∈ text.head?, isBlank c = true) ∧
      LongestFront (fun run => ∀ c ∈ run, isBlank c = true) text run := by
  obtain ⟨c, cs, rfl, ⟨hk, hl⟩ | ⟨kind, -, hl⟩⟩ := exists_opening_of_read? h
  · obtain rfl := Lexeme.blanks.inj hl
    have hc := Opening.isBlank_of_blanks hk
    exact ⟨⟨c, rfl, hc⟩, longestFront_cons_takeWhile hc cs⟩
  · have hkind := kind?_ofKind kind c cs
    rw [← hl] at hkind
    simp [kind?] at hkind

/-- **What ends with a blank:** runs of blanks, comments up to the end of their line, and what is
left open. -/
theorem of_isBlank_getLast? {c : Char} (hl : read? text = some l) (hc : c ∈ l.chars.getLast?)
    (hblank : isBlank c = true) :
    l.isBlanks = true ∨ l.isOpen = true ∨ (∃ run, l = .lineComment run) ∨
      ∃ literal, l = .quoted literal ∧ literal.closed = false := by
  -- what holds no blank does not end with one
  have hnone (h : NoBlank l.chars) : False := by
    have hnot := h c (List.mem_of_getLast? hc)
    rw [hblank] at hnot
    simp at hnot
  cases l with
  | blanks run => exact Or.inl rfl
  | lineComment run => exact Or.inr (Or.inr (Or.inl ⟨run, rfl⟩))
  | word run =>
    obtain ⟨d, ds, rfl, hk, hrun⟩ := exists_opening_of_kind? hl rfl
    obtain rfl := Lexeme.word.inj hrun
    refine (hnone (NoBlank.cons (Opening.not_isBlank hk) fun e he => ?_)).elim
    exact not_isBlank_of_isWordChar (List.mem_takeWhile_imp he)
  | number numeral suffix =>
    obtain ⟨⟨d, ds, rfl, hd⟩, rfl, rfl⟩ := number_of_read? hl
    have hnum := Numeral.numeralText_read hd ds
    exact (hnone (hnum.noBlank.append (Numeral.attached_malformedSuffix _).noBlank)).elim
  | quoted literal =>
    cases hclosed : literal.closed with
    | false => exact Or.inr (Or.inr (Or.inr ⟨literal, rfl, hclosed⟩))
    | true =>
      obtain rfl := Option.some.inj ((Quoted.getLast?_chars_of_closed hclosed).symm.trans hc)
      have hquote : ∀ q : Quote, isBlank q.char = false := by
        intro q
        cases q <;> decide
      rw [hquote] at hblank
      simp at hblank
  | blockComment run closed =>
    cases closed with
    | false => exact Or.inr (Or.inl rfl)
    | true =>
      obtain ⟨d, ds, rfl, hk, hrun⟩ := exists_opening_of_kind? hl rfl
      obtain ⟨rfl, hclosed⟩ := Lexeme.blockComment.inj hrun
      have hlast := Comment.getLast?_blockRun Nat.one_ne_zero hclosed.symm
      simp only [chars, List.getLast?_append, hlast, Option.some_or] at hc
      obtain rfl := Option.some.inj hc
      exact absurd hblank (by decide)
  | operator o =>
    have hall : ∀ o ∈ Operator.all, NoBlank o.chars := by decide +kernel
    exact (hnone (hall o o.mem_all)).elim
  | punctuation p =>
    obtain rfl := Option.some.inj hc
    cases p <;> exact absurd hblank (by decide)
  | unexpected d =>
    obtain ⟨e, es, rfl, hk, hd⟩ := exists_opening_of_kind? hl rfl
    obtain ⟨-, -, rfl⟩ := readSymbol_eq_unexpected_iff.1 hd.symm
    exact (hnone (NoBlank.cons (Opening.not_isBlank hk) noBlank_nil)).elim

/-- **A comment up to the end of its line** holds no line end, and one comes after it. -/
theorem lineComment_of_read? {run : List Char} (hl : read? text = some (.lineComment run)) :
    ['/', '/'] <+: run ∧ (∀ c ∈ run, isLineEnd c = false) ∧
      ∃ after, text = run ++ after ∧ AtLineEnd after := by
  obtain ⟨c, cs, rfl, hk, hrun⟩ := exists_opening_of_kind? hl rfl
  obtain rfl := Lexeme.lineComment.inj hrun
  obtain ⟨rfl, hsecond⟩ := Opening.marks_of_lineComment hk
  obtain ⟨ds, rfl⟩ := List.head?_eq_some_iff.1 hsecond
  refine ⟨⟨Comment.lineRun ds, rfl⟩, fun d hd => ?_,
    ('/' :: ds).dropWhile fun d => !isLineEnd d, ?_, fun d hd => ?_⟩
  · rcases List.mem_cons.1 hd with rfl | hd
    · decide
    · simpa using List.mem_takeWhile_imp hd
  · rw [List.cons_append, Comment.lineRun_append_dropWhile]
  · have hstop := List.head?_dropWhile_not (fun d => !isLineEnd d) ('/' :: ds)
    rw [hd] at hstop
    simpa using hstop

/-- A lexeme that is neither a run of blanks nor left open does not end with a line end. -/
theorem not_isLineEnd_getLast? (hl : read? text = some l) (hblanks : l.isBlanks = false)
    (hopen : l.isOpen = false) : ∀ c ∈ l.chars.getLast?, isLineEnd c = false := by
  intro c hc
  rw [← Bool.not_eq_true]
  intro hend
  have hmem := List.mem_of_getLast? hc
  rcases of_isBlank_getLast? hl hc (isBlank_of_isLineEnd hend) with
    h | h | ⟨run, rfl⟩ | ⟨literal, rfl, hclosed⟩
  · simp [h] at hblanks
  · simp [h] at hopen
  · have hnone := (lineComment_of_read? hl).2.1 c hmem
    simp [hend] at hnone
  · obtain ⟨d, ds, rfl, -, rfl⟩ := quoted_of_read? hl
    have hsingle := (closed_or_of_isOpen_quoted hopen).resolve_left (by simp [hclosed])
    have hnone := Quoted.not_isLineEnd_of_mem_read hsingle hmem
    simp [hend] at hnone

end Lexeme

end Lexis
