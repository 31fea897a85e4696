/-
# Spelling a string as a literal

A string can be written as a literal in many ways.  Between double quotes each
character stands for itself or is escaped, and which escape is taken may differ
from character to character (`CharSpelling`, `Spells`).  Between backticks the
string is written as it is.

However a string is spelled, and whatever comes after the literal, a scan reads
the literal as it is written, and its value is the string
(`scan_spelled_string`).  Three things could go wrong and are excluded by what a
spelling is: a decimal code would take the digits of the next character for its
own, an empty string and a delimiter after it would open a multi-line literal,
and a delimiter in the string would close it.

The argument is by the characters of the string.  Each of them is read as the unit
that spells it (`CharSpelling.exists_unit?`), so the units that are read are those
that have been written (`Spells.exists_readUnits`).
-/

import Lexis.Proofs.Lexemes
import Lexis.Proofs.Lookahead.Lexeme
import Mathlib.Data.List.Forall2
import Mathlib.Tactic.Ring

namespace Lexis

/-! ### Spellings -/

/-- The letters that stand for a character after a backslash. -/
def escapeLetters : List (Char × Char) :=
  [('n', '\n'), ('t', '\t'), ('r', '\r'), ('\\', '\\'), ('\x22', '\x22'), ('\x27', '\x27'),
    ('\x60', '\x60'), ('a', '\x07'), ('b', '\x08'), ('f', '\x0c'), ('v', '\x0b'), ('e', '\x1b')]

/-- The last `count` hexadecimal digits of a number, in lower case. -/
def hexCode : Nat → Nat → List Char
  | 0, _ => []
  | count + 1, n => Nat.digitChar (n / 16 ^ count % 16) :: hexCode count n

/-- The character is a digit or a letter in lower case, or that letter in upper case. -/
def EitherCase (c lower : Char) : Prop := c = lower ∨ c = lower.toUpper

/-- **The ways to write a character** between double quotes, where `next` is the
character written after it, if there is one before the closing delimiter. -/
inductive CharSpelling (multiline : Bool) (next : Option Char) : Char → List Char → Prop
  /-- The character itself, unless it is a double quote or a backslash; a line end only
  in a multi-line literal. -/
  | verbatim {c} (hquote : c ≠ '\x22') (hbackslash : c ≠ '\\')
      (hline : c = '\n' ∨ c = '\r' → multiline = true) : CharSpelling multiline next c [c]
  /-- A backslash and a letter. -/
  | letter {c l} (hl : (l, c) ∈ escapeLetters) : CharSpelling multiline next c ['\\', l]
  /-- The code point in two hexadecimal digits. -/
  | byte {c digits} (hc : c.toNat ≤ 0xff)
      (hdigits : List.Forall₂ EitherCase digits (hexCode 2 c.toNat)) :
    CharSpelling multiline next c ('\\' :: 'x' :: digits)
  /-- The code point in four hexadecimal digits. -/
  | unicode {c digits} (hc : c.toNat ≤ 0xffff)
      (hdigits : List.Forall₂ EitherCase digits (hexCode 4 c.toNat)) :
    CharSpelling multiline next c ('\\' :: 'u' :: digits)
  /-- The code point in decimal digits, with no digit after them. -/
  | decimal {c} (hc : c.toNat ≤ 127) (hnext : ∀ d ∈ next, d.isDigit = false) :
    CharSpelling multiline next c ('\\' :: Nat.toDigits 10 c.toNat)

/-- **The ways to write a string** between double quotes: its characters one after
the other, each in some way. -/
inductive Spells (multiline : Bool) : List Char → List Char → Prop
  | nil : Spells multiline [] []
  | cons {c s written content} (hc : CharSpelling multiline content.head? c written)
      (hs : Spells multiline s content) : Spells multiline (c :: s) (written ++ content)

/-- Every character has a spelling, whatever is written after it. -/
theorem exists_charSpelling (multiline : Bool) (next : Option Char) (c : Char) :
    ∃ written, CharSpelling multiline next c written := by
  by_cases hletter : c = '\x22' ∨ c = '\\' ∨ c = '\n' ∨ c = '\r'
  · rcases hletter with rfl | rfl | rfl | rfl
    · exact ⟨['\\', '\x22'], .letter (by decide)⟩
    · exact ⟨['\\', '\\'], .letter (by decide)⟩
    · exact ⟨['\\', 'n'], .letter (by decide)⟩
    · exact ⟨['\\', 'r'], .letter (by decide)⟩
  · simp only [not_or] at hletter
    obtain ⟨hquote, hbackslash, hlf, hcr⟩ := hletter
    exact ⟨[c], .verbatim hquote hbackslash (by simp [hlf, hcr])⟩

/-- Every string can be spelled. -/
theorem exists_spells (multiline : Bool) (s : List Char) :
    ∃ content, Spells multiline s content := by
  induction s with
  | nil => exact ⟨[], .nil⟩
  | cons c s ih =>
    obtain ⟨content, hs⟩ := ih
    obtain ⟨written, hc⟩ := exists_charSpelling multiline content.head? c
    exact ⟨written ++ content, .cons hc hs⟩

/-! ### Codes -/

theorem isDigit_of_isDecimalDigit {c : Char} (h : isDecimalDigit c = true) :
    c.isDigit = true := by
  unfold isDecimalDigit isDigitBelow digitValue? at h
  split at h
  · rename_i d hd
    split at hd
    · rename_i hc
      exact Bool.and_eq_true_iff.2 ⟨decide_eq_true hc.1, decide_eq_true hc.2⟩
    · have hlt := of_decide_eq_true h
      repeat' split at hd
      all_goals simp at hd
      all_goals omega
  · simp at h

theorem digitValue?_of_eitherCase {v : Nat} (hv : v < 16) {c : Char}
    (h : EitherCase c (Nat.digitChar v)) : digitValue? c = some v := by
  have hall : ∀ v < 16, digitValue? (Nat.digitChar v) = some v ∧
      digitValue? (Nat.digitChar v).toUpper = some v := by decide
  rcases h with rfl | rfl
  · exact (hall v hv).1
  · exact (hall v hv).2

section HexCode

variable {count n : Nat} {digits : List Char}

theorem length_hexCode (count n : Nat) : (hexCode count n).length = count := by
  induction count with
  | zero => rfl
  | succ count ih => rw [hexCode, List.length_cons, ih]

theorem isHexDigit_of_mem_hexCode (h : List.Forall₂ EitherCase digits (hexCode count n)) :
    ∀ d ∈ digits, isHexDigit d = true := by
  induction count generalizing digits with
  | zero =>
    obtain rfl := List.forall₂_nil_right_iff.1 h
    simp
  | succ count ih =>
    obtain ⟨d, ds, hd, hds, rfl⟩ := List.forall₂_cons_right_iff.1 h
    have hlt : n / 16 ^ count % 16 < 16 := Nat.mod_lt _ (by decide)
    refine List.forall_mem_cons.2 ⟨?_, ih hds⟩
    rw [isHexDigit, isDigitBelow, digitValue?_of_eitherCase hlt hd]
    exact decide_eq_true hlt

/-- The digits of a number denote it. -/
theorem numberOf_hexCode (h : List.Forall₂ EitherCase digits (hexCode count n))
    (hn : n < 16 ^ count) : numberOf 16 digits = n := by
  suffices hfold : ∀ acc, digits.foldl (fun n c => n * 16 + (digitValue? c).getD 0) acc =
      acc * 16 ^ count + n % 16 ^ count by
    rw [numberOf, hfold, Nat.zero_mul, Nat.zero_add, Nat.mod_eq_of_lt hn]
  clear hn
  induction count generalizing digits with
  | zero =>
    obtain rfl := List.forall₂_nil_right_iff.1 h
    intro acc
    simp [Nat.mod_one]
  | succ count ih =>
    obtain ⟨d, ds, hd, hds, rfl⟩ := List.forall₂_cons_right_iff.1 h
    have hvalue := digitValue?_of_eitherCase (Nat.mod_lt _ (by decide)) hd
    intro acc
    rw [List.foldl_cons, ih hds, hvalue, Option.getD_some, Nat.mod_pow_succ, pow_succ]
    ring

end HexCode

namespace Escape

theorem codePoint?_toNat (c : Char) : codePoint? c.toNat = some c := by
  rw [codePoint?, if_pos (show c.toNat.isValidChar from c.valid), Char.ofNat_toNat]

theorem hexValue?_of_hexCode {count : Nat} {c : Char} {digits : List Char}
    (h : List.Forall₂ EitherCase digits (hexCode count c.toNat)) (hc : c.toNat < 16 ^ count) :
    hexValue? count digits = some c := by
  rw [hexValue?, if_pos (h.length_eq.trans (length_hexCode _ _)), numberOf_hexCode h hc,
    codePoint?_toNat]

theorem hexRun_append {count : Nat} {digits : List Char} (hlength : digits.length = count)
    (hdigits : ∀ d ∈ digits, isHexDigit d = true) (after : List Char) :
    hexRun count (digits ++ after) = digits := by
  subst hlength
  rw [hexRun, List.take_left, List.takeWhile_eq_self_iff.2 hdigits]

/-- A letter that stands for a character is read as such. -/
theorem read_of_mem_escapeLetters {l c : Char} (h : (l, c) ∈ escapeLetters)
    (after : List Char) : read l after = .letter l := by
  have hall : ∀ p ∈ escapeLetters, isDecimalDigit p.1 = false ∧ p.1 ≠ 'x' ∧ p.1 ≠ 'u' := by decide
  obtain ⟨hdigit, hx, hu⟩ := hall _ h
  rw [read, hdigit, if_neg hx, if_neg hu]
  rfl

/-- The digits of a code point up to 127 are read as such, and denote it. -/
theorem read_toDigits {c : Char} (hc : c.toNat ≤ 127) {after : List Char}
    (hafter : ∀ d ∈ after.head?, d.isDigit = false) :
    ∃ d ds, Nat.toDigits 10 c.toNat = d :: ds ∧ isDecimalDigit d = true ∧
      read d (ds ++ after) = .decimal (d :: ds) ∧ decimalValue? (d :: ds) = some c := by
  have hall : ∀ n < 128, (Nat.toDigits 10 n).all isDecimalDigit = true ∧
      decimalValue? (Nat.toDigits 10 n) = some (Char.ofNat n) := by decide +kernel
  obtain ⟨hdigits, hvalue⟩ := hall c.toNat (by omega)
  rw [Char.ofNat_toNat] at hvalue
  cases hcode : Nat.toDigits 10 c.toNat with
  | nil => simp at hcode
  | cons d ds =>
    rw [hcode] at hdigits hvalue
    obtain ⟨hd, hds⟩ := List.forall_mem_cons.1 (List.all_eq_true.1 hdigits)
    have hstop : after.takeWhile isDecimalDigit = [] := by
      cases after with
      | nil => rfl
      | cons x xs =>
        have hx : ¬ isDecimalDigit x = true := fun hx => by
          have := hafter x rfl
          rw [isDigit_of_isDecimalDigit hx] at this
          simp at this
        exact List.takeWhile_cons_of_neg hx
    refine ⟨d, ds, rfl, hd, ?_, hvalue⟩
    rw [read, if_pos hd, List.takeWhile_append_of_pos hds, hstop, List.append_nil]

end Escape

/-! ### What is read -/

namespace QuoteForm

variable {f : QuoteForm}

/-- A literal that is not multi-line closes at every delimiter. -/
theorem closesAt_quote (hm : f.multiline = false) (cs : List Char) :
    f.closesAt (f.quote.char :: cs) = true := by
  have hdelim : f.delimiter = [f.quote.char] := by simp [delimiter, hm]
  rw [closesAt, hdelim, List.isPrefixOf_iff_prefix]
  exact List.prefix_append [f.quote.char] cs

end QuoteForm

/-- **A spelling of a character is read back** as a unit whose content is the character,
before every text that does not go on with a digit where the spelling must not. -/
theorem CharSpelling.exists_unit? {multiline : Bool} {next : Option Char} {c : Char}
    {written after : List Char} (h : CharSpelling multiline next c written)
    (hafter : (∀ d ∈ next, d.isDigit = false) → ∀ d ∈ after.head?, d.isDigit = false) :
    ∃ u : QuoteUnit, QuoteForm.unit? ⟨.double, multiline⟩ (written ++ after) = some u ∧
      u.chars = written ∧ u.content = [c] ∧ u.isMalformed = false := by
  -- an escape that denotes the character is a unit with the character as its content
  have hescape {l : Char} {ds : List Char} {e : Escape} (hl : isLineEnd l = false)
      (hread : Escape.read l (ds ++ after) = e) (hchars : e.chars = '\\' :: l :: ds)
      (hvalue : e.value? = some c) :
      ∃ u : QuoteUnit, QuoteForm.unit? ⟨.double, multiline⟩ ('\\' :: l :: ds ++ after) = some u ∧
        u.chars = '\\' :: l :: ds ∧ u.content = [c] ∧ u.isMalformed = false := by
    refine ⟨.escape e, ?_, hchars, ?_, ?_⟩
    · exact hread ▸ QuoteForm.unit?_backslash rfl hl (ds ++ after)
    · simp only [QuoteUnit.content, hvalue]
    · simp only [QuoteUnit.isMalformed, hvalue, Option.isNone_some]
  cases h with
  | verbatim hquote hbackslash hline =>
    exact ⟨.plain c, QuoteForm.unit?_plain (fun h => hline (isLineEnd_iff.1 h))
      (fun h => absurd h hbackslash) after, rfl, rfl, rfl⟩
  | letter hl =>
    have hall : ∀ p ∈ escapeLetters,
        isLineEnd p.1 = false ∧ Escape.letterValue? p.1 = some p.2 := by decide
    obtain ⟨hend, hvalue⟩ := hall _ hl
    exact hescape hend (Escape.read_of_mem_escapeLetters hl _) rfl hvalue
  | @byte digits hc hdigits =>
    have hrun := Escape.hexRun_append (hdigits.length_eq.trans (length_hexCode _ _))
      (isHexDigit_of_mem_hexCode hdigits) after
    exact hescape (e := .byte digits) (by decide) (congrArg Escape.byte hrun) rfl
      (Escape.hexValue?_of_hexCode hdigits (by omega))
  | @unicode digits hc hdigits =>
    have hrun := Escape.hexRun_append (hdigits.length_eq.trans (length_hexCode _ _))
      (isHexDigit_of_mem_hexCode hdigits) after
    exact hescape (e := .unicode digits) (by decide) (congrArg Escape.unicode hrun) rfl
      (Escape.hexValue?_of_hexCode hdigits (by omega))
  | decimal hc hnext =>
    obtain ⟨d, ds, hcode, hd, hread, hvalue⟩ := Escape.read_toDigits hc (hafter hnext)
    rw [hcode]
    refine hescape ?_ hread rfl hvalue
    rw [← Bool.not_eq_true, isLineEnd_iff]
    rintro (rfl | rfl) <;> simp [isDecimalDigit, isDigitBelow, digitValue?] at hd

/-- No spelling begins with a double quote. -/
theorem CharSpelling.exists_cons {multiline : Bool} {next : Option Char} {c : Char}
    {written : List Char} (h : CharSpelling multiline next c written) :
    ∃ d ds, written = d :: ds ∧ d ≠ '\x22' := by
  cases h with
  | verbatim hquote _ _ => exact ⟨c, [], rfl, hquote⟩
  | _ => exact ⟨'\\', _, rfl, by decide⟩

/-- **A spelling of a string is read back.**  Before a closing delimiter the units of
the content are those that spell the characters. -/
theorem Spells.exists_readUnits {multiline : Bool} {s content : List Char}
    (h : Spells multiline s content) (after : List Char) :
    ∃ units, QuoteForm.readUnits ⟨.double, multiline⟩
        (content ++ (QuoteForm.delimiter ⟨.double, multiline⟩ ++ after)) = (units, true) ∧
      units.flatMap QuoteUnit.chars = content ∧ units.flatMap QuoteUnit.content = s ∧
      ∀ u ∈ units, u.isMalformed = false := by
  induction h with
  | nil => exact ⟨[], QuoteForm.readUnits_of_closesAt (QuoteForm.closesAt_delimiter _ after),
      rfl, rfl, by simp⟩
  | @cons c s written content hc hs ih =>
    obtain ⟨units, hread, hchars, hcontent, hfine⟩ := ih
    -- what comes after the character is the next one or the delimiter, which is no digit
    have hafter : (∀ d ∈ content.head?, d.isDigit = false) → ∀ d ∈ (content ++
        (QuoteForm.delimiter ⟨.double, multiline⟩ ++ after)).head?, d.isDigit = false := by
      intro hnext d hd
      cases content with
      | nil =>
        rw [List.nil_append, QuoteForm.delimiter_eq_cons] at hd
        obtain rfl := Option.some.inj hd
        exact (by decide : Char.isDigit '\x22' = false)
      | cons x xs => exact hnext d hd
    obtain ⟨u, hunit, rfl, hone, hok⟩ := hc.exists_unit? hafter
    obtain ⟨d, ds, hwritten, hd⟩ := hc.exists_cons
    have hclose : QuoteForm.closesAt ⟨.double, multiline⟩ (u.chars ++ (content ++
        (QuoteForm.delimiter ⟨.double, multiline⟩ ++ after))) = false := by
      rw [hwritten]
      exact QuoteForm.closesAt_of_ne hd _
    refine ⟨u :: units, ?_, ?_, ?_, List.forall_mem_cons.2 ⟨hok, hfine⟩⟩
    · rw [List.append_assoc, QuoteForm.readUnits_of_unit? hclose hunit, List.drop_left, hread]
    · rw [List.flatMap_cons, hchars]
    · rw [List.flatMap_cons, hcontent, hone, List.singleton_append]

/-- **A raw string is read back** character by character, if the literal closes nowhere
before its end. -/
theorem QuoteForm.readUnits_raw {f : QuoteForm} (hraw : f.isRaw = true) {s after : List Char}
    (hline : ∀ c ∈ s, isLineEnd c = true → f.multiline = true)
    (hclose : ∀ c front back, s = front ++ c :: back →
      f.closesAt (c :: back ++ (f.delimiter ++ after)) = false) :
    f.readUnits (s ++ (f.delimiter ++ after)) = (s.map .plain, true) := by
  induction s with
  | nil => exact readUnits_of_closesAt (closesAt_delimiter f after)
  | cons c cs ih =>
    obtain ⟨hc, hcs⟩ := List.forall_mem_cons.1 hline
    have hunit : f.unit? (c :: cs ++ (f.delimiter ++ after)) = some (.plain c) :=
      unit?_plain hc (fun _ => hraw) _
    have htail := ih hcs fun d front back hsplit =>
      hclose d (c :: front) back (by rw [hsplit, List.cons_append])
    rw [readUnits_of_unit? (hclose c [] cs rfl) hunit]
    simp only [QuoteUnit.chars, List.length_singleton, List.cons_append, List.drop_succ_cons,
      List.drop_zero, htail, List.map_cons]

/-! ### What is scanned -/

/-- A literal of a form is read where its units are read after its delimiter, unless
more delimiters come to stand there. -/
theorem Quoted.read_of_readUnits {f : QuoteForm} {text : List Char} {units : List QuoteUnit}
    {closed : Bool} (hread : f.readUnits text = (units, closed))
    (hfirst : f.multiline = false → [f.quote.char, f.quote.char].isPrefixOf text = false) :
    read f.quote.char (f.delimiter.tail ++ text) = ⟨f, units, closed⟩ := by
  obtain ⟨quote, multiline⟩ := f
  have hquote : quoteOf quote.char = quote := by cases quote <;> rfl
  cases multiline with
  | false =>
    have htail : QuoteForm.delimiter ⟨quote, false⟩ = [quote.char] := rfl
    rw [htail, List.tail_cons, List.nil_append, read_of_singleLine (hfirst rfl), hquote, hread]
  | true =>
    have htail : QuoteForm.delimiter ⟨quote, true⟩ = [quote.char, quote.char, quote.char] := rfl
    have hpair : [quote.char, quote.char].isPrefixOf
        ([quote.char, quote.char] ++ text) = true :=
      List.isPrefixOf_iff_prefix.2 (List.prefix_append _ _)
    rw [htail, List.tail_cons, read_of_multiline hpair, hquote]
    exact congrArg (fun r : List QuoteUnit × Bool => Quoted.mk _ r.1 r.2) hread

/-- Units that are all well-formed leave no error. -/
theorem Lexeme.escapeErrors_eq_nil {units : List QuoteUnit}
    (h : ∀ u ∈ units, u.isMalformed = false) (r : Reader) : escapeErrors units r = [] := by
  refine List.eq_nil_iff_forall_not_mem.2 fun e he => ?_
  obtain ⟨before, u, after, rfl, hu, -⟩ := mem_escapeErrors_iff.1 he
  rw [h u (List.mem_append_right _ List.mem_cons_self)] at hu
  simp at hu

/-- The first token of the unit is a string literal with the given text and value, and
the request for it meets no error. -/
def Source.BeginsWithString (s : Source) (text value : List Char) (raw multiline : Bool) : Prop :=
  (Scan.ofSource s).next.1.payload = .string text value raw multiline ∧
    (Scan.ofSource s).next.2.errors = []

/-- Where a literal that is not multi-line has been read, no two further delimiters came
after the first one. -/
theorem QuoteForm.isPrefixOf_pair_of_readUnits {f : QuoteForm} (hm : f.multiline = false)
    {content after : List Char} {units : List QuoteUnit}
    (hread : f.readUnits (content ++ (f.delimiter ++ after)) = (units, true))
    (hchars : units.flatMap QuoteUnit.chars = content)
    (hempty : content = [] → after.head? ≠ some f.quote.char) :
    [f.quote.char, f.quote.char].isPrefixOf (content ++ (f.delimiter ++ after)) = false := by
  rw [← Bool.not_eq_true, List.isPrefixOf_iff_prefix]
  rintro ⟨rest, hrest⟩
  cases content with
  | nil =>
    have hdelim : f.delimiter = [f.quote.char] := by simp [delimiter, hm]
    rw [hdelim] at hrest
    have hafter : f.quote.char :: rest = after := (List.cons.inj hrest).2
    exact hempty rfl (hafter ▸ rfl)
  | cons c cs =>
    -- a delimiter at the head of the content would close the literal there
    obtain rfl : f.quote.char = c := (List.cons.inj hrest).1
    rw [List.cons_append, readUnits_of_closesAt (closesAt_quote hm _)] at hread
    obtain rfl := (Prod.mk.inj hread).1
    simp at hchars

/-- A literal of a form is the first lexeme where its delimiter and its units stand. -/
theorem Lexeme.read?_of_readUnits {f : QuoteForm} {text : List Char} {units : List QuoteUnit}
    {closed : Bool} (hread : f.readUnits text = (units, closed))
    (hfirst : f.multiline = false → [f.quote.char, f.quote.char].isPrefixOf text = false) :
    read? (f.delimiter ++ text) = some (.quoted ⟨f, units, closed⟩) := by
  have hquote : ∀ q : Quote, q.char ≠ '/' ∧
      Opening.ofChars (some q.char) none = .lexeme .string := by
    intro q
    cases q <;> decide
  have hopening : Opening.ofChars (some f.quote.char) (f.delimiter.tail ++ text).head? =
      .lexeme .string := by
    rw [Opening.ofChars_of_ne (hquote f.quote).1 _ none, (hquote f.quote).2]
  rw [f.delimiter_eq_cons, List.cons_append, read?_of_opening hopening, ofKind,
    Quoted.read_of_readUnits hread hfirst]

/-- A literal whose content is read as well-formed units up to a closing delimiter is
the first token of a unit that begins with it. -/
theorem Source.beginsWithString_of_readUnits (identifier : String) {f : QuoteForm}
    {content after : List Char} {units : List QuoteUnit}
    (hread : f.readUnits (content ++ (f.delimiter ++ after)) = (units, true))
    (hchars : units.flatMap QuoteUnit.chars = content)
    (hfine : ∀ u ∈ units, u.isMalformed = false)
    (hempty : f.multiline = false → content = [] → after.head? ≠ some f.quote.char) :
    BeginsWithString ⟨identifier, f.delimiter ++ (content ++ (f.delimiter ++ after))⟩
      (f.delimiter ++ (content ++ f.delimiter)) (units.flatMap QuoteUnit.content)
      f.isRaw f.multiline := by
  have hl := Lexeme.read?_of_readUnits hread fun hm =>
    QuoteForm.isPrefixOf_pair_of_readUnits hm hread hchars (hempty hm)
  have hseek := Reader.seek_of_token? (r := Reader.ofSource
    ⟨identifier, f.delimiter ++ (content ++ (f.delimiter ++ after))⟩) hl rfl
  have hnext := Scan.next_of_not_finished (s := Scan.ofSource
    ⟨identifier, f.delimiter ++ (content ++ (f.delimiter ++ after))⟩) rfl
  have htext : Quoted.chars ⟨f, units, true⟩ = f.delimiter ++ (content ++ f.delimiter) := by
    rw [Quoted.chars, QuoteForm.body, hchars, if_pos rfl]
  rw [BeginsWithString, hnext]
  simp only [Scan.record, Scan.ofSource, hseek, Lexeme.errors_quoted,
    Lexeme.escapeErrors_eq_nil hfine, htext, if_true]
  exact ⟨rfl, rfl⟩

/-- What is spelled between double quotes is read back. -/
theorem Source.beginsWithString_of_spells (identifier : String) (multiline : Bool)
    {s content after : List Char} (h : Spells multiline s content)
    (hempty : multiline = false → s = [] → after.head? ≠ some '\x22') :
    BeginsWithString ⟨identifier, QuoteForm.delimiter ⟨.double, multiline⟩ ++
        (content ++ (QuoteForm.delimiter ⟨.double, multiline⟩ ++ after))⟩
      (QuoteForm.delimiter ⟨.double, multiline⟩ ++
        (content ++ QuoteForm.delimiter ⟨.double, multiline⟩)) s false multiline := by
  obtain ⟨units, hread, hchars, rfl, hfine⟩ := h.exists_readUnits after
  refine beginsWithString_of_readUnits identifier hread hchars hfine fun hm hnil => hempty hm ?_
  cases units with
  | nil => rfl
  | cons u units => simp [← hchars, u.chars_ne_nil] at hnil

/-- What stands between backticks is read back, if the literal closes nowhere before its
end. -/
theorem Source.beginsWithString_of_raw (identifier : String) (multiline : Bool)
    {s after : List Char} (hline : ∀ c ∈ s, isLineEnd c = true → multiline = true)
    (hclose : ∀ c front back, s = front ++ c :: back →
      QuoteForm.closesAt ⟨.backtick, multiline⟩
        (c :: back ++ (QuoteForm.delimiter ⟨.backtick, multiline⟩ ++ after)) = false)
    (hempty : multiline = false → s = [] → after.head? ≠ some '\x60') :
    BeginsWithString ⟨identifier, QuoteForm.delimiter ⟨.backtick, multiline⟩ ++
        (s ++ (QuoteForm.delimiter ⟨.backtick, multiline⟩ ++ after))⟩
      (QuoteForm.delimiter ⟨.backtick, multiline⟩ ++
        (s ++ QuoteForm.delimiter ⟨.backtick, multiline⟩)) s true multiline := by
  have hread := QuoteForm.readUnits_raw (f := ⟨.backtick, multiline⟩) rfl hline hclose
  have hchars : (s.map QuoteUnit.plain).flatMap QuoteUnit.chars = s := by
    simp [List.flatMap_map, QuoteUnit.chars]
  have hcontent : (s.map QuoteUnit.plain).flatMap QuoteUnit.content = s := by
    simp [List.flatMap_map, QuoteUnit.content]
  have hbegins := beginsWithString_of_readUnits identifier hread hchars
    (by simp [QuoteUnit.isMalformed]) hempty
  rwa [hcontent] at hbegins

/-- A literal does not close among the characters of a string that neither holds three
delimiters nor ends with one. -/
theorem QuoteForm.closesAt_of_not_isInfix {f : QuoteForm} (hm : f.multiline = true) {s : List Char}
    (hthree : ¬ List.replicate 3 f.quote.char <:+: s) (hlast : s.getLast? ≠ some f.quote.char)
    {c : Char} {front back : List Char} (hs : s = front ++ c :: back) (after : List Char) :
    f.closesAt (c :: back ++ (f.delimiter ++ after)) = false := by
  have hdelim : f.delimiter = [f.quote.char, f.quote.char, f.quote.char] := by
    simp [delimiter, hm, List.replicate_succ]
  rw [← Bool.not_eq_true, closesAt, List.isPrefixOf_iff_prefix, hdelim]
  rintro ⟨rest, hrest⟩
  subst hs
  obtain ⟨hc, htail⟩ := List.cons.inj hrest
  cases back with
  | nil => exact hlast (by simp [hc])
  | cons d ds =>
    obtain ⟨hd, htail⟩ := List.cons.inj htail
    cases ds with
    | nil => exact hlast (by simp [hd])
    | cons e ds =>
      have he : f.quote.char = e := (List.cons.inj htail).1
      refine hthree ⟨front, ds, ?_⟩
      rw [← hc, ← hd, ← he, List.append_assoc]
      rfl

/-- **A string that is spelled as a literal is read back,** whatever comes after the
literal.  The first token is the literal as it is written, its value is the string,
and no error is met, if

* the string is spelled between double quotes, with a character that is no double
  quote after the literal if the string is empty;
* the string is spelled between three double quotes on either side;
* the string stands between backticks and holds neither a backtick nor a line end,
  with a character that is no backtick after the literal if it is empty;
* the string stands between three backticks on either side, does not hold three
  backticks in a row, and does not end with one. -/
theorem scan_spelled_string (identifier : String) (after : List Char) :
    (∀ s content, Spells false s content → (s = [] → after.head? ≠ some '\x22') →
      Source.BeginsWithString ⟨identifier, ['\x22'] ++ (content ++ (['\x22'] ++ after))⟩
        (['\x22'] ++ (content ++ ['\x22'])) s false false) ∧
      (∀ s content, Spells true s content →
        Source.BeginsWithString ⟨identifier, List.replicate 3 '\x22' ++
            (content ++ (List.replicate 3 '\x22' ++ after))⟩
          (List.replicate 3 '\x22' ++ (content ++ List.replicate 3 '\x22')) s false true) ∧
      (∀ s, '\x60' ∉ s → '\n' ∉ s → '\r' ∉ s → (s = [] → after.head? ≠ some '\x60') →
        Source.BeginsWithString ⟨identifier, ['\x60'] ++ (s ++ (['\x60'] ++ after))⟩
          (['\x60'] ++ (s ++ ['\x60'])) s true false) ∧
      ∀ s, ¬ List.replicate 3 '\x60' <:+: s → s.getLast? ≠ some '\x60' →
        Source.BeginsWithString ⟨identifier, List.replicate 3 '\x60' ++
            (s ++ (List.replicate 3 '\x60' ++ after))⟩
          (List.replicate 3 '\x60' ++ (s ++ List.replicate 3 '\x60')) s true true := by
  refine ⟨fun s content h hempty =>
      Source.beginsWithString_of_spells identifier false h fun _ => hempty,
    fun s content h => Source.beginsWithString_of_spells identifier true h (by simp),
    fun s hquote hlf hcr hempty => ?_, fun s hthree hlast => ?_⟩
  · refine Source.beginsWithString_of_raw identifier false
      (fun c hc hend => ?_) (fun c front back hs => ?_) fun _ => hempty
    · rcases isLineEnd_iff.1 hend with rfl | rfl
      · exact absurd hc hlf
      · exact absurd hc hcr
    · refine QuoteForm.closesAt_of_ne (fun hc => hquote ?_) _
      rw [hs, hc]
      exact List.mem_append_right _ List.mem_cons_self
  · refine Source.beginsWithString_of_raw identifier true (by simp)
      (fun c front back hs => ?_) (by simp)
    exact QuoteForm.closesAt_of_not_isInfix (f := ⟨.backtick, true⟩) rfl hthree hlast hs after

end Lexis
