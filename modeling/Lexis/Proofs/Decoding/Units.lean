/-
# What the content of a string literal means

What a literal means can be said without a reader.  Its content is a row of units: plain
characters, escapes with what they denote, and joined lines (`WrittenUnit.StandsAt`).  The
row goes on as long as neither the closing delimiter stands at the next unit nor a place
that a literal cannot go beyond (`Decodes`).

Reading a literal unit by unit finds this row (`decodes_iff`), since each unit is the one
that is read where it stands (`QuoteForm.standsAt_of_unit?`,
`WrittenUnit.StandsAt.exists_unit?`).  So a text begins with one row of units at most
(`Decodes.unique`).
-/

import Lexis.Proofs.Lines
import Lexis.Proofs.Spelling

namespace Lexis

/-! ### Escapes -/

/-- **What stands after a backslash** before the text `after`, and the character that it
denotes, if it denotes one. -/
inductive Escaped : List Char → List Char → Option Char → Prop
  /-- A letter that stands for a character. -/
  | letter {l c after} (h : (l, c) ∈ escapeLetters) : Escaped [l] after (some c)
  /-- A letter and at most `count` hexadecimal digits, as many as there are; they denote the
  character of their number if none is missing. -/
  | code {mark count digits after value} (hmark : (mark, count) = ('x', 2) ∨ (mark, count) = ('u', 4))
      (hdigits : ∀ d ∈ digits, isHexDigit d = true) (hcount : digits.length ≤ count)
      (hmost : digits.length < count → ∀ d ∈ after.head?, isHexDigit d = false)
      (hvalue : ∀ c, value = some c ↔ digits.length = count ∧ c.toNat = numberOf 16 digits) :
    Escaped (mark :: digits) after value
  /-- Decimal digits, as many as there are; they denote the character of their number if that
  is from 1 to 127, and a lone zero denotes the null character. -/
  | decimal {digits after value} (hne : digits ≠ [])
      (hdigits : ∀ d ∈ digits, isDecimalDigit d = true)
      (hmost : ∀ d ∈ after.head?, isDecimalDigit d = false)
      (hvalue : ∀ c, value = some c ↔ c.toNat = numberOf 10 digits ∧
        (digits = ['0'] ∨ 1 ≤ c.toNat ∧ c.toNat ≤ 127)) :
    Escaped digits after value
  /-- Another character, which has no meaning there. -/
  | other {l after} (hline : isLineEnd l = false) (hdigit : isDecimalDigit l = false)
      (hmark : l ≠ 'x' ∧ l ≠ 'u') (hletter : ∀ c, (l, c) ∉ escapeLetters) : Escaped [l] after none

namespace Escape

theorem codePoint?_eq_some_iff {n : Nat} {c : Char} : codePoint? n = some c ↔ c.toNat = n := by
  constructor
  · intro h
    unfold codePoint? at h
    split at h
    · rename_i hn
      rw [← Option.some.inj h, Char.ofNat, dif_pos hn]
      rfl
    · simp at h
  · rintro rfl
    exact codePoint?_toNat c

theorem letterValue?_eq_some_iff {l c : Char} :
    letterValue? l = some c ↔ (l, c) ∈ escapeLetters := by
  have hall : ∀ p ∈ escapeLetters, letterValue? p.1 = some p.2 := by decide
  refine ⟨fun h => ?_, hall (l, c)⟩
  by_cases hl : l ∈ escapeLetters.map Prod.fst
  · obtain ⟨⟨l, d⟩, hmem, rfl⟩ := List.mem_map.1 hl
    obtain rfl : c = d := Option.some.inj (h.symm.trans (hall _ hmem))
    exact hmem
  · simp only [escapeLetters, List.map_cons, List.map_nil, List.mem_cons, List.not_mem_nil,
      or_false, not_or] at hl
    simp [letterValue?, hl] at h

theorem hexValue?_eq_some_iff {count : Nat} {digits : List Char} {c : Char} :
    hexValue? count digits = some c ↔ digits.length = count ∧ c.toNat = numberOf 16 digits := by
  unfold hexValue?
  split
  · rename_i h
    simp [h, codePoint?_eq_some_iff]
  · rename_i h
    simp [h]

theorem decimalValue?_eq_some_iff {digits : List Char} {c : Char} :
    decimalValue? digits = some c ↔ c.toNat = numberOf 10 digits ∧
      (digits = ['0'] ∨ 1 ≤ c.toNat ∧ c.toNat ≤ 127) := by
  unfold decimalValue?
  split
  · rename_i hzero
    have hnumber : numberOf 10 digits = '\x00'.toNat := by rw [hzero]; rfl
    rw [hnumber, Char.toNat_inj, Option.some_inj, and_iff_left (Or.inl hzero), eq_comm]
  · rename_i hzero
    have hcode := codePoint?_eq_some_iff (n := numberOf 10 digits) (c := c)
    simp only [hzero, false_or]
    split
    · rename_i hrange
      rw [hcode]
      exact ⟨fun h => ⟨h, h ▸ hrange⟩, And.left⟩
    · rename_i hrange
      refine iff_of_false (by simp) ?_
      rintro ⟨h, hc⟩
      exact hrange (h ▸ hc)

end Escape

/-- The run of at most `k` characters of a class at the head of a text. -/
theorem takeWhile_take_eq_iff {p : Char → Bool} {k : Nat} {run after : List Char} :
    ((run ++ after).take k).takeWhile p = run ↔ (∀ c ∈ run, p c = true) ∧ run.length ≤ k ∧
      (run.length < k → ∀ c ∈ after.head?, p c = false) := by
  induction run generalizing k with
  | nil =>
    cases k with
    | zero => simp
    | succ k => cases after <;> simp
  | cons d ds ih =>
    cases k with
    | zero => simp
    | succ k =>
      by_cases hd : p d = true
      · simp [hd, ih]
      · simp [hd]

/-- The run of a class at the head of a text. -/
theorem takeWhile_eq_iff {p : Char → Bool} {run after : List Char} :
    (run ++ after).takeWhile p = run ↔
      (∀ c ∈ run, p c = true) ∧ ∀ c ∈ after.head?, p c = false := by
  have h := @takeWhile_take_eq_iff p ((run ++ after).length + 1) run after
  have hle : run.length < (run ++ after).length + 1 := by
    rw [List.length_append]
    omega
  rw [List.take_of_length_le (Nat.le_succ _)] at h
  exact h.trans (and_congr_right fun _ =>
    ⟨fun hmost => hmost.2 hle, fun hafter => ⟨Nat.le_of_lt hle, fun _ => hafter⟩⟩)

namespace Escape

/-- A hexadecimal code has as many digits as there are, and the character of its number. -/
theorem escaped_code {mark : Char} {count : Nat}
    (hmark : (mark, count) = ('x', 2) ∨ (mark, count) = ('u', 4)) {text after : List Char}
    (htext : text = hexRun count text ++ after) :
    Escaped (mark :: hexRun count text) after (hexValue? count (hexRun count text)) := by
  have hrun : ((hexRun count text ++ after).take count).takeWhile isHexDigit =
      hexRun count text := by rw [← htext]; rfl
  obtain ⟨hdigits, hcount, hmost⟩ := takeWhile_take_eq_iff.1 hrun
  exact .code hmark hdigits hcount hmost fun _ => hexValue?_eq_some_iff

/-- **What is read after a backslash** is escaped by it, with the value that it denotes. -/
theorem escaped_read {c : Char} (hc : isLineEnd c = false) {text body after : List Char}
    (hbody : (read c text).chars = '\\' :: body) (htext : c :: text = body ++ after) :
    Escaped body after (read c text).value? := by
  unfold read at hbody ⊢
  split at hbody
  · rename_i hdigit
    rw [if_pos hdigit]
    obtain rfl : c :: text.takeWhile isDecimalDigit = body := (List.cons.inj hbody).2
    have hrun : (c :: text.takeWhile isDecimalDigit ++ after).takeWhile isDecimalDigit =
        c :: text.takeWhile isDecimalDigit := by
      rw [← htext, List.takeWhile_cons_of_pos hdigit]
    obtain ⟨hdigits, hmost⟩ := takeWhile_eq_iff.1 hrun
    exact .decimal (List.cons_ne_nil _ _) hdigits hmost fun _ => decimalValue?_eq_some_iff
  rename_i hdigit
  rw [if_neg hdigit]
  split at hbody
  · rename_i hx
    rw [if_pos hx]
    obtain rfl : 'x' :: hexRun 2 text = body := (List.cons.inj hbody).2
    exact escaped_code (Or.inl rfl) (List.cons.inj htext).2
  rename_i hx
  rw [if_neg hx]
  split at hbody
  · rename_i hu
    rw [if_pos hu]
    obtain rfl : 'u' :: hexRun 4 text = body := (List.cons.inj hbody).2
    exact escaped_code (Or.inr rfl) (List.cons.inj htext).2
  · rename_i hu
    rw [if_neg hu]
    obtain rfl : [c] = body := (List.cons.inj hbody).2
    show Escaped [c] after (letterValue? c)
    cases hvalue : letterValue? c with
    | some d => exact .letter (letterValue?_eq_some_iff.1 hvalue)
    | none =>
      refine .other hc (by simpa using hdigit) ⟨hx, hu⟩ fun d hd => ?_
      rw [letterValue?_eq_some_iff.2 hd] at hvalue
      simp at hvalue

theorem read_of_isDecimalDigit {c : Char} (h : isDecimalDigit c = true) (text : List Char) :
    read c text = .decimal (c :: text.takeWhile isDecimalDigit) := by
  rw [read, if_pos h]

theorem read_of_other {c : Char} (hdigit : isDecimalDigit c = false) (hx : c ≠ 'x') (hu : c ≠ 'u')
    (text : List Char) : read c text = .letter c := by
  rw [read, hdigit, if_neg (by simp), if_neg hx, if_neg hu]

end Escape

/-- **What is escaped by a backslash** is what is read after it. -/
theorem Escaped.read {body after : List Char} {value : Option Char} (h : Escaped body after value) :
    ∃ c cs, body = c :: cs ∧ isLineEnd c = false ∧
      (Escape.read c (cs ++ after)).chars = '\\' :: body ∧
      (Escape.read c (cs ++ after)).value? = value := by
  cases h with
  | @letter l d _ hl =>
    have hline : ∀ p ∈ escapeLetters, isLineEnd p.1 = false := by decide
    have hread := Escape.read_of_mem_escapeLetters hl after
    refine ⟨l, [], rfl, hline _ hl, ?_, ?_⟩
    · rw [List.nil_append, hread]
      rfl
    · rw [List.nil_append, hread]
      exact Escape.letterValue?_eq_some_iff.2 hl
  | @code mark count digits _ _ hmark hdigits hcount hmost hvalue =>
    have hrun : Escape.hexRun count (digits ++ after) = digits :=
      takeWhile_take_eq_iff.2 ⟨hdigits, hcount, hmost⟩
    have hvalue' : Escape.hexValue? count digits = value :=
      Option.ext fun c => Escape.hexValue?_eq_some_iff.trans (hvalue c).symm
    rcases hmark with hmark | hmark
    · obtain ⟨rfl, rfl⟩ := Prod.mk.inj hmark
      have hread : Escape.read 'x' (digits ++ after) = .byte digits := congrArg Escape.byte hrun
      exact ⟨'x', digits, rfl, by decide, by rw [hread]; rfl, by rw [hread]; exact hvalue'⟩
    · obtain ⟨rfl, rfl⟩ := Prod.mk.inj hmark
      have hread : Escape.read 'u' (digits ++ after) = .unicode digits :=
        congrArg Escape.unicode hrun
      exact ⟨'u', digits, rfl, by decide, by rw [hread]; rfl, by rw [hread]; exact hvalue'⟩
  | decimal hne hdigits hmost hvalue =>
    obtain ⟨c, cs, rfl⟩ := List.exists_cons_of_ne_nil hne
    obtain ⟨hc, hcs⟩ := List.forall_mem_cons.1 hdigits
    have hline : isLineEnd c = false := by
      rw [← Bool.not_eq_true, isLineEnd_iff]
      rintro (rfl | rfl) <;> exact absurd hc (by decide)
    have hread := Escape.read_of_isDecimalDigit hc (cs ++ after)
    rw [takeWhile_eq_iff.2 ⟨hcs, hmost⟩] at hread
    refine ⟨c, cs, rfl, hline, by rw [hread]; rfl, ?_⟩
    rw [hread]
    exact Option.ext fun d => Escape.decimalValue?_eq_some_iff.trans (hvalue d).symm
  | @other l _ hline hdigit hmark hletter =>
    have hread := Escape.read_of_other hdigit hmark.1 hmark.2 after
    refine ⟨l, [], rfl, hline, by rw [List.nil_append, hread]; rfl, ?_⟩
    rw [List.nil_append, hread]
    exact Option.eq_none_iff_forall_ne_some.2 fun d hd =>
      hletter d (Escape.letterValue?_eq_some_iff.1 hd)

/-! ### Units -/

/-- A part of the content of a literal as it is written, what it adds to the value, and
whether it is an escape that denotes nothing. -/
structure WrittenUnit where
  /-- The part as it is written. -/
  written : List Char
  /-- What it adds to the value. -/
  content : List Char
  /-- Whether it is an escape that denotes nothing. -/
  malformed : Bool
deriving DecidableEq, Repr

/-- A literal of the form cannot go beyond the place before `after`: the text has ended, or a
line ends there and the literal has only one. -/
def QuoteForm.StopsAt (f : QuoteForm) (after : List Char) : Prop :=
  AtLineEnd after ∧ (after ≠ [] → f.multiline = false)

/-- **The units of a literal** of the form, each with the text `after` that it stands
before. -/
inductive WrittenUnit.StandsAt (f : QuoteForm) (after : List Char) : WrittenUnit → Prop
  /-- A character that stands for itself. -/
  | plain {c} (hline : isLineEnd c = true → f.multiline = true)
      (hbackslash : c = '\\' → f.isRaw = true) : StandsAt f after ⟨[c], [c], false⟩
  /-- An escape that denotes a character. -/
  | escape {body c} (hraw : f.isRaw = false) (h : Escaped body after (some c)) :
    StandsAt f after ⟨'\\' :: body, [c], false⟩
  /-- An escape that denotes nothing and stands for itself. -/
  | malformed {body} (hraw : f.isRaw = false) (h : Escaped body after none) :
    StandsAt f after ⟨'\\' :: body, '\\' :: body, true⟩
  /-- A backslash and a line end, which join two lines. -/
  | continuation {close} (hraw : f.isRaw = false) (hmultiline : f.multiline = true)
      (hne : close ≠ []) (h : Line.Closes close after) : StandsAt f after ⟨'\\' :: close, [], false⟩
  /-- A backslash that has nothing to escape and stands for itself. -/
  | dangling (hraw : f.isRaw = false) (h : f.StopsAt after) :
    StandsAt f after ⟨['\\'], ['\\'], false⟩

/-- **A row of units** that begins a text, whether it is closed by the delimiter of the
literal or left open, and the text after the literal. -/
inductive Decodes (f : QuoteForm) : List Char → List WrittenUnit → Bool → List Char → Prop
  /-- The delimiter closes the literal where it stands. -/
  | closed {after} : Decodes f (f.delimiter ++ after) [] true after
  /-- The literal is left open where it cannot go on. -/
  | stopped {after} (hstops : f.StopsAt after) : Decodes f after [] false after
  /-- A unit stands where the delimiter does not. -/
  | unit {u units rest closed after} (hdelimiter : ¬ f.delimiter <+: u.written ++ rest)
      (hunit : u.StandsAt f rest) (h : Decodes f rest units closed after) :
    Decodes f (u.written ++ rest) (u :: units) closed after

namespace QuoteUnit

/-- The unit as it is written, with what it means. -/
def spelled (u : QuoteUnit) : WrittenUnit := ⟨u.chars, u.content, u.isMalformed⟩

/-- A backslash takes the line end after it. -/
theorem standsAt_continuation {f : QuoteForm} (hraw : f.isRaw = false) (hm : f.multiline = true)
    {c : Char} (hc : isLineEnd c = true) {cs after : List Char}
    (htext : c :: cs = (if c = '\r' ∧ cs.head? = some '\n' then [c, '\n'] else [c]) ++ after) :
    (continuation (if c = '\r' ∧ cs.head? = some '\n' then [c, '\n'] else [c])).spelled.StandsAt
      f after := by
  split at htext
  · rename_i hpair
    rw [if_pos hpair]
    obtain ⟨rfl, -⟩ := hpair
    exact .continuation hraw hm (by simp) .pair
  · rename_i hpair
    rw [if_neg hpair]
    obtain rfl : cs = after := (List.cons.inj htext).2
    rcases isLineEnd_iff.1 hc with rfl | rfl
    · exact .continuation hraw hm (by simp) .lineFeed
    · exact .continuation hraw hm (by simp) (.carriageReturn fun h => hpair ⟨rfl, h⟩)

/-- The unit that a backslash begins stands where it is read. -/
theorem standsAt_readEscaped {f : QuoteForm} (hraw : f.isRaw = false) {text after : List Char}
    (htext : '\\' :: text = (readEscaped f.multiline text).chars ++ after) :
    (readEscaped f.multiline text).spelled.StandsAt f after := by
  cases text with
  | nil =>
    obtain rfl : [] = after := (List.cons.inj htext).2
    exact .dangling hraw ⟨atLineEnd_nil, fun h => absurd rfl h⟩
  | cons c cs =>
    rw [readEscaped] at htext ⊢
    split at htext
    · rename_i hc
      rw [if_pos hc]
      split at htext
      · rename_i hm
        rw [if_pos hm]
        exact standsAt_continuation hraw hm hc (List.cons.inj htext).2
      · rename_i hm
        rw [if_neg hm]
        obtain rfl : c :: cs = after := (List.cons.inj htext).2
        exact .dangling hraw ⟨atLineEnd_cons.2 (isLineEnd_iff.1 hc), fun _ => by simpa using hm⟩
    · rename_i hc
      rw [if_neg hc]
      obtain ⟨run, hrun⟩ := Escape.exists_chars_read c cs
      have hchars : '\\' :: c :: cs = '\\' :: c :: run ++ after := by rw [← hrun]; exact htext
      have hescaped := Escape.escaped_read (by simpa using hc) hrun (List.cons.inj hchars).2
      simp only [spelled, chars, content, isMalformed, hrun]
      cases hvalue : (Escape.read c cs).value? with
      | some d => exact .escape hraw (hvalue ▸ hescaped)
      | none => exact .malformed hraw (hvalue ▸ hescaped)

end QuoteUnit

namespace QuoteForm

/-- Unless the literal is raw, a backslash begins a unit of its own. -/
theorem unit?_escaped {f : QuoteForm} (hraw : f.isRaw = false) (text : List Char) :
    f.unit? ('\\' :: text) = some (QuoteUnit.readEscaped f.multiline text) := by
  have hend : ¬ (isLineEnd '\\' = true ∧ f.multiline = false) := by simp [isLineEnd]
  rw [unit?, if_neg hend, if_pos ⟨rfl, hraw⟩]

/-- **A unit that is read** stands where it is read. -/
theorem standsAt_of_unit? {f : QuoteForm} {text after : List Char} {u : QuoteUnit}
    (h : f.unit? text = some u) (htext : text = u.chars ++ after) :
    u.spelled.StandsAt f after := by
  cases text with
  | nil => simp [unit?] at h
  | cons c cs =>
    simp only [unit?] at h
    split at h
    · simp at h
    rename_i hline
    split at h
    · rename_i hback
      obtain ⟨rfl, hraw⟩ := hback
      obtain rfl := Option.some.inj h
      exact QuoteUnit.standsAt_readEscaped hraw htext
    · rename_i hback
      obtain rfl := Option.some.inj h
      refine .plain (fun hend => ?_) fun hc => ?_
      · simpa [hend] using hline
      · simpa [hc] using hback

end QuoteForm

/-- **A unit that stands somewhere** is read there. -/
theorem WrittenUnit.StandsAt.exists_unit? {f : QuoteForm} {u : WrittenUnit} {after : List Char}
    (h : u.StandsAt f after) :
    ∃ q, f.unit? (u.written ++ after) = some q ∧ q.spelled = u := by
  cases h with
  | plain hline hbackslash => exact ⟨_, QuoteForm.unit?_plain hline hbackslash after, rfl⟩
  | escape hraw h =>
    obtain ⟨c, cs, rfl, hc, hchars, hvalue⟩ := h.read
    refine ⟨_, QuoteForm.unit?_backslash hraw hc (cs ++ after), ?_⟩
    simp only [QuoteUnit.spelled, QuoteUnit.chars, QuoteUnit.content, QuoteUnit.isMalformed,
      hchars, hvalue, Option.isNone_some]
  | malformed hraw h =>
    obtain ⟨c, cs, rfl, hc, hchars, hvalue⟩ := h.read
    refine ⟨_, QuoteForm.unit?_backslash hraw hc (cs ++ after), ?_⟩
    simp only [QuoteUnit.spelled, QuoteUnit.chars, QuoteUnit.content, QuoteUnit.isMalformed,
      hchars, hvalue, Option.isNone_none]
  | continuation hraw hmultiline hne h =>
    refine ⟨_, QuoteForm.unit?_escaped hraw _, ?_⟩
    rw [hmultiline]
    cases h with
    | lineFeed => rfl
    | pair => rfl
    | carriageReturn h => simp [QuoteUnit.readEscaped, isLineEnd, h, QuoteUnit.spelled,
        QuoteUnit.chars, QuoteUnit.content, QuoteUnit.isMalformed]
    | endOfText => exact absurd rfl hne
  | dangling hraw h =>
    refine ⟨_, QuoteForm.unit?_escaped hraw _, ?_⟩
    show (QuoteUnit.readEscaped f.multiline after).spelled = _
    rw [QuoteUnit.readEscaped_of_atLineEnd h.1 h.2]
    rfl

/-! ### Rows of units -/

section Rows

variable {f : QuoteForm} {text after : List Char} {units : List WrittenUnit} {closed : Bool}

theorem QuoteUnit.flatMap_content (us : List QuoteUnit) :
    (us.map spelled).flatMap WrittenUnit.content = us.flatMap content := by
  rw [List.flatMap_map]
  rfl

theorem QuoteForm.closesAt_eq_false_iff : f.closesAt text = false ↔ ¬ f.delimiter <+: text := by
  rw [← Bool.not_eq_true, closesAt, List.isPrefixOf_iff_prefix]

/-- **The units that are read** are a row that begins the text. -/
theorem decodes_readUnits (htext : text = f.body (f.readUnits text).1 (f.readUnits text).2 ++ after) :
    Decodes f text ((f.readUnits text).1.map QuoteUnit.spelled) (f.readUnits text).2 after := by
  fun_induction QuoteForm.readUnits f text with
  | case1 text hcloses =>
    rw [htext]
    exact .closed
  | case2 text hcloses hunit =>
    obtain rfl : text = after := htext
    exact .stopped (QuoteForm.unit?_eq_none_iff.1 hunit)
  | case3 text hcloses u hunit us closed hread ih =>
    rw [hread] at ih
    rw [QuoteForm.body_cons, List.append_assoc] at htext
    have hrest : text.drop u.chars.length = f.body us closed ++ after := by
      rw [htext, List.drop_left]
    have hrow := ih hrest
    rw [hrest] at hrow
    have hdelimiter : ¬ f.delimiter <+: u.chars ++ (f.body us closed ++ after) := by
      rw [← htext, ← QuoteForm.closesAt_eq_false_iff]
      simpa using hcloses
    rw [htext]
    exact .unit (u := u.spelled) hdelimiter (QuoteForm.standsAt_of_unit? hunit htext) hrow

/-- **A row of units that begins a text** is the one that is read. -/
theorem Decodes.exists_readUnits (h : Decodes f text units closed after) :
    ∃ us, f.readUnits text = (us, closed) ∧ us.map QuoteUnit.spelled = units ∧
      text = f.body us closed ++ after := by
  induction h with
  | closed =>
    exact ⟨[], QuoteForm.readUnits_of_closesAt (f.closesAt_delimiter _), rfl, rfl⟩
  | stopped hstops =>
    refine ⟨[], QuoteForm.readUnits_of_unit?_eq_none (QuoteForm.closesAt_of_atLineEnd hstops.1)
      (QuoteForm.unit?_eq_none_iff.2 hstops), rfl, rfl⟩
  | @unit u units rest closed after hdelimiter hunit h ih =>
    obtain ⟨us, hread, hus, hrest⟩ := ih
    obtain ⟨q, hq, rfl⟩ := hunit.exists_unit?
    have hdrop : (q.spelled.written ++ rest).drop q.chars.length = rest := List.drop_left
    refine ⟨q :: us, ?_, by rw [List.map_cons, hus], ?_⟩
    · rw [QuoteForm.readUnits_of_unit? (QuoteForm.closesAt_eq_false_iff.2 hdelimiter) hq, hdrop,
        hread]
    · rw [QuoteForm.body_cons, List.append_assoc, ← hrest]
      rfl

/-- **Reading a literal and decoding it** are the same. -/
theorem decodes_iff : Decodes f text units closed after ↔
    ∃ us, f.readUnits text = (us, closed) ∧ us.map QuoteUnit.spelled = units ∧
      text = f.body us closed ++ after := by
  refine ⟨Decodes.exists_readUnits, ?_⟩
  rintro ⟨us, hread, rfl, htext⟩
  have hread' : text = f.body (f.readUnits text).1 (f.readUnits text).2 ++ after := by
    rw [hread]
    exact htext
  have hrow := decodes_readUnits hread'
  rwa [hread] at hrow

/-- A text begins with one row of units at most. -/
theorem Decodes.unique {units' : List WrittenUnit} {closed' : Bool} {after' : List Char}
    (h : Decodes f text units closed after) (h' : Decodes f text units' closed' after') :
    units' = units ∧ closed' = closed ∧ after' = after := by
  obtain ⟨us, hread, rfl, htext⟩ := decodes_iff.1 h
  obtain ⟨us', hread', rfl, htext'⟩ := decodes_iff.1 h'
  obtain ⟨rfl, rfl⟩ := Prod.mk.inj (hread.symm.trans hread')
  exact ⟨rfl, rfl, List.append_cancel_left (htext'.symm.trans htext)⟩

end Rows

end Lexis
