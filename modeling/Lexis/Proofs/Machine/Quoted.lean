/-
# String literals read by a machine

A machine reads the literal that is read from the text at its place
(`Machine.run_readQuoted`).  One turn of its loop passes one unit of the content, adds
what the unit denotes to the value and records the error of a malformed escape
(`Machine.run_readUnit_of_unit?`), so that by induction on the units the loop leaves their
content, their errors and the place behind them (`Machine.run_loop_readUnit`).

The digits of a code are parsed as a whole.  The parse fails only out of range, and what is
out of range there has no character either.
-/

import Lexis.Machine.Quoted
import Lexis.Proofs.Decoding.Units
import Lexis.Proofs.Machine.Cursor
import Lexis.Proofs.Numerals.Values

namespace Lexis

/-! ### Codes -/

/-- A code below 128 has a character. -/
theorem Escape.codePoint?_of_le {n : Nat} (h : n ≤ 127) :
    codePoint? n = some (Char.ofNat n) :=
  if_pos (Or.inl (by omega))

/-- A number that does not fit into 32 bits is no code point. -/
theorem Escape.codePoint?_of_not_le {n : Nat} (h : ¬ n ≤ UInt32.size - 1) :
    codePoint? n = none := by
  have hsize : UInt32.size = 4294967296 := rfl
  refine if_neg fun hvalid => ?_
  rcases hvalid with hlt | ⟨-, hlt⟩ <;> omega

/-! ### Forms -/

/-- Two delimiters come first where each of the next two characters is one. -/
theorem isPrefixOf_pair (q : Char) (cs : List Char) :
    [q, q].isPrefixOf cs = (cs[0]? == some q && cs[1]? == some q) := by
  match cs with
  | [] => simp
  | [_] => simp [List.isPrefixOf]
  | _ :: _ :: _ => simp [List.isPrefixOf, Bool.beq_comm]

/-- Three delimiters come first where each of the next three characters is one. -/
theorem isPrefixOf_triple (q c : Char) (cs : List Char) :
    [q, q, q].isPrefixOf (c :: cs) =
      (some c == some q && cs[0]? == some q && cs[1]? == some q) := by
  rw [Bool.and_assoc, ← isPrefixOf_pair]
  simp [List.isPrefixOf, Bool.beq_comm]

/-- A literal closes only at a delimiter. -/
theorem QuoteForm.exists_cons_of_closesAt {f : QuoteForm} {text : List Char}
    (h : f.closesAt text = true) : ∃ cs, text = f.quote.char :: cs := by
  rw [closesAt, List.isPrefixOf_iff_prefix, delimiter_eq_cons] at h
  obtain ⟨after, rfl⟩ := h
  exact ⟨f.delimiter.tail ++ after, rfl⟩

/-- The form of a literal is read first and then its content. -/
theorem Quoted.read_eq {c : Char} {cs : List Char} {f : QuoteForm}
    (hf : f = ⟨quoteOf c, [c, c].isPrefixOf cs⟩) {units : List QuoteUnit} {closed : Bool}
    (hread : f.readUnits (cs.drop (if f.multiline then 2 else 0)) = (units, closed)) :
    read c cs = ⟨f, units, closed⟩ := by
  subst hf
  cases hm : [c, c].isPrefixOf cs with
  | true =>
    rw [hm, if_pos rfl] at hread
    rw [read_of_multiline hm, hread]
  | false =>
    rw [hm, if_neg Bool.false_ne_true, List.drop_zero] at hread
    rw [read_of_singleLine hm, hread]

namespace Machine

/-- **A decimal code** denotes what its digits do, whether they fit into a byte or not. -/
theorem decimalCode?_eq {digits : List Char} (h : ∀ c ∈ digits, isDecimalDigit c = true)
    (hne : digits ≠ []) : decimalCode? digits = Escape.decimalValue? digits := by
  have hparse : Radix.decimal.parse (UInt8.size - 1) digits =
      if numberOf 10 digits ≤ UInt8.size - 1 then .ok (numberOf 10 digits) else .error .overflow :=
    Radix.parse_of_isDigit h hne (UInt8.size - 1)
  rw [decimalCode?, hparse, Escape.decimalValue?]
  split
  · rfl
  · by_cases hbyte : numberOf 10 digits ≤ UInt8.size - 1
    · rw [if_pos hbyte]
      dsimp only
      split
      · rename_i hrange
        rw [Escape.codePoint?_of_le hrange.2]
      · rfl
    · rw [if_neg hbyte]
      have hsize : UInt8.size = 256 := rfl
      dsimp only
      rw [if_neg (by omega)]

/-- **A hexadecimal code** denotes what its digits do, whether they fit into four bytes or
not. -/
theorem hexCode?_eq {digits : List Char} (h : ∀ c ∈ digits, isHexDigit c = true)
    (hne : digits ≠ []) : hexCode? digits = Escape.hexValue? digits.length digits := by
  have hparse : Radix.hexadecimal.parse (UInt32.size - 1) digits =
      if numberOf 16 digits ≤ UInt32.size - 1 then .ok (numberOf 16 digits) else .error .overflow :=
    Radix.parse_of_isDigit h hne (UInt32.size - 1)
  rw [hexCode?, hparse, Escape.hexValue?, if_pos rfl]
  by_cases hbytes : numberOf 16 digits ≤ UInt32.size - 1
  · rw [if_pos hbytes]
  · rw [if_neg hbytes, Escape.codePoint?_of_not_le hbytes]

variable {r : Reader} {s : Source} {mode : Mode} {errors : List LexError} {trivia : List Trivia}

/-! ### Escapes -/

/-- **The digits of a decimal code are passed,** and answered with what they denote. -/
theorem run_readDecimalCode (h : r.StandsIn s) (hne : r.run isDecimalDigit ≠ []) :
    readDecimalCode.run (r.machine mode errors trivia) =
      some (Escape.decimalValue? (r.run isDecimalDigit),
        (r.skipWhile isDecimalDigit).machine mode errors trivia) := by
  have hfront : r.run isDecimalDigit <+: r.rest := List.takeWhile_prefix _
  have hall : ∀ c ∈ r.run isDecimalDigit, isDecimalDigit c = true :=
    fun c hc => List.all_eq_true.1 List.all_takeWhile c hc
  rw [readDecimalCode, run_bind_of_run run_position, run_bind_of_run (run_eatWhile h _),
    Reader.skipWhile, run_bind_of_run (run_textSince h hfront), decimalCode?_eq hall hne]
  rfl

/-- **Hexadecimal digits are passed** up to a number. -/
theorem run_eatHexDigits (h : r.StandsIn s) (n : Nat) :
    (eatHexDigits n).run (r.machine mode errors trivia) =
      some ((Escape.hexRun n r.rest).length,
        (r.advanceBy (Escape.hexRun n r.rest).length).machine mode errors trivia) := by
  induction n generalizing r with
  | zero => rfl
  | succ n ih =>
    rw [eatHexDigits, run_bind_of_run (run_peek h 0), Escape.hexRun]
    cases hr : r.rest with
    | nil =>
      rw [Reader.peek_of_nil hr]
      rfl
    | cons c cs =>
      rw [Reader.peek_zero_of_cons hr, Option.any_some, List.take_succ_cons]
      split
      · rename_i hc
        rw [run_bind_of_run (run_advance h), run_bind_of_run (ih h.advance),
          Reader.rest_advance_of_cons hr, List.takeWhile_cons_of_pos hc]
        rfl
      · rename_i hc
        rw [List.takeWhile_cons_of_neg hc]
        rfl

/-- **The digits of a hexadecimal code are passed,** and answered with what they denote. -/
theorem run_readHexCode (h : r.StandsIn s) {count : Nat} (hcount : 0 < count) :
    (readHexCode count).run (r.machine mode errors trivia) =
      some (Escape.hexValue? count (Escape.hexRun count r.rest),
        (r.advanceBy (Escape.hexRun count r.rest).length).machine mode errors trivia) := by
  have hfront : Escape.hexRun count r.rest <+: r.rest :=
    (List.takeWhile_prefix _).trans (List.take_prefix _ _)
  have hall : ∀ c ∈ Escape.hexRun count r.rest, isHexDigit c = true :=
    fun c hc => List.all_eq_true.1 List.all_takeWhile c hc
  have hle : (Escape.hexRun count r.rest).length ≤ count :=
    (List.takeWhile_prefix _).length_le.trans (List.length_take_le _ _)
  rw [readHexCode, run_bind_of_run run_position, run_bind_of_run (run_eatHexDigits h count)]
  generalize Escape.hexRun count r.rest = digits at *
  split
  · rename_i hlt
    rw [Escape.hexValue?, if_neg (Nat.ne_of_lt hlt)]
    rfl
  · rename_i hlt
    obtain rfl : digits.length = count := Nat.le_antisymm hle (Nat.not_lt.1 hlt)
    rw [run_bind_of_run (run_textSince h hfront),
      hexCode?_eq hall (List.length_pos_iff.1 hcount)]
    rfl

/-- **What a backslash escapes is passed,** and answered with what it denotes. -/
theorem run_readEscaped (h : r.StandsIn s) {c : Char} {cs : List Char} (hr : r.rest = c :: cs) :
    (readEscaped c).run (r.machine mode errors trivia) =
      some ((Escape.read c cs).value?,
        (r.advanceBy ((Escape.read c cs).chars.length - 1)).machine mode errors trivia) := by
  have hcs := Reader.rest_advance_of_cons hr
  rw [readEscaped, Escape.read]
  by_cases hdigit : isDecimalDigit c = true
  · have hrun : r.run isDecimalDigit = c :: cs.takeWhile isDecimalDigit := by
      rw [Reader.run, hr, List.takeWhile_cons_of_pos hdigit]
    rw [if_pos hdigit, if_pos hdigit, run_readDecimalCode h (by rw [hrun]; simp),
      Reader.skipWhile, hrun]
    rfl
  · rw [if_neg hdigit, if_neg hdigit, run_bind_of_run (run_advance h)]
    by_cases hx : c = 'x'
    · rw [if_pos hx, if_pos hx, run_readHexCode h.advance (by decide), hcs]
      rfl
    · rw [if_neg hx, if_neg hx]
      by_cases hu : c = 'u'
      · rw [if_pos hu, if_pos hu, run_readHexCode h.advance (by decide), hcs]
        rfl
      · rw [if_neg hu, if_neg hu]
        rfl

/-- **A line end is passed,** which may have two characters. -/
theorem run_eatLineEnd (h : r.StandsIn s) {c : Char} {cs : List Char} (hr : r.rest = c :: cs) :
    eatLineEnd.run (r.machine mode errors trivia) =
      some ((), (r.advanceBy (if c = '\r' ∧ cs.head? = some '\n' then [c, '\n']
        else [c]).length).machine mode errors trivia) := by
  have hnext : r.advance.peek 0 = cs.head? := by
    rw [Reader.peek_eq_head?]
    exact congrArg List.head? (Reader.rest_advance_of_cons hr)
  rw [eatLineEnd, run_bind_of_run (run_advance h), run_bind_of_run (run_peek h.advance 0),
    Reader.peek_zero_of_cons hr, hnext]
  simp only [Option.some.injEq]
  split
  · rw [run_bind_of_run (run_advance h.advance)]
    rfl
  · rfl

/-- The error of a unit that stands before the reader. -/
def unitErrors (u : QuoteUnit) (r : Reader) : List LexError :=
  if u.isMalformed then [⟨.invalidEscapeSequence, r.spanOver u.chars.length, none⟩] else []

theorem unitErrors_of_not_isMalformed {u : QuoteUnit} (h : u.isMalformed = false) (r : Reader) :
    unitErrors u r = [] := by
  rw [unitErrors, h]
  rfl

/-- **An escape is passed,** what it denotes is added to the value, and the error of one that
denotes nothing is recorded. -/
theorem run_readEscape_escape (h : r.StandsIn s) {c : Char} {cs : List Char}
    (hr : r.rest = '\\' :: c :: cs) (hc : isLineEnd c = false) (multiline : Bool)
    (value : List Char) {e : Escape} (he : Escape.read c cs = e) :
    (readEscape multiline value).run (r.machine mode errors trivia) =
      some (value ++ (QuoteUnit.escape e).content,
        (r.advanceBy e.chars.length).machine mode (errors ++ unitErrors (.escape e) r)
          trivia) := by
  have hcs := Reader.rest_advance_of_cons hr
  have hescaped := @run_readEscaped r.advance s mode errors trivia h.advance c cs hcs
  have hfront : e.chars <+: r.rest := hr ▸ he ▸ Escape.isPrefix_chars_read c cs
  -- the backslash has been passed before the escape is read
  have hplace : r.advance.advanceBy (e.chars.length - 1) = r.advanceBy e.chars.length := by
    obtain ⟨run, hrun⟩ := Escape.exists_chars_read c cs
    rw [← he, hrun]
    rfl
  rw [he, hplace] at hescaped
  rw [readEscape, run_bind_of_run run_position, run_bind_of_run (run_advance h),
    run_bind_of_run (run_peek h.advance 0), Reader.peek_zero_of_cons hcs]
  dsimp only
  rw [if_neg (by simp [hc]), if_neg (by simp [hc]), run_bind_of_run hescaped]
  cases hvalue : e.value? with
  | some d =>
    rw [unitErrors_of_not_isMalformed (by simp [QuoteUnit.isMalformed, hvalue]), List.append_nil,
      QuoteUnit.content, hvalue]
    rfl
  | none =>
    have herrors : unitErrors (.escape e) r =
        [⟨.invalidEscapeSequence, r.spanOver e.chars.length, none⟩] := by
      simp [unitErrors, QuoteUnit.isMalformed, hvalue, QuoteUnit.chars]
    dsimp only
    rw [run_bind_of_run (run_textSince h hfront), run_bind_of_run (run_spanSince _),
      run_bind_of_run (run_recordError _), Reader.spanSince_advanceBy, herrors,
      QuoteUnit.content, hvalue]
    rfl

/-- **What a backslash begins is passed** as it is read. -/
theorem run_readEscape (h : r.StandsIn s) {cs : List Char} (hr : r.rest = '\\' :: cs)
    (multiline : Bool) (value : List Char) {u : QuoteUnit}
    (hu : QuoteUnit.readEscaped multiline cs = u) :
    (readEscape multiline value).run (r.machine mode errors trivia) =
      some (value ++ u.content,
        (r.advanceBy u.chars.length).machine mode (errors ++ unitErrors u r) trivia) := by
  have hcs := Reader.rest_advance_of_cons hr
  cases cs with
  | nil =>
    subst hu
    rw [readEscape, run_bind_of_run run_position, run_bind_of_run (run_advance h),
      run_bind_of_run (run_peek h.advance 0), Reader.peek_of_nil hcs, QuoteUnit.readEscaped,
      unitErrors_of_not_isMalformed rfl, List.append_nil]
    rfl
  | cons c cs =>
    by_cases hend : isLineEnd c = true
    · rw [readEscape, run_bind_of_run run_position, run_bind_of_run (run_advance h),
        run_bind_of_run (run_peek h.advance 0), Reader.peek_zero_of_cons hcs]
      dsimp only
      rw [QuoteUnit.readEscaped, if_pos hend] at hu
      cases multiline with
      | true =>
        rw [if_pos rfl] at hu
        subst hu
        rw [if_pos ⟨hend, rfl⟩, run_bind_of_run (run_eatLineEnd h.advance hcs),
          unitErrors_of_not_isMalformed rfl, QuoteUnit.content, List.append_nil, List.append_nil]
        rfl
      | false =>
        rw [if_neg (by simp)] at hu
        subst hu
        rw [if_neg (by simp), if_pos hend, unitErrors_of_not_isMalformed rfl, List.append_nil]
        rfl
    · rw [QuoteUnit.readEscaped, if_neg hend] at hu
      subst hu
      exact run_readEscape_escape h hr (Bool.eq_false_iff.2 hend) multiline value rfl

/-! ### Literals -/

/-- **Whether a literal closes** is seen from the next characters. -/
theorem run_closesAt (h : r.StandsIn s) {c : Char} {cs : List Char} (hr : r.rest = c :: cs)
    (f : QuoteForm) :
    (closesAt f.quote.char f.multiline c).run (r.machine mode errors trivia) =
      some (f.closesAt (c :: cs), r.machine mode errors trivia) := by
  rw [closesAt]
  by_cases hc : c = f.quote.char
  · rw [if_pos hc]
    cases hm : f.multiline with
    | true =>
      have hcloses : f.closesAt (c :: cs) = (some c == some f.quote.char &&
          cs[0]? == some f.quote.char && cs[1]? == some f.quote.char) := by
        rw [QuoteForm.closesAt, QuoteForm.delimiter, hm, ← isPrefixOf_triple]
        rfl
      rw [if_pos rfl, closesMultiline, run_bind_of_run (run_peek h 0),
        run_bind_of_run (run_peek h 1), run_bind_of_run (run_peek h 2),
        Reader.peek_zero_of_cons hr, Reader.peek_succ_of_cons hr, Reader.peek_succ_of_cons hr,
        hcloses]
      rfl
    | false =>
      have hcloses : f.closesAt (c :: cs) = true := by
        rw [QuoteForm.closesAt, QuoteForm.delimiter, hm, hc]
        simp
      rw [if_neg (by simp), hcloses]
      rfl
  · rw [if_neg hc, QuoteForm.closesAt_of_ne hc]
    rfl

/-- **The delimiter that closes a literal is passed,** and ends the loop. -/
theorem run_readUnit_of_closesAt (h : r.StandsIn s) {f : QuoteForm}
    (hcloses : f.closesAt r.rest = true) (value : List Char) :
    (readUnit f.quote.char f.isRaw f.multiline value).run (r.machine mode errors trivia) =
      some (.done (value, true), (r.advanceBy f.delimiter.length).machine mode errors trivia) := by
  obtain ⟨cs, hr⟩ := QuoteForm.exists_cons_of_closesAt hcloses
  rw [readUnit, run_bind_of_run (run_peek h 0), Reader.peek_zero_of_cons hr]
  dsimp only
  rw [if_neg (by simp [QuoteForm.not_isLineEnd_quote]), run_bind_of_run (run_closesAt h hr f),
    ← hr, hcloses, if_pos rfl, run_bind_of_run (run_advanceBy h _), QuoteForm.delimiter,
    List.length_replicate]
  rfl

/-- Where a literal is left open the loop ends. -/
theorem run_readUnit_of_unit?_eq_none (h : r.StandsIn s) {f : QuoteForm}
    (hu : f.unit? r.rest = none) (value : List Char) :
    (readUnit f.quote.char f.isRaw f.multiline value).run (r.machine mode errors trivia) =
      some (.done (value, false), r.machine mode errors trivia) := by
  rw [readUnit, run_bind_of_run (run_peek h 0)]
  cases hr : r.rest with
  | nil =>
    rw [Reader.peek_of_nil hr]
    rfl
  | cons c cs =>
    obtain ⟨hend, hsingle⟩ := QuoteForm.unit?_eq_none_iff.1 hu
    rw [hr] at hend hsingle
    rw [Reader.peek_zero_of_cons hr]
    dsimp only
    rw [if_pos ⟨hend c rfl, hsingle (List.cons_ne_nil c cs)⟩]
    rfl

/-- **A unit of the content is passed,** what it denotes is added to the value, and its error
is recorded. -/
theorem run_readUnit_of_unit? (h : r.StandsIn s) {f : QuoteForm}
    (hopen : f.closesAt r.rest = false) {u : QuoteUnit} (hu : f.unit? r.rest = some u)
    (value : List Char) :
    (readUnit f.quote.char f.isRaw f.multiline value).run (r.machine mode errors trivia) =
      some (.again (value ++ u.content),
        (r.advanceBy u.chars.length).machine mode (errors ++ unitErrors u r) trivia) := by
  cases hr : r.rest with
  | nil => simp [hr, QuoteForm.unit?] at hu
  | cons c cs =>
    have hcloses := @run_closesAt r s mode errors trivia h c cs hr f
    rw [← hr, hopen] at hcloses
    rw [hr, QuoteForm.unit?] at hu
    split at hu
    · simp at hu
    · rename_i hend
      rw [readUnit, run_bind_of_run (run_peek h 0), Reader.peek_zero_of_cons hr]
      dsimp only
      rw [if_neg hend, run_bind_of_run hcloses, if_neg Bool.false_ne_true]
      split at hu
      · rename_i hback
        obtain ⟨rfl, hraw⟩ := hback
        rw [if_pos ⟨rfl, hraw⟩,
          run_bind_of_run (run_readEscape h hr f.multiline value (Option.some.inj hu))]
        rfl
      · rename_i hback
        obtain rfl := Option.some.inj hu
        rw [if_neg hback, run_bind_of_run (run_advance h), unitErrors_of_not_isMalformed rfl,
          List.append_nil]
        rfl

/-- From a value on the loop over a literal adds to it what the units denote. -/
theorem run_loop_readUnit (h : r.StandsIn s) {f : QuoteForm} {text : List Char}
    (hr : r.rest = text) {units : List QuoteUnit} {closed : Bool}
    (hread : f.readUnits text = (units, closed)) (value : List Char) :
    (loop value (readUnit f.quote.char f.isRaw f.multiline)).run (r.machine mode errors trivia) =
      some ((value ++ units.flatMap QuoteUnit.content, closed),
        (r.advanceBy (f.body units closed).length).machine mode
          (errors ++ Lexeme.escapeErrors units r) trivia) := by
  fun_induction QuoteForm.readUnits f text generalizing r value errors units closed with
  | case1 text hcloses =>
    obtain ⟨rfl, rfl⟩ := Prod.mk.inj hread
    subst hr
    rw [run_loop_of_done (run_readUnit_of_closesAt h hcloses value), List.flatMap_nil,
      List.append_nil, Lexeme.escapeErrors, List.append_nil]
    rfl
  | case2 text hopen hu =>
    obtain ⟨rfl, rfl⟩ := Prod.mk.inj hread
    subst hr
    rw [run_loop_of_done (run_readUnit_of_unit?_eq_none h hu value), List.flatMap_nil,
      List.append_nil, Lexeme.escapeErrors, List.append_nil]
    rfl
  | case3 text hopen u hu units' closed' hread' ih =>
    obtain ⟨rfl, rfl⟩ := Prod.mk.inj hread
    subst hr
    have hne : r.rest ≠ [] := by
      intro hnil
      rw [hnil, QuoteForm.unit?] at hu
      simp at hu
    rw [run_loop_advanceBy h hne u.length_chars_pos
        (run_readUnit_of_unit? h (Bool.eq_false_iff.2 hopen) hu value),
      ih (h.advanceBy _) (Reader.rest_advanceBy ..) hread', Lexeme.escapeErrors_cons,
      QuoteForm.body_cons, List.length_append, Reader.advanceBy_add, List.flatMap_cons,
      List.append_assoc, List.append_assoc]
    rfl

/-- **The content of a literal is passed** with the delimiter that closes it. -/
theorem run_readContent (h : r.StandsIn s) {f : QuoteForm} {units : List QuoteUnit}
    {closed : Bool} (hread : f.readUnits r.rest = (units, closed)) :
    (readContent f.quote.char f.isRaw f.multiline).run (r.machine mode errors trivia) =
      some ((units.flatMap QuoteUnit.content, closed),
        (r.advanceBy (f.body units closed).length).machine mode
          (errors ++ Lexeme.escapeErrors units r) trivia) :=
  run_loop_readUnit h rfl hread []

/-- **A string literal is read** as the text ahead has it. -/
theorem run_readQuoted (h : r.StandsIn s) {c : Char} {cs : List Char} (hr : r.rest = c :: cs)
    (hc : c = '\x22' ∨ c = '\x60') {q : Quoted} (hq : Quoted.read c cs = q) :
    readQuoted.run (r.machine mode errors trivia) =
      some (⟨.string q.chars q.value q.form.isRaw q.form.multiline,
          r.spanOver q.chars.length⟩,
        r.machineAfter (.quoted q) mode errors trivia) := by
  have hcs := Reader.rest_advance_of_cons hr
  obtain ⟨f, hf⟩ : ∃ f : QuoteForm, f = ⟨Quoted.quoteOf c, [c, c].isPrefixOf cs⟩ := ⟨_, rfl⟩
  obtain ⟨units, closed, hread⟩ : ∃ units closed,
    f.readUnits (cs.drop (if f.multiline then 2 else 0)) = (units, closed) := ⟨_, _, rfl⟩
  obtain rfl := hq.symm.trans (Quoted.read_eq hf hread)
  have hraw : (some c == some '\x60') = f.isRaw := by
    rw [hf]
    rcases hc with rfl | rfl <;> rfl
  have hdelimiter : (if f.isRaw then '\x60' else '\x22') = f.quote.char := by
    rw [hf]
    rcases hc with rfl | rfl <;> rfl
  have hmultiline : (r.advance.peek 0 == some f.quote.char &&
      r.advance.peek 1 == some f.quote.char) = f.multiline := by
    rw [hf, Quoted.char_quoteOf hc, isPrefixOf_pair, Reader.peek, Reader.peek, hcs]
  have hplace : r.advance.advanceBy (if f.multiline then 2 else 0) =
      r.advanceBy f.delimiter.length := by
    rw [QuoteForm.delimiter, List.length_replicate]
    cases f.multiline <;> rfl
  have hcontent : f.readUnits (r.advanceBy f.delimiter.length).rest = (units, closed) := by
    rw [← hplace, Reader.rest_advanceBy, hcs, hread]
  have hfront : (Quoted.mk f units closed).chars <+: r.rest :=
    hr ▸ hq ▸ Quoted.isPrefix_chars_read hc cs
  have hend : (r.advanceBy f.delimiter.length).advanceBy (f.body units closed).length =
      r.advanceBy (Quoted.mk f units closed).chars.length := by
    rw [Quoted.chars, List.length_append, Reader.advanceBy_add]
  rw [readQuoted, run_bind_of_run run_position, run_bind_of_run (run_advance h),
    Reader.peek_zero_of_cons hr, hraw]
  dsimp only
  rw [hdelimiter, run_bind_of_run (run_peek h.advance 0), run_bind_of_run (run_peek h.advance 1),
    hmultiline, run_bind_of_run (run_advanceBy h.advance _), hplace,
    run_bind_of_run (run_readContent (h.advanceBy _) hcontent), hend]
  dsimp only
  rw [run_bind_of_run (run_spanSince _), run_bind_of_run (run_textSince h hfront),
    run_bind_of_run (run_recordUnless _ _), Reader.spanSince_advanceBy, Reader.machineAfter,
    Lexeme.errors_quoted, List.append_assoc, Lexeme.trivia, List.append_nil]
  rfl

end Machine

end Lexis
