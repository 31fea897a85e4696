/-
# How far a lexeme looks ahead

A lexeme stops before a character that it does not take, and no lexeme but a
run of blanks takes the end of the line it ends on.  So where a text ends with
a lexeme it may as well go on with a line end (`Lexeme.read?_append`), unless
the lexeme is a block comment or a multi-line literal that is left open, which
takes all of the text (`Lexeme.chars_of_isOpen`).

A lexeme that makes a token is found again where the text of the token stands
alone (`Lexeme.read?_text`); a number leaves its suffix behind.
-/

import Lexis.Proofs.Lexemes
import Lexis.Proofs.Lookahead.Quoted
import Mathlib.Data.List.TakeWhile

namespace Lexis

variable {tail : List Char}

/-! ### What begins -/

namespace Opening

/-- The second character matters only as a slash or a star. -/
theorem ofChars_congr {x y : Option Char} (hslash : x = some '/' ↔ y = some '/')
    (hstar : x = some '*' ↔ y = some '*') (c : Char) : ofChars (some c) x = ofChars (some c) y := by
  simp only [ofChars, hslash, hstar]

theorem ofChars_append (h : AtLineEnd tail) (c : Char) (cs : List Char) :
    ofChars (some c) (cs ++ tail).head? = ofChars (some c) cs.head? := by
  cases cs with
  | cons d ds => rfl
  | nil =>
    have hne : ∀ d, isLineEnd d = false → tail.head? ≠ some d := fun d hd hhead => by
      rw [h d hhead] at hd
      simp at hd
    apply ofChars_congr
    · simp [hne '/' (by decide)]
    · simp [hne '*' (by decide)]

/-- The second character matters only after a slash. -/
theorem ofChars_of_ne {c : Char} (h : c ≠ '/') (x y : Option Char) :
    ofChars (some c) x = ofChars (some c) y := by
  simp only [ofChars, h, false_and, if_false]

variable {c : Char} {second : Option Char}

/-- No lexeme but a run of blanks begins with a blank. -/
theorem not_isBlank {kind : LexemeKind} (h : ofChars (some c) second = .lexeme kind) :
    isBlank c = false := by
  simp only [ofChars] at h
  split at h
  · simp at h
  · rename_i hb
    simpa using hb

theorem isBlank_of_blanks (h : ofChars (some c) second = .blanks) : isBlank c = true := by
  simp only [ofChars] at h
  split at h
  · assumption
  · repeat' split at h
    all_goals simp at h

theorem isWordStart_of_word (h : ofChars (some c) second = .lexeme .word) :
    isWordStart c = true := by
  simp only [ofChars] at h
  repeat' split at h
  all_goals first | assumption | simp at h

theorem marks_of_lineComment (h : ofChars (some c) second = .lexeme .lineComment) :
    c = '/' ∧ second = some '/' := by
  simp only [ofChars] at h
  repeat' split at h
  all_goals first | assumption | simp at h

theorem marks_of_blockComment (h : ofChars (some c) second = .lexeme .blockComment) :
    c = '/' ∧ second = some '*' := by
  simp only [ofChars] at h
  repeat' split at h
  all_goals first | assumption | simp at h

end Opening

/-- A blank is a line end or another blank. -/
theorem isBlank_of_isLineEnd {c : Char} (h : isLineEnd c = true) : isBlank c = true := by
  rcases isLineEnd_iff.1 h with rfl | rfl <;> decide

/-! ### Runs and tables -/

/-- A run of a class that has no line end ends at the end of the line. -/
theorem takeWhile_append_of_atLineEnd {p : Char → Bool} (hn : p '\n' = false) (hr : p '\r' = false)
    (h : AtLineEnd tail) (text : List Char) : (text ++ tail).takeWhile p = text.takeWhile p := by
  induction text with
  | cons c cs ih => simp only [List.cons_append, List.takeWhile_cons, ih]
  | nil =>
    cases tail with
    | nil => rfl
    | cons c cs => simp [h.not_of_head? hn hr c rfl]

/-- What holds no line end stands before the end of the line or not at all. -/
theorem isPrefixOf_append_of_atLineEnd {front : List Char}
    (hfront : ∀ c ∈ front, isLineEnd c = false) (h : AtLineEnd tail) (text : List Char) :
    front.isPrefixOf (text ++ tail) = front.isPrefixOf text := by
  induction front generalizing text with
  | nil => simp
  | cons d ds ih =>
    obtain ⟨hd, hds⟩ := List.forall_mem_cons.1 hfront
    cases text with
    | cons c cs => simp only [List.cons_append, List.isPrefixOf, ih hds]
    | nil =>
      cases tail with
      | nil => rfl
      | cons c cs =>
        have hne : d ≠ c := fun hdc => by
          rw [hdc, h c rfl] at hd
          simp at hd
        simp [List.isPrefixOf, hne]

theorem Operator.not_isLineEnd (o : Operator) : ∀ c ∈ o.chars, isLineEnd c = false := by
  have hall : ∀ o ∈ all, o.chars.any isLineEnd = false := by decide +kernel
  intro c hc
  rw [← Bool.not_eq_true]
  exact List.any_eq_false.1 (hall o o.mem_all) c hc

/-- No operator goes on over a line end. -/
theorem Operator.longest?_append (h : AtLineEnd tail) (text : List Char) :
    longest? (text ++ tail) = longest? text := by
  have hsame : (fun o : Operator => o.chars.isPrefixOf (text ++ tail)) =
      fun o => o.chars.isPrefixOf text :=
    funext fun o => isPrefixOf_append_of_atLineEnd o.not_isLineEnd h text
  rw [longest?, longest?, hsame]

namespace Comment

theorem blockRun_zero (text : List Char) : blockRun 0 text = ([], true) := by
  match text with
  | [] => rfl
  | [c] => rfl
  | c :: d :: cs => rfl

/-- What is no mark goes with the comment. -/
theorem blockRun_cons {depth : Nat} {c : Char} {cs : List Char} (hd : depth ≠ 0)
    (hopen : ¬ (c = '/' ∧ cs.head? = some '*')) (hclose : ¬ (c = '*' ∧ cs.head? = some '/')) :
    blockRun depth (c :: cs) = (c :: (blockRun depth cs).1, (blockRun depth cs).2) := by
  cases cs with
  | nil => simp [blockRun, hd]
  | cons d ds =>
    rw [blockRun, if_neg hd, if_neg (by simpa using hopen), if_neg (by simpa using hclose)]

/-- A comment that is closed takes nothing after its last mark. -/
theorem blockRun_append {depth : Nat} {text : List Char} (h : (blockRun depth text).2 = true)
    (tail : List Char) : blockRun depth (text ++ tail) = blockRun depth text := by
  fun_induction blockRun depth text with
  | case1 depth =>
    obtain rfl : depth = 0 := by simpa using h
    exact blockRun_zero tail
  | case2 => exact blockRun_zero _
  | case3 => simp at h
  | case4 => exact blockRun_zero _
  | case5 depth c d cs hd hmark run closed hr ih =>
    rw [hr] at ih
    rw [List.cons_append, List.cons_append, blockRun, if_neg hd, if_pos hmark, ih h]
  | case6 depth c d cs hd hopen hmark run closed hr ih =>
    rw [hr] at ih
    rw [List.cons_append, List.cons_append, blockRun, if_neg hd, if_neg hopen, if_pos hmark, ih h]
  | case7 depth c d cs hd hopen hclose run closed hr ih =>
    rw [hr] at ih
    rw [List.cons_append, List.cons_append, blockRun, if_neg hd, if_neg hopen, if_neg hclose,
      ← List.cons_append, ih h]

/-- A comment that is closed ends with a closing mark. -/
theorem getLast?_blockRun {depth : Nat} {text : List Char} (hd : depth ≠ 0)
    (h : (blockRun depth text).2 = true) : (blockRun depth text).1.getLast? = some '/' := by
  fun_induction blockRun depth text with
  | case1 depth => exact absurd (by simpa using h) hd
  | case2 => exact absurd rfl hd
  | case3 => simp at h
  | case4 => exact absurd rfl hd
  | case5 depth c d cs _ _ run closed hr ih =>
    rw [hr] at ih
    have hlast := ih (Nat.succ_ne_zero depth) h
    rw [List.getLast?_cons, List.getLast?_cons, hlast]
    rfl
  | case6 depth c d cs _ _ hmark run closed hr ih =>
    rw [hr] at ih
    by_cases hz : depth - 1 = 0
    · rw [hz, blockRun_zero] at hr
      obtain rfl := (Prod.mk.inj hr).1
      exact congrArg some hmark.2
    · have hlast := ih hz h
      rw [List.getLast?_cons, List.getLast?_cons, hlast]
      rfl
  | case7 depth c d cs _ _ _ run closed hr ih =>
    rw [hr] at ih
    have hlast := ih hd h
    rw [List.getLast?_cons, hlast]
    rfl

end Comment

/-! ### Lexemes -/

namespace Lexeme

/-- Whether the lexeme is a comment or a literal that further lines would go on in. -/
def isOpen : Lexeme → Bool
  | .quoted literal => literal.form.multiline && !literal.closed
  | .blockComment _ closed => !closed
  | _ => false

/-- Whether the lexeme is a run of blanks. -/
def isBlanks : Lexeme → Bool
  | .blanks _ => true
  | _ => false

/-- The lexeme without what its token leaves out. -/
def bare : Lexeme → Lexeme
  | .number numeral _ => .number numeral []
  | l => l

@[simp] theorem payload?_bare (l : Lexeme) : l.bare.payload? = l.payload? := by cases l <;> rfl

@[simp] theorem suffix_bare (l : Lexeme) : l.bare.suffix = [] := by cases l <;> rfl

@[simp] theorem isOpen_bare (l : Lexeme) : l.bare.isOpen = l.isOpen := by cases l <;> rfl

theorem isBlanks_iff {l : Lexeme} : l.isBlanks = true ↔ ∃ run, l = .blanks run := by
  cases l <;> simp [isBlanks]

theorem isBlanks_of_payload? {l : Lexeme} {p : Payload} (h : l.payload? = some p) :
    l.isBlanks = false := by
  cases l with
  | blanks run => simp [payload?] at h
  | _ => rfl

theorem chars_bare {l : Lexeme} {p : Payload} (h : l.payload? = some p) :
    l.bare.chars = p.text := by
  have hbare : l.bare.payload? = some p := by rw [payload?_bare, h]
  rw [chars_of_payload? hbare, suffix_bare, List.append_nil]

theorem read?_of_opening {kind : LexemeKind} {c : Char} {cs : List Char}
    (h : Opening.ofChars (some c) cs.head? = .lexeme kind) :
    read? (c :: cs) = some (ofKind kind c cs) := by
  simp only [read?, h]

theorem readNumber_append (h : AtLineEnd tail) (c : Char) (cs : List Char) :
    readNumber c (cs ++ tail) = readNumber c cs := by
  have hlen := (Numeral.isPrefix_chars_read (c :: cs)).length_le
  rw [readNumber, readNumber, ← List.cons_append, Numeral.read_append h,
    List.drop_append_of_le_length hlen, Numeral.malformedSuffix_append h]

end Lexeme

/-- An operator that stands alone is read as such. -/
theorem Operator.read?_chars (o : Operator) : Lexeme.read? o.chars = some (.operator o) := by
  have hall : ∀ o ∈ all, Lexeme.read? o.chars = some (.operator o) := by decide +kernel
  exact hall o o.mem_all

/-- A punctuation character that stands alone is read as such. -/
theorem Punctuation.read?_char (p : Punctuation) :
    Lexeme.read? [p.char] = some (.punctuation p) := by
  have hall : ∀ p ∈ all, Lexeme.read? [p.char] = some (.punctuation p) := by decide +kernel
  exact hall p p.mem_all

/-- A numeral consists of the digit it begins with and more. -/
theorem Numeral.exists_chars_read {c : Char} (h : isDecimalDigit c = true) (cs : List Char) :
    ∃ ds, (read (c :: cs)).chars = c :: ds := by
  rcases List.prefix_cons_iff.1 (isPrefix_chars_read (c :: cs)) with hnil | ⟨ds, hds, -⟩
  · exact absurd hnil (chars_read_ne_nil h cs)
  · exact ⟨ds, hds⟩

/-- A literal consists of the delimiter it begins with and a front of the text. -/
theorem Quoted.exists_chars_read {c : Char} (h : c = '\x22' ∨ c = '\x60') (text : List Char) :
    ∃ run after, (read c text).chars = c :: run ∧ text = run ++ after := by
  have hpre := isPrefix_chars_read h text
  rcases List.prefix_cons_iff.1 hpre with hnil | ⟨run, hrun, after, rfl⟩
  · simp [chars, QuoteForm.delimiter_ne_nil] at hnil
  · exact ⟨run, after, hrun, rfl⟩

namespace Lexeme

theorem closed_or_of_isOpen_quoted {literal : Quoted} (h : (quoted literal).isOpen = false) :
    literal.closed = true ∨ literal.form.multiline = false := by
  rw [isOpen, Bool.and_eq_false_iff, Bool.not_eq_false'] at h
  exact h.symm

/-- The lexeme of a sort is read as it was if the text goes on with a line end. -/
theorem ofKind_append {kind : LexemeKind} {c : Char} {cs : List Char}
    (hk : Opening.ofChars (some c) cs.head? = .lexeme kind)
    (hopen : (ofKind kind c cs).isOpen = false) (h : AtLineEnd tail) :
    ofKind kind c (cs ++ tail) = ofKind kind c cs := by
  cases kind with
  | word =>
    have hrun : (cs ++ tail).takeWhile isWordChar = cs.takeWhile isWordChar :=
      takeWhile_append_of_atLineEnd (by decide) (by decide) h cs
    rw [ofKind, ofKind, hrun]
  | number => exact readNumber_append h c cs
  | string =>
    have hc := Opening.isQuote_of_string hk
    obtain ⟨run, after, hrun, rfl⟩ := Quoted.exists_chars_read hc cs
    have hafter : (after ++ tail).head? = after.head? ∨ AtLineEnd (after ++ tail) := by
      cases after with
      | nil => exact Or.inr h
      | cons d ds => exact Or.inl rfl
    have hclosed := closed_or_of_isOpen_quoted hopen
    rw [ofKind, ofKind, List.append_assoc, Quoted.read_congr hc hrun hafter hclosed]
  | lineComment =>
    have hrun : Comment.lineRun (cs ++ tail) = Comment.lineRun cs :=
      takeWhile_append_of_atLineEnd (by decide) (by decide) h cs
    rw [ofKind, ofKind, hrun]
  | blockComment =>
    obtain ⟨rfl, hstar⟩ := Opening.marks_of_blockComment hk
    obtain ⟨ds, rfl⟩ := List.head?_eq_some_iff.1 hstar
    have hclosed : (Comment.blockRun 1 ds).2 = true := by
      simpa [ofKind, readBlockComment, isOpen] using hopen
    simp only [ofKind, readBlockComment, List.cons_append, List.drop_succ_cons, List.drop_zero,
      Comment.blockRun_append hclosed]
    rfl
  | symbol =>
    simp only [ofKind, readSymbol, ← List.cons_append, Operator.longest?_append h]

/-- **The end of the text is as good as the end of a line:** a lexeme is read as it
was if the text goes on with a line end, unless it is a run of blanks or left open. -/
theorem read?_append {text : List Char} {l : Lexeme} (hl : read? text = some l)
    (hblanks : l.isBlanks = false) (hopen : l.isOpen = false) (h : AtLineEnd tail) :
    read? (text ++ tail) = some l := by
  obtain ⟨c, cs, rfl, ⟨-, rfl⟩ | ⟨kind, hk, rfl⟩⟩ := exists_opening_of_read? hl
  · simp [isBlanks] at hblanks
  · have hk' : Opening.ofChars (some c) (cs ++ tail).head? = .lexeme kind := by
      rw [Opening.ofChars_append h, hk]
    rw [List.cons_append, read?_of_opening hk', ofKind_append hk hopen h]

/-- A lexeme that is left open takes all of the text. -/
theorem chars_of_isOpen {text : List Char} {l : Lexeme} (hl : read? text = some l)
    (hopen : l.isOpen = true) : l.chars = text := by
  obtain ⟨c, cs, rfl, ⟨-, rfl⟩ | ⟨kind, hk, rfl⟩⟩ := exists_opening_of_read? hl
  · simp [isOpen] at hopen
  cases kind with
  | string =>
    simp only [ofKind, isOpen, Bool.and_eq_true, Bool.not_eq_true'] at hopen
    exact Quoted.chars_read_of_open (Opening.isQuote_of_string hk) hopen.1 hopen.2
  | blockComment =>
    have hclosed : (Comment.blockRun 1 (cs.drop 1)).2 = false := by
      simpa [ofKind, readBlockComment, isOpen] using hopen
    simp only [ofKind, readBlockComment, chars, Comment.blockRun_eq_of_open hclosed]
    rw [List.cons_append, List.take_append_drop]
  | symbol =>
    rcases readSymbol_cases c cs with ⟨o, h⟩ | ⟨p, h, -⟩ | h <;>
      · rw [ofKind, h] at hopen
        simp [isOpen] at hopen
  | _ => simp [ofKind, readNumber, isOpen] at hopen

/-- **The text of a token stands for itself:** read alone it is the lexeme that made
the token. -/
theorem read?_text {text : List Char} {l : Lexeme} {p : Payload} (hl : read? text = some l)
    (hp : l.payload? = some p) : read? p.text = some l.bare := by
  obtain ⟨c, cs, rfl, ⟨-, rfl⟩ | ⟨kind, hk, rfl⟩⟩ := exists_opening_of_read? hl
  · simp [payload?] at hp
  rw [← chars_bare hp]
  cases kind with
  | word =>
    have hc : c ≠ '/' := by
      rintro rfl
      exact absurd (Opening.isWordStart_of_word hk) (by decide)
    have hk' : Opening.ofChars (some c) (cs.takeWhile isWordChar).head? = .lexeme .word := by
      rw [Opening.ofChars_of_ne hc _ cs.head?, hk]
    have hrun : (cs.takeWhile isWordChar).takeWhile isWordChar = cs.takeWhile isWordChar :=
      List.takeWhile_idem
    exact (read?_of_opening hk').trans (congrArg (fun run => some (word (c :: run))) hrun)
  | number =>
    have hc : c ≠ '/' := by
      rintro rfl
      exact absurd (Opening.isDecimalDigit_of_number hk) (by decide)
    obtain ⟨ds, hchars⟩ := Numeral.exists_chars_read (Opening.isDecimalDigit_of_number hk) cs
    have hk' : Opening.ofChars (some c) ds.head? = .lexeme .number := by
      rw [Opening.ofChars_of_ne hc _ cs.head?, hk]
    have hbare : (ofKind .number c cs).bare = .number (Numeral.read (c :: cs)) [] := rfl
    rw [hbare, chars, List.append_nil, hchars, read?_of_opening hk']
    simp only [ofKind, readNumber]
    rw [← hchars, Numeral.read_chars, List.drop_length,
      Numeral.malformedSuffix_of_atLineEnd atLineEnd_nil]
  | string =>
    have hc := Opening.isQuote_of_string hk
    obtain ⟨run, after, hrun, rfl⟩ := Quoted.exists_chars_read hc cs
    have hbare : (ofKind .string c (run ++ after)).bare = .quoted (Quoted.read c (run ++ after)) :=
      rfl
    rw [hbare, chars]
    cases hopen : (ofKind .string c (run ++ after)).isOpen with
    | true =>
      have htext : (Quoted.read c (run ++ after)).chars = c :: (run ++ after) :=
        chars_of_isOpen hl hopen
      rw [htext]
      exact hl
    | false =>
      have hclosed := closed_or_of_isOpen_quoted hopen
      have hquote : c ≠ '/' := by rcases hc with rfl | rfl <;> decide
      have hk' : Opening.ofChars (some c) run.head? = .lexeme .string := by
        rw [Opening.ofChars_of_ne hquote _ (run ++ after).head?, hk]
      have hread := Quoted.read_congr hc hrun (Or.inr atLineEnd_nil) hclosed
      rw [List.append_nil] at hread
      rw [hrun, read?_of_opening hk', ofKind, hread]
  | lineComment => simp [ofKind, payload?] at hp
  | blockComment => simp [ofKind, readBlockComment, payload?] at hp
  | symbol =>
    rcases readSymbol_cases c cs with ⟨o, h⟩ | ⟨q, h, -⟩ | h
    · rw [ofKind, h]
      exact o.read?_chars
    · rw [ofKind, h]
      exact q.read?_char
    · rw [ofKind, h] at hp
      simp [payload?] at hp

end Lexeme

end Lexis
