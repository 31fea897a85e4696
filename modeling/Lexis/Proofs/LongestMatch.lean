/-
# Longest matches

Which lexeme begins at a place is decided by the two characters there, and the lexeme then
takes as much of the text as it can: a word all characters of words, an operator as many
characters as an operator of the table has there, a run of blanks all blanks, a comment all
characters of its line.  So each of them is the longest match at its place, in the way that
its sort is matched (`Payload.IsLongest`, `Source.HasBlanks`, `Source.HasLineComment`).

A run of blanks goes on as long as blanks do, but it does not always begin where blanks do:
those at the end of a comment or of a literal that is left open have been taken before
(`blanks_not_maximal`).

No lexeme begins at a character that no sort of lexemes begins with (`BeginsNothing`), and
exactly these characters are met by an error where a scan comes to them
(`Source.mem_errors_iff_beginsNothing`).
-/

import Lexis.Proofs.Blanks
import Lexis.Proofs.Places

namespace Lexis

/-! ### Places in the text -/

/-- **The span is that of `run` in the text** of the unit, with the text `before` it and the text
`after` it. -/
structure Source.Cut (s : Source) (span : Span) (before run after : List Char) : Prop where
  text : s.text = before ++ (run ++ after)
  start : span.start.offset = Text.byteLength before
  stop : span.stop.offset = Text.byteLength (before ++ run)

namespace Reader

variable {s : Source} {r : Reader}

theorem HasRead.cut {before run after : List Char} (h : r.HasRead before)
    (hr : r.rest = run ++ after) :
    r.source.Cut (r.spanOver run.length) before run after where
  text := by rw [h.text, hr]
  start := h.offset
  stop := (h.advanceBy hr).offset

/-- Where a lexeme begins the text does, or a lexeme before it ends. -/
theorem eq_or_exists_step_before {l : Lexeme} {r' : Reader} (h : (l, r') ∈ r.steps) :
    r' = r ∨ ∃ k r'', (k, r'') ∈ r.steps ∧ r' = r''.advanceBy k.chars.length := by
  induction r using byLexemes with
  | atEnd r hr => simp [steps_of_rest_eq_nil hr] at h
  | lexeme r k hk ih =>
    rw [steps_of_read? hk] at h ⊢
    rcases List.mem_cons.1 h with h | h
    · exact Or.inl (Prod.mk.inj h).2
    · rcases ih h with rfl | ⟨k', r'', hstep, hr⟩
      · exact Or.inr ⟨k, r, List.mem_cons_self, rfl⟩
      · exact Or.inr ⟨k', r'', List.mem_cons_of_mem _ hstep, hr⟩

end Reader

/-! ### Symbols -/

/-- **A symbol begins** where neither a class of characters nor a mark decides otherwise. -/
theorem Opening.ofChars_eq_symbol_iff {c : Char} {second : Option Char} :
    ofChars (some c) second = .lexeme .symbol ↔
      isBlank c = false ∧ isWordStart c = false ∧ isDecimalDigit c = false ∧
        ¬ (c = '\x22' ∨ c = '\x60') ∧ ¬ (c = '/' ∧ second = some '/') ∧
        ¬ (c = '/' ∧ second = some '*') := by
  simp only [ofChars]
  repeat' split
  all_goals simp_all

/-! ### Tokens -/

/-- **The text of a token is the longest match** at its place, where `after` comes next. -/
structure Payload.IsLongest (p : Payload) (after : List Char) : Prop where
  /-- A word is the longest run of characters of words; it begins like a word, and is the
  keyword that it spells as a whole. -/
  word : (p.kind = .identifier ∨ ∃ k, p.kind = .keyword k) →
    (∃ c ∈ p.text.head?, isWordStart c = true) ∧
      LongestFront (fun run => ∀ c ∈ run, isWordChar c = true) (p.text ++ after) p.text ∧
      ∀ k : Keyword, p.kind = .keyword k ↔ p.text = k.chars
  /-- An operator is the longest one of the table, and stands at no mark of a comment. -/
  operator : ∀ o, p.kind = .operator o → p.text = o.chars ∧
    LongestFront (fun run => ∃ o' : Operator, run = o'.chars) (p.text ++ after) p.text ∧
    ¬ ['/', '/'] <+: p.text ++ after ∧ ¬ ['/', '*'] <+: p.text ++ after
  /-- Punctuation stands where no operator does. -/
  punctuation : ∀ q, p.kind = .punctuation q → p.text = [q.char] ∧
    ∀ o : Operator, ¬ o.chars <+: p.text ++ after

/-- A word is the keyword that it spells as a whole. -/
theorem Payload.kind_ofWord_eq_keyword_iff {run : List Char} {k : Keyword} :
    (ofWord run).kind = .keyword k ↔ run = k.chars := by
  rw [eq_comm (a := run), ← Keyword.ofChars?_eq_some_iff, ofWord]
  split <;> simp [kind, *]

namespace Lexeme

variable {text : List Char}

/-- **A word** is the longest run of characters of words. -/
theorem word_of_read? {run : List Char} (h : read? text = some (.word run)) :
    (∃ c ∈ run.head?, isWordStart c = true) ∧
      LongestFront (fun run => ∀ c ∈ run, isWordChar c = true) text run := by
  obtain ⟨c, cs, rfl, hk, hl⟩ := exists_opening_of_kind? h rfl
  obtain rfl := Lexeme.word.inj hl
  have hc := Opening.isWordStart_of_word hk
  exact ⟨⟨c, rfl, hc⟩, longestFront_cons_takeWhile (isWordChar_of_isWordStart hc) cs⟩

/-- Where a symbol is read there is no mark of a comment. -/
theorem not_mark_of_symbol {l : Lexeme} (h : read? text = some l) (hkind : l.kind? = some .symbol) :
    ¬ ['/', '/'] <+: text ∧ ¬ ['/', '*'] <+: text := by
  obtain ⟨c, cs, rfl, hk, -⟩ := exists_opening_of_kind? h hkind
  obtain ⟨-, -, -, -, hslash, hstar⟩ := Opening.ofChars_eq_symbol_iff.1 hk
  constructor
  · rintro ⟨after, hmark⟩
    obtain ⟨rfl, rfl⟩ := List.cons.inj hmark
    exact hslash ⟨rfl, rfl⟩
  · rintro ⟨after, hmark⟩
    obtain ⟨rfl, rfl⟩ := List.cons.inj hmark
    exact hstar ⟨rfl, rfl⟩

/-- **An operator** is the longest one of the table. -/
theorem operator_of_read? {o : Operator} (h : read? text = some (.operator o)) :
    LongestFront (fun run => ∃ o' : Operator, run = o'.chars) text o.chars := by
  obtain ⟨c, cs, rfl, -, hl⟩ := exists_opening_of_kind? h rfl
  have hlongest := readSymbol_eq_operator_iff.1 hl.symm
  exact {
    holds := ⟨o, rfl⟩
    begins := Operator.isPrefix_chars_longest? hlongest
    longest := by
      rintro other ⟨o', rfl⟩ hbegins
      exact Operator.length_le_of_longest? hlongest hbegins }

/-- **Punctuation** stands where no operator does. -/
theorem punctuation_of_read? {q : Punctuation} (h : read? text = some (.punctuation q)) :
    ∀ o : Operator, ¬ o.chars <+: text := by
  obtain ⟨c, cs, rfl, -, hl⟩ := exists_opening_of_kind? h rfl
  exact Operator.longest?_eq_none_iff.1 (readSymbol_eq_punctuation_iff.1 hl.symm).1

/-- **The lexeme of a token makes it the longest match.** -/
theorem isLongest_of_payload? {l : Lexeme} {p : Payload} {after : List Char}
    (h : read? (p.text ++ after) = some l) (hp : l.payload? = some p) : p.IsLongest after := by
  cases l with
  | word run =>
    obtain rfl := Option.some.inj hp
    rw [Payload.text_ofWord] at h
    obtain ⟨hbegins, hlongest⟩ := word_of_read? h
    exact {
      word := fun _ => by
        rw [Payload.text_ofWord]
        exact ⟨hbegins, hlongest, fun k => Payload.kind_ofWord_eq_keyword_iff⟩
      operator := fun o ho => by
        unfold Payload.ofWord at ho
        split at ho <;> simp [Payload.kind] at ho
      punctuation := fun q hq => by
        unfold Payload.ofWord at hq
        split at hq <;> simp [Payload.kind] at hq }
  | number numeral suffix =>
    obtain rfl := Option.some.inj hp
    rcases Payload.kind_ofNumeral numeral with hkind | hkind <;>
      exact ⟨by simp [hkind], by simp [hkind], by simp [hkind]⟩
  | quoted literal =>
    obtain rfl := Option.some.inj hp
    exact ⟨by simp [Payload.kind], by simp [Payload.kind], by simp [Payload.kind]⟩
  | operator o =>
    obtain rfl := Option.some.inj hp
    refine ⟨by simp [Payload.kind], fun o' ho => ?_, by simp [Payload.kind]⟩
    obtain rfl := TokenKind.operator.inj ho
    exact ⟨rfl, operator_of_read? h, not_mark_of_symbol h rfl⟩
  | punctuation q =>
    obtain rfl := Option.some.inj hp
    refine ⟨by simp [Payload.kind], by simp [Payload.kind], fun q' hq => ?_⟩
    obtain rfl := TokenKind.punctuation.inj hq
    exact ⟨rfl, punctuation_of_read? h⟩
  | _ => simp [payload?] at hp

end Lexeme

/-! ### Trivia -/

/-- **The span is a maximal run of blanks,** which no blank stands before or behind. -/
structure Source.HasMaximalBlanks (s : Source) (span : Span) (before run after : List Char) :
    Prop where
  cut : s.Cut span before run after
  blank : ∀ c ∈ run, isBlank c = true
  notBefore : ∀ c ∈ before.getLast?, isBlank c = false
  notBehind : ∀ c ∈ after.head?, isBlank c = false

/-- **The span is a run of blanks** that goes on as long as blanks do.  It need not be maximal:
a blank may stand before it, which then belongs to a comment up to the end of its line or to a
literal that is left open. -/
structure Source.HasBlanks (s : Source) (span : Span) (before run after : List Char) : Prop where
  cut : s.Cut span before run after
  ne_nil : run ≠ []
  longest : LongestFront (fun run => ∀ c ∈ run, isBlank c = true) (run ++ after) run
  before : ∀ c ∈ before.getLast?, isBlank c = true →
    (∃ t ∈ s.trivia, t.kind = .lineComment ∧ t.span.stop = span.start) ∨
      ∃ e ∈ s.errors, e.kind = .unterminatedString ∧ e.span.stop = span.start

/-- **The span is a comment up to the end of its line.** -/
structure Source.HasLineComment (s : Source) (span : Span) (before run after : List Char) :
    Prop where
  cut : s.Cut span before run after
  mark : ['/', '/'] <+: run
  inside : ∀ c ∈ run, c ≠ '\n' ∧ c ≠ '\r'
  next : ∀ c ∈ after.head?, c = '\n' ∨ c = '\r'

/-- Behind the longest run of a class no character of the class comes. -/
theorem LongestFront.not_next {p : Char → Bool} {run after : List Char}
    (h : LongestFront (fun run => ∀ c ∈ run, p c = true) (run ++ after) run) :
    ∀ c ∈ after.head?, p c = false := by
  intro c hc
  obtain ⟨cs, rfl⟩ := List.head?_eq_some_iff.1 hc
  refine Bool.eq_false_iff.2 fun hp => ?_
  have hall : ∀ d ∈ run ++ [c], p d = true :=
    List.forall_mem_append.2 ⟨h.holds, by simpa using hp⟩
  have hle := h.longest (run ++ [c]) hall ⟨cs, by simp⟩
  rw [List.length_append, List.length_singleton] at hle
  omega

namespace Lexeme

variable {text : List Char} {r : Reader} {l : Lexeme} {t : Trivia}

/-- What stands before a run of blanks ends with a blank only if it is a comment up to the end
of its line or a literal that is left open. -/
theorem of_isBlank_before_blanks {k : Lexeme} {c : Char} (hk : read? text = some k)
    (hl : read? (text.drop k.chars.length) = some l) (hblanks : l.isBlanks = true)
    (hc : c ∈ k.chars.getLast?) (hblank : isBlank c = true) :
    (∃ run, k = .lineComment run) ∨ ∃ literal, k = .quoted literal ∧ literal.closed = false := by
  obtain ⟨run, rfl⟩ := isBlanks_iff.1 hblanks
  obtain ⟨⟨d, hd, hblank'⟩, -⟩ := blanks_of_read? hl
  have htext := chars_append_drop hk
  rcases of_isBlank_getLast? hk hc hblank with h | h | h | h
  · -- a run of blanks would have gone on
    obtain ⟨run', rfl⟩ := isBlanks_iff.1 h
    have hlongest := (blanks_of_read? hk).2
    rw [← htext] at hlongest
    rw [LongestFront.not_next hlongest d hd] at hblank'
    simp at hblank'
  · -- what is left open leaves nothing
    rw [chars_of_isOpen hk h, List.drop_length] at hd
    simp at hd
  · exact Or.inl h
  · exact Or.inr h

/-- Trivia tells blanks and comments apart. -/
theorem exists_of_mem_trivia (ht : t ∈ l.trivia r) :
    (t.kind = .whitespace → ∃ run, l = .blanks run ∧ t.span = r.spanOver run.length) ∧
      (t.kind = .lineComment → ∃ run, l = .lineComment run ∧ t.span = r.spanOver run.length) := by
  cases hp : l.payload? with
  | some p =>
    rw [trivia_of_payload? hp] at ht
    split at ht
    · simp at ht
    · rw [List.mem_singleton.1 ht]
      exact ⟨by simp, by simp⟩
  | none =>
    cases l with
    | blanks run =>
      obtain rfl := List.mem_singleton.1 ht
      exact ⟨fun _ => ⟨run, rfl, Reader.spanSince_advanceBy _ _⟩, by simp⟩
    | lineComment run =>
      obtain rfl := List.mem_singleton.1 ht
      exact ⟨by simp, fun _ => ⟨run, rfl, Reader.spanSince_advanceBy _ _⟩⟩
    | blockComment run closed =>
      obtain rfl := List.mem_singleton.1 ht
      exact ⟨by simp, by simp⟩
    | unexpected c =>
      obtain rfl := List.mem_singleton.1 ht
      exact ⟨by simp, by simp⟩
    | _ => simp [payload?] at hp

end Lexeme

namespace Source

variable {s : Source} {r : Reader}

theorem hasBlanks {run : List Char} (hstep : (.blanks run, r) ∈ (Reader.ofSource s).steps) :
    ∃ before after, s.HasBlanks (r.spanOver run.length) before run after := by
  obtain ⟨-, hl, -⟩ := Reader.of_mem_steps hstep
  obtain ⟨hsource, before, hread⟩ := (Reader.standsIn_ofSource s).of_mem_steps hstep
  have hrest := (Lexeme.chars_append_drop hl).symm
  obtain ⟨⟨d, hd, -⟩, hlongest⟩ := Lexeme.blanks_of_read? hl
  refine ⟨before, _, hsource ▸ hread.cut hrest, Lexeme.chars_ne_nil_of_read? hl, ?_, ?_⟩
  · exact hrest ▸ hlongest
  · intro c hc hblank
    rcases Reader.eq_or_exists_step_before hstep with rfl | ⟨k, r', hstep', rfl⟩
    · have htext : s.text = before ++ s.text := hread.text
      obtain rfl : before = [] := by simpa using htext
      simp at hc
    · obtain ⟨-, hk, -⟩ := Reader.of_mem_steps hstep'
      obtain ⟨-, before', hread'⟩ := (Reader.standsIn_ofSource s).of_mem_steps hstep'
      have hbehind := hread'.advanceBy (Lexeme.chars_append_drop hk).symm
      obtain rfl : before = before' ++ k.chars :=
        List.append_cancel_right (hread.text.symm.trans hbehind.text)
      rw [List.getLast?_append_of_ne_nil _ (Lexeme.chars_ne_nil_of_read? hk)] at hc
      rw [Reader.rest_advanceBy] at hl
      rcases Lexeme.of_isBlank_before_blanks hk hl rfl hc hblank with
        ⟨run', rfl⟩ | ⟨literal, rfl, hclosed⟩
      · have ht : ⟨.lineComment, r'.spanOver run'.length⟩ ∈ s.trivia :=
          mem_trivia_of_mem_steps hstep' (List.mem_singleton.2 (by simp [Lexeme.chars]))
        exact Or.inl ⟨_, ht, rfl, rfl⟩
      · have he := Lexeme.mem_errors_iff.2 (.literal (r := r') hclosed)
        exact Or.inr ⟨_, mem_errors_of_mem_steps hstep' he, rfl, rfl⟩

theorem hasLineComment {run : List Char}
    (hstep : (.lineComment run, r) ∈ (Reader.ofSource s).steps) :
    ∃ before after, s.HasLineComment (r.spanOver run.length) before run after := by
  obtain ⟨-, hl, -⟩ := Reader.of_mem_steps hstep
  obtain ⟨rfl, before, hread⟩ := (Reader.standsIn_ofSource s).of_mem_steps hstep
  obtain ⟨hmark, hinside, after, hrest, hnext⟩ := Lexeme.lineComment_of_read? hl
  refine ⟨before, after, hread.cut hrest, hmark, fun c hc => ?_, fun c hc => ?_⟩
  · have hnone := hinside c hc
    rwa [← Bool.not_eq_true, isLineEnd_iff, not_or] at hnone
  · exact isLineEnd_iff.1 (hnext c hc)

end Source

/-! ### Unexpected characters -/

/-- **No sort of lexemes begins with the character.** -/
structure BeginsNothing (c : Char) : Prop where
  blank : isBlank c = false
  wordStart : isWordStart c = false
  digit : isDecimalDigit c = false
  quote : c ≠ '\x22' ∧ c ≠ '\x60'
  punctuation : ∀ p : Punctuation, p.char ≠ c
  operator : ∀ o : Operator, o.chars.head? ≠ some c

/-- The first character of an operator is an operator as well, or punctuation. -/
theorem Operator.exists_of_head? {o : Operator} {c : Char} (h : o.chars.head? = some c) :
    (∃ o' : Operator, o'.chars = [c]) ∨ ∃ p : Punctuation, p.char = c := by
  have hall : ∀ o ∈ all, (∃ o' ∈ all, some o'.chars = o.chars.head?.map fun c => [c]) ∨
      ∃ p ∈ Punctuation.all, some p.char = o.chars.head? := by decide +kernel
  rcases hall o o.mem_all with ⟨o', -, ho'⟩ | ⟨p, -, hp⟩
  · rw [h] at ho'
    exact Or.inl ⟨o', Option.some.inj ho'⟩
  · rw [h] at hp
    exact Or.inr ⟨p, Option.some.inj hp⟩

/-- **A character is unexpected exactly if it begins nothing,** whatever comes after it. -/
theorem Lexeme.read?_eq_unexpected_iff {c : Char} {cs : List Char} :
    read? (c :: cs) = some (.unexpected c) ↔ BeginsNothing c := by
  constructor
  · intro h
    obtain ⟨d, ds, hcons, hk, hl⟩ := exists_opening_of_kind? h rfl
    obtain ⟨rfl, rfl⟩ := List.cons.inj hcons
    obtain ⟨hoperator, hpunctuation, -⟩ := readSymbol_eq_unexpected_iff.1 hl.symm
    obtain ⟨hblank, hword, hdigit, hquote, -⟩ := Opening.ofChars_eq_symbol_iff.1 hk
    have hnone : ∀ p : Punctuation, p.char ≠ c := fun p hp => by
      rw [Punctuation.ofChar?_eq_some_iff.2 hp] at hpunctuation
      simp at hpunctuation
    refine ⟨hblank, hword, hdigit, not_or.1 hquote, hnone, fun o ho => ?_⟩
    rcases Operator.exists_of_head? ho with ⟨o', ho'⟩ | ⟨p, hp⟩
    · refine Operator.longest?_eq_none_iff.1 hoperator o' ?_
      rw [ho']
      exact ⟨cs, rfl⟩
    · exact hnone p hp
  · intro h
    -- the marks of comments begin with an operator
    have hslash : c ≠ '/' := fun hc => h.operator .divide (by rw [hc]; rfl)
    have hk : Opening.ofChars (some c) cs.head? = .lexeme .symbol :=
      Opening.ofChars_eq_symbol_iff.2 ⟨h.blank, h.wordStart, h.digit, not_or.2 h.quote,
        fun hc => hslash hc.1, fun hc => hslash hc.1⟩
    rw [read?_of_opening hk, ofKind]
    refine congrArg some (readSymbol_eq_unexpected_iff.2 ⟨?_, ?_, rfl⟩)
    · refine Operator.longest?_eq_none_iff.2 fun o ho => h.operator o ?_
      obtain ⟨ds, hds, -⟩ := (List.prefix_cons_iff.1 ho).resolve_left o.chars_ne_nil
      rw [hds]
      rfl
    · cases hp : Punctuation.ofChar? c with
      | none => rfl
      | some p => exact absurd (Punctuation.ofChar?_eq_some_iff.1 hp) (h.punctuation p)

namespace Source

variable {s : Source} {r : Reader} {c : Char}

/-- **Where a scan comes to a character** it is met by an error exactly if it begins nothing. -/
theorem mem_errors_iff_beginsNothing (h : s.Reaches r) (hc : c ∈ r.rest.head?) :
    (⟨.unexpectedCharacter, r.spanOver 1, none⟩ : LexError) ∈ s.errors ↔ BeginsNothing c := by
  obtain ⟨cs, hr⟩ := List.head?_eq_some_iff.1 hc
  obtain ⟨l, hl, hstep⟩ := h.exists_step (by simp [hr])
  rw [hr] at hl
  have hunexpected : Lexeme.read? (c :: cs) = some (.unexpected c) ↔ BeginsNothing c :=
    Lexeme.read?_eq_unexpected_iff
  rw [mem_errors_iff_of_span hstep rfl, ← hunexpected, hl, Lexeme.mem_errors_iff]
  constructor
  · intro he
    cases he with
    | @character d =>
      obtain ⟨ds, hd⟩ := Lexeme.isPrefix_chars_read? hl
      rw [(List.cons.inj hd).1]
  · intro heq
    obtain rfl := Option.some.inj heq
    exact .character

/-- An unexpected character begins nothing. -/
theorem exists_beginsNothing_of_mem_errors {e : LexError} (he : e ∈ s.errors)
    (hkind : e.kind = .unexpectedCharacter) :
    ∃ r c, s.Reaches r ∧ c ∈ r.rest.head? ∧ BeginsNothing c ∧
      e = ⟨.unexpectedCharacter, r.spanOver 1, none⟩ := by
  rw [errors_eq] at he
  obtain ⟨l, r, hstep, he⟩ := Reader.mem_ahead.1 he
  obtain ⟨-, hl, -⟩ := Reader.of_mem_steps hstep
  have hmalformed := Lexeme.mem_errors_iff.1 he
  cases hmalformed with
  | @character c =>
    have hrest := Lexeme.chars_append_drop hl
    rw [Lexeme.chars, List.singleton_append] at hrest
    rw [← hrest] at hl
    exact ⟨r, c, reaches_of_mem_steps hstep, by rw [← hrest]; rfl,
      Lexeme.read?_eq_unexpected_iff.1 hl, rfl⟩
  | _ => simp at hkind

end Source

/-- **Lexemes are the longest matches,** and what begins none is unexpected.  In a complete scan
of a unit

* the text of a word, an operator or a punctuation token is the longest match at its place, a
  word being a keyword exactly if all of it spells the keyword;
* trivia of blanks is a run that no blank stands behind, and none before it either, unless a
  comment up to the end of its line or an open literal ends there; a comment up to the end
  of its line takes all of the line from its mark on;
* where the scan comes to a character, an error reports it as unexpected exactly if no sort of
  lexemes begins with it, and there are no other such errors. -/
theorem lexemes_are_longest_matches (s : Source) :
    (∀ t ∈ s.tokens, ∃ before after, s.Cut t.span before t.text after ∧
        t.payload.IsLongest after) ∧
      (∀ t ∈ s.trivia, t.kind = .whitespace →
        ∃ before run after, s.HasBlanks t.span before run after) ∧
      (∀ t ∈ s.trivia, t.kind = .lineComment →
        ∃ before run after, s.HasLineComment t.span before run after) ∧
      (∀ r, s.Reaches r → ∀ c ∈ r.rest.head?,
        ((⟨.unexpectedCharacter, r.spanOver 1, none⟩ : LexError) ∈ s.errors ↔ BeginsNothing c)) ∧
      ∀ e ∈ s.errors, e.kind = .unexpectedCharacter →
        ∃ r c, s.Reaches r ∧ c ∈ r.rest.head? ∧ BeginsNothing c ∧
          e = ⟨.unexpectedCharacter, r.spanOver 1, none⟩ := by
  refine ⟨fun t ht => ?_, fun t ht hk => ?_, fun t ht hk => ?_,
    fun r hr c hc => Source.mem_errors_iff_beginsNothing hr hc,
    fun e he hk => Source.exists_beginsNothing_of_mem_errors he hk⟩
  · obtain ⟨l, r, p, -, hl, ⟨rfl, before, hread⟩, hp, rfl⟩ := Source.exists_step_of_mem_tokens ht
    have hrest := Lexeme.text_append_suffix hl hp
    exact ⟨before, _, hread.cut hrest, Lexeme.isLongest_of_payload? (hrest ▸ hl) hp⟩
  · obtain ⟨l, r, hstep, ht⟩ := Reader.mem_ahead.1 (s.trivia_eq ▸ ht)
    obtain ⟨run, rfl, hspan⟩ := (Lexeme.exists_of_mem_trivia ht).1 hk
    obtain ⟨before, after, hblanks⟩ := Source.hasBlanks hstep
    exact ⟨before, run, after, hspan ▸ hblanks⟩
  · obtain ⟨l, r, hstep, ht⟩ := Reader.mem_ahead.1 (s.trivia_eq ▸ ht)
    obtain ⟨run, rfl, hspan⟩ := (Lexeme.exists_of_mem_trivia ht).2 hk
    obtain ⟨before, after, hcomment⟩ := Source.hasLineComment hstep
    exact ⟨before, run, after, hspan ▸ hcomment⟩

/-- A comment takes the blanks at the end of its line, so the run of blanks that the line end
belongs to is cut. -/
theorem blanks_not_maximal :
    ¬ ∀ t ∈ (Source.ofString "a" "// \n").trivia, t.kind = .whitespace →
      ∃ before run after, (Source.ofString "a" "// \n").HasMaximalBlanks t.span before run after := by
  intro h
  have ht : (⟨.whitespace, ⟨⟨3, 1, 4⟩, ⟨4, 2, 1⟩, by decide⟩⟩ : Trivia) ∈
      (Source.ofString "a" "// \n").trivia := by decide +kernel
  obtain ⟨before, run, after, hblanks⟩ := h _ ht rfl
  have hbefore : Text.takeBytes? 3 ['/', '/', ' ', '\n'] = some before :=
    Text.takeBytes?_eq_some_iff.2 ⟨run ++ after, hblanks.cut.text, hblanks.cut.start.symm⟩
  obtain rfl : ['/', '/', ' '] = before := Option.some.inj (Eq.trans (by decide) hbefore)
  exact absurd (hblanks.notBefore ' ' (by decide)) (by decide)

end Lexis
