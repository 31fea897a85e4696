/-
# How numeric literals are found

A request that is answered with a number has passed the longest numeral that the grammar
allows at its place, and behind it the longest front of what can be attached to a number
(`numbers_are_longest_matches`).  So nothing that goes on with the number comes next, and
what is attached is reported once, as an error and as skipped.

The request comes by the number last (`Reader.SeeksTo`): all that it and the requests before
it have met ends where the number begins, which tells it from what belongs to the number.
-/

import Lexis.Proofs.Numerals.Grammar
import Lexis.Proofs.Detection

namespace Lexis

/-- A token that is a number is made of a numeral. -/
theorem Lexeme.exists_number_of_kind {l : Lexeme} {p : Payload} (hp : l.payload? = some p)
    (hkind : p.kind = .integerLiteral ∨ p.kind = .floatLiteral) :
    ∃ numeral suffix, l = .number numeral suffix ∧ p = .ofNumeral numeral := by
  cases p with
  | integer text radix value => exact makes_of_payload? hp
  | float text value => exact makes_of_payload? hp
  | _ => simp [Payload.kind] at hkind

/-- A number is a floating-point number if the numeral has a fraction or an exponent, and else
an integer of its radix. -/
theorem Payload.class_ofNumeral (n : Numeral) :
    if n.isFloat then (ofNumeral n).kind = .floatLiteral
    else ∃ value, ofNumeral n = .integer n.chars n.radix value := by
  rw [ofNumeral]
  split
  · rfl
  · exact ⟨_, rfl⟩

/-- Behind the longest front of what can be attached comes no character of a word, and no
point with a decimal digit. -/
theorem LongestFront.attached_next {suffix after : List Char}
    (h : LongestFront Attached (suffix ++ after) suffix) :
    (∀ c ∈ after.head?, isWordChar c = false) ∧
      ∀ d cs, after = '.' :: d :: cs → isDecimalDigit d = false := by
  refine ⟨fun c hc => ?_, ?_⟩
  · obtain ⟨cs, rfl⟩ := List.head?_eq_some_iff.1 hc
    refine Bool.eq_false_iff.2 fun hword => ?_
    have hnil : [c] = [] := h.not_attached rfl (.word hword .nil)
    exact List.cons_ne_nil _ _ hnil
  · rintro d cs rfl
    refine Bool.eq_false_iff.2 fun hdigit => ?_
    have hnil : ['.', d] = [] := h.not_attached rfl (.point hdigit .nil)
    exact List.cons_ne_nil _ _ hnil

/-- **How a request finds a number:** the text before the number, what is attached to it, and
the text that comes next. -/
structure Source.FindsNumber (s : Source) (k : Nat) (before suffix after : List Char) : Prop where
  /-- The number stands in the text with these parts around it. -/
  text : s.text = before ++ ((s.request k).text ++ (suffix ++ after))
  /-- Its span begins behind what stands before. -/
  start : (s.request k).span.start.offset = Text.byteLength before
  /-- Its span ends with the number. -/
  stop : (s.request k).span.stop.offset = Text.byteLength (before ++ (s.request k).text)
  /-- The number is as long as it can be. -/
  numeral : LongestFront IsNumeral ((s.request k).text ++ (suffix ++ after)) (s.request k).text
  /-- Its class and its radix are those of the numeral, which belongs to the grammar in one
  way only. -/
  kind : ∃ radix float, NumeralText radix float (s.request k).text ∧
    (∀ radix' float', NumeralText radix' float' (s.request k).text →
      radix' = radix ∧ float' = float) ∧
    if float then (s.request k).kind = .floatLiteral
    else ∃ value, (s.request k).payload = .integer (s.request k).text radix value
  /-- What is attached is as long as it can be. -/
  attached : LongestFront Attached (suffix ++ after) suffix
  /-- The request has passed what is attached. -/
  rest : (s.scanAfter (k + 1)).reader.rest = after
  /-- No character of a word comes next, and no point with a decimal digit. -/
  next : (∀ c ∈ after.head?, isWordChar c = false) ∧
    ∀ d cs, after = '.' :: d :: cs → isDecimalDigit d = false
  /-- What is attached is an error, and the only one behind the number. -/
  errors : ((s.scanAfter (k + 1)).errors.filter fun e =>
      decide ((s.request k).span.stop.offset ≤ e.span.start.offset)).map
        (fun e => (e.kind, e.span.start, e.span.stop)) =
    if suffix = [] then [] else [(.invalidNumericLiteral, (s.request k).span.stop,
      (s.scanAfter (k + 1)).position)]
  /-- It is skipped, and nothing else behind the number is trivia. -/
  trivia : ((s.scanAfter (k + 1)).trivia.filter fun t =>
      decide ((s.request k).span.stop.offset ≤ t.span.start.offset)).map
        (fun t => (t.kind, t.span.start, t.span.stop)) =
    if suffix = [] then [] else [(.skipped, (s.request k).span.stop,
      (s.scanAfter (k + 1)).position)]

namespace Lexeme

variable {numeral : Numeral} {suffix : List Char} {r : Reader}

/-- **A number that is read** is the longest match of the grammar, and its suffix is the longest
front of what can be attached to it. -/
theorem longest_of_number {text : List Char} (hl : read? text = some (.number numeral suffix)) :
    NumeralText numeral.radix numeral.isFloat numeral.chars ∧
      LongestFront IsNumeral text numeral.chars ∧
      ∃ after, text = numeral.chars ++ (suffix ++ after) ∧
        LongestFront Attached (suffix ++ after) suffix := by
  obtain ⟨⟨c, cs, rfl, hc⟩, rfl, hsuffix⟩ := number_of_read? hl
  have htext := text_append_suffix hl rfl
  rw [Payload.text_ofNumeral, Lexeme.suffix] at htext
  refine ⟨Numeral.numeralText_read hc cs, Numeral.longestFront_read hc cs, _, htext, ?_⟩
  have hbehind := congrArg (List.drop (Numeral.read (c :: cs)).chars.length) htext
  rw [List.drop_left] at hbehind
  have hlongest := Numeral.longestFront_malformedSuffix
    ((c :: cs).drop (Numeral.read (c :: cs)).chars.length)
  rwa [← hsuffix, hbehind] at hlongest

/-- A number goes on behind its place. -/
theorem offset_lt_of_number (hl : read? r.rest = some (.number numeral suffix)) :
    r.position.offset < (r.advanceBy numeral.chars.length).position.offset := by
  have htext := text_append_suffix hl rfl
  have hne := text_payload?_ne_nil hl rfl
  rw [Payload.text_ofNumeral] at htext hne
  have hpos := Text.byteLength_pos hne
  rw [Reader.offset_advanceBy_length htext]
  omega

/-- Behind the numeral a number has the error of its suffix only. -/
theorem filter_errors_number (hl : read? r.rest = some (.number numeral suffix)) :
    ((number numeral suffix).errors r).filter (fun e =>
        decide ((r.advanceBy numeral.chars.length).position.offset ≤ e.span.start.offset)) =
      if suffix = [] then [] else [⟨.invalidNumericLiteral,
        (r.advanceBy numeral.chars.length).spanOver suffix.length,
        some (Recovered.ofPayload (.ofNumeral numeral))⟩] := by
  have hlt := Nat.not_le_of_lt (offset_lt_of_number hl)
  have hstart : (r.spanOver numeral.chars.length).start = r.position := rfl
  have hbehind : ((r.advanceBy numeral.chars.length).spanOver suffix.length).start =
      (r.advanceBy numeral.chars.length).position := rfl
  rw [errors_number, List.filter_append]
  split <;> split <;> simp [hstart, hbehind, hlt]

/-- Behind the numeral a number leaves its suffix. -/
theorem filter_trivia_number :
    ((number numeral suffix).trivia r).filter (fun t =>
        decide ((r.advanceBy numeral.chars.length).position.offset ≤ t.span.start.offset)) =
      if suffix = [] then [] else [⟨.skipped,
        (r.advanceBy numeral.chars.length).spanOver suffix.length⟩] := by
  have hbehind : ((r.advanceBy numeral.chars.length).spanOver suffix.length).start =
      (r.advanceBy numeral.chars.length).position := rfl
  rw [trivia_of_payload? rfl, Payload.text_ofNumeral, Lexeme.suffix]
  split <;> simp [hbehind]

end Lexeme

/-- Of what ends before an offset and what comes after it, only the latter begins behind the
offset. -/
theorem filter_append_of_stop_lt {α : Type} {f : α → Span} {n : Nat} {passed more : List α}
    (h : ∀ x ∈ passed, (f x).stop.offset < n) :
    (passed ++ more).filter (fun x => decide (n ≤ (f x).start.offset)) =
      more.filter fun x => decide (n ≤ (f x).start.offset) := by
  have hnone : ∀ x ∈ passed, ¬ decide (n ≤ (f x).start.offset) = true := fun x hx => by
    have hlt := h x hx
    have hle := (f x).ordered
    rw [decide_eq_true_eq]
    omega
  rw [List.filter_append, List.filter_eq_nil_iff.2 hnone, List.nil_append]

namespace Source

variable {s : Source} {k : Nat} {r : Reader} {l : Lexeme} {p : Payload} {n : Nat}

/-- **A request that is answered with a number** comes by it last. -/
theorem exists_number_of_request (s : Source) {k : Nat} (h : (s.request k).IsNumber) :
    ∃ r numeral suffix, r.StandsIn s ∧
      (s.scanAfter k).reader.SeeksTo r (.number numeral suffix) (.ofNumeral numeral) ∧
      s.request k = ⟨.ofNumeral numeral, r.spanOver numeral.chars.length⟩ := by
  have hend : (s.scanAfter k).reader.seek.token.isEnd = false := by
    rw [← s.request_eq]
    rcases h with h | h <;> rw [Token.isEnd, h] <;> rfl
  obtain ⟨r, l, p, hfound⟩ := Reader.exists_seeksTo hend
  have hrequest := (s.request_eq k).trans hfound.token
  obtain ⟨numeral, suffix, rfl, rfl⟩ :=
    Lexeme.exists_number_of_kind hfound.payload (by rw [hrequest] at h; exact h)
  rw [Payload.text_ofNumeral] at hrequest
  obtain ⟨n, hn⟩ := hfound.ahead
  exact ⟨r, numeral, suffix, hn ▸ (s.standsIn_scanAfter k).reader.advanceBy n, hfound, hrequest⟩

/-- What is met up to the lexeme of a request ends where the lexeme begins. -/
theorem position_scanAfter_le (h : (s.scanAfter k).reader.SeeksTo r l p) :
    (s.scanAfter k).position.offset ≤ r.position.offset := by
  obtain ⟨m, hm⟩ := h.ahead
  rw [hm]
  exact Reader.offset_le_advanceBy _ m

/-- **The errors met behind a place** inside the lexeme that a request finds are errors of the
lexeme. -/
theorem filter_errors_scanAfter_succ (h : (s.scanAfter k).reader.SeeksTo r l p)
    (hn : r.position.offset < n) :
    (s.scanAfter (k + 1)).errors.filter (fun e => decide (n ≤ e.span.start.offset)) =
      (l.errors r).filter fun e => decide (n ≤ e.span.start.offset) := by
  obtain ⟨passed, hpassed, hbefore⟩ := h.errors
  have hle := position_scanAfter_le h
  rw [errors_scanAfter_succ, hpassed, ← List.append_assoc]
  refine filter_append_of_stop_lt (f := LexError.span) (List.forall_mem_append.2 ⟨?_, ?_⟩)
  · intro e he
    have hstop := s.stop_le_of_mem_errors_scanAfter k he
    omega
  · exact fun e he => Nat.lt_of_le_of_lt (hbefore e he) hn

/-- **The trivia met behind a place** inside the lexeme that a request finds are trivia of the
lexeme. -/
theorem filter_trivia_scanAfter_succ (h : (s.scanAfter k).reader.SeeksTo r l p)
    (hn : r.position.offset < n) :
    (s.scanAfter (k + 1)).trivia.filter (fun t => decide (n ≤ t.span.start.offset)) =
      (l.trivia r).filter fun t => decide (n ≤ t.span.start.offset) := by
  obtain ⟨passed, hpassed, hbefore⟩ := h.trivia
  have hle := position_scanAfter_le h
  rw [scanAfter_succ, Scan.trivia_record, hpassed, ← List.append_assoc]
  refine filter_append_of_stop_lt (f := Trivia.span) (List.forall_mem_append.2 ⟨?_, ?_⟩)
  · intro t ht
    have hstop := s.stop_le_of_mem_trivia_scanAfter k ht
    omega
  · exact fun t ht => Nat.lt_of_le_of_lt (hbefore t ht) hn

end Source

/-- **Numbers are the longest matches of the grammar.**  A request that is answered with a
number has taken for it the longest front of the text in the grammar of numerals, which is a
floating-point number exactly if it has a fraction or an exponent, and an integer of the
radix that it is marked with otherwise.  Behind it the request has passed the longest front
that can be attached to a number.  If that is not empty, one error and one stretch of skipped
text tell of it, both over all of it, and none otherwise. -/
theorem numbers_are_longest_matches (s : Source) (k : Nat) (h : (s.request k).IsNumber) :
    ∃ before suffix after, s.FindsNumber k before suffix after := by
  obtain ⟨r, numeral, suffix, ⟨hsource, before, hread⟩, hfound, hrequest⟩ :=
    s.exists_number_of_request h
  obtain ⟨hnum, hlongest, after, hrest, hattached⟩ := Lexeme.longest_of_number hfound.read
  have hbehind := Lexeme.offset_lt_of_number hfound.read
  have hchars : (s.request k).text = numeral.chars := by
    rw [hrequest]
    exact Payload.text_ofNumeral numeral
  have hspan : (s.request k).span = r.spanOver numeral.chars.length := by rw [hrequest]
  have hstop : (s.request k).span.stop = (r.advanceBy numeral.chars.length).position := by
    rw [hspan]
    rfl
  have hposition : (s.scanAfter (k + 1)).position =
      ((r.advanceBy numeral.chars.length).advanceBy suffix.length).position := by
    rw [s.position_scanAfter_succ, hfound.reader, ← Reader.advanceBy_add, Lexeme.chars,
      List.length_append]
  exact ⟨before, suffix, after, {
    text := by
      rw [hchars, ← hrest, ← hsource]
      exact hread.text
    start := by
      rw [hspan]
      exact hread.offset
    stop := by
      rw [hstop, hchars, Text.byteLength_append, ← hread.offset]
      exact Reader.offset_advanceBy_length hrest
    numeral := by
      rw [hchars, ← hrest]
      exact hlongest
    kind := by
      rw [hchars]
      refine ⟨_, _, hnum, fun _ _ h' => hnum.unique h', ?_⟩
      rw [hrequest]
      exact Payload.class_ofNumeral numeral
    attached := hattached
    rest := by
      rw [Source.scanAfter_succ, Scan.reader_record, hfound.reader]
      exact Reader.rest_advanceBy_length (hrest.trans (List.append_assoc _ _ _).symm)
    next := hattached.attached_next
    errors := by
      rw [hstop, hposition, Source.filter_errors_scanAfter_succ hfound hbehind,
        Lexeme.filter_errors_number hfound.read]
      split <;> rfl
    trivia := by
      rw [hstop, hposition, Source.filter_trivia_scanAfter_succ hfound hbehind,
        Lexeme.filter_trivia_number]
      split <;> rfl }⟩

/-- The numeral ends before the digit that its radix has not, and the rest of the word and the
fraction behind it are attached. -/
theorem numbers_are_longest_matches_attached :
    ((Source.ofString "a" "x 0b1_02.5y .").request 1).payload = .integer "0b1_0".toList .binary 2 ∧
      (((Source.ofString "a" "x 0b1_02.5y .").scanAfter 2).errors.map
        fun e => (e.kind, e.span.start.offset, e.span.stop.offset)) =
        [(.invalidNumericLiteral, 7, 11)] ∧
      ∃ before suffix after,
        (Source.ofString "a" "x 0b1_02.5y .").FindsNumber 1 before suffix after :=
  ⟨by decide +kernel, by decide +kernel,
    numbers_are_longest_matches _ 1 (Or.inl (by decide +kernel))⟩

end Lexis
