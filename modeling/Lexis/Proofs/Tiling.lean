/-
# Tokens and trivia tile the text

Nothing of a text is lost in a scan, and nothing is scanned twice.  Every lexeme
leaves spans that follow each other without a gap from where it begins to where
it ends (`Lexeme.tiles_pieces`), so the spans of all lexemes tile the text
(`Source.tiles_pieces`).  The tokens and the trivia of a scan are kept apart;
put together and sorted they are these spans, since spans that follow each
other have only one order (`mergeSort_eq_of_pairwise`).
-/

import Lexis.Proofs.Lexemes
import Mathlib.Data.List.Flatten
import Mathlib.Data.List.Perm.Basic

namespace Lexis

/-! ### Spans that follow each other -/

/-- The spans lead from the offset `start` to the offset `stop`: each begins where
the one before it ends, and none is empty. -/
def Tiles (start : Nat) : List Span → Nat → Prop
  | [], stop => start = stop
  | s :: ss, stop => s.start.offset = start ∧ s.isEmpty = false ∧ Tiles s.stop.offset ss stop

/-- One span begins and ends before the other begins. -/
def Span.Before (s t : Span) : Prop :=
  s.start.offset < t.start.offset ∧ s.stop.offset ≤ t.start.offset

/-- Whether one span begins before the other or where it does. -/
def Span.startsFirst (s t : Span) : Bool := decide (s.start.offset ≤ t.start.offset)

theorem Span.isEmpty_eq_false_iff {s : Span} :
    s.isEmpty = false ↔ s.start.offset < s.stop.offset := by
  have := s.ordered
  simp only [isEmpty, length, beq_eq_false_iff_ne]
  omega

theorem Tiles.append {a b c : Nat} {ss ts : List Span} (hs : Tiles a ss b) (ht : Tiles b ts c) :
    Tiles a (ss ++ ts) c := by
  induction ss generalizing a with
  | nil => obtain rfl : a = b := hs; exact ht
  | cons s ss ih => exact ⟨hs.1, hs.2.1, ih hs.2.2⟩

/-- Spans that follow each other lie between the two ends. -/
theorem Tiles.bounds {a b : Nat} {ss : List Span} (h : Tiles a ss b) :
    a ≤ b ∧ ∀ s ∈ ss, a ≤ s.start.offset ∧ s.start.offset < s.stop.offset ∧ s.stop.offset ≤ b := by
  induction ss generalizing a with
  | nil => exact ⟨Nat.le_of_eq h, by simp⟩
  | cons s ss ih =>
    obtain ⟨rfl, hempty, hrest⟩ := h
    obtain ⟨hle, hmem⟩ := ih hrest
    have hs := Span.isEmpty_eq_false_iff.1 hempty
    refine ⟨by omega, fun t ht => ?_⟩
    rcases List.mem_cons.1 ht with rfl | ht
    · omega
    · have := hmem t ht
      omega

/-- Spans that follow each other stand in source order. -/
theorem Tiles.pairwise {a b : Nat} {ss : List Span} (h : Tiles a ss b) :
    ss.Pairwise Span.Before := by
  induction ss generalizing a with
  | nil => exact List.Pairwise.nil
  | cons s ss ih =>
    obtain ⟨-, hempty, hrest⟩ := h
    have hs := Span.isEmpty_eq_false_iff.1 hempty
    refine List.pairwise_cons.2 ⟨fun t ht => ?_, ih hrest⟩
    have := hrest.bounds.2 t ht
    exact ⟨by omega, this.1⟩

/-- Of spans in source order two that begin at one offset are the same. -/
theorem Span.eq_of_start_eq {ss : List Span} (h : ss.Pairwise Span.Before) {s t : Span}
    (hs : s ∈ ss) (ht : t ∈ ss) (hst : s.start.offset = t.start.offset) : s = t := by
  refine List.Pairwise.forall_of_forall_of_flip
    (R := fun s t : Span => s.start.offset = t.start.offset → s = t)
    (fun _ _ _ => rfl) (h.imp fun hb heq => ?_) (h.imp fun hb heq => ?_) hs ht hst
  · exact absurd heq (Nat.ne_of_lt hb.1)
  · exact absurd heq.symm (Nat.ne_of_lt hb.1)

/-- Spans that can be arranged in source order are so when they are sorted by their start. -/
theorem mergeSort_eq_of_pairwise {ss ts : List Span} (h : ts.Pairwise Span.Before)
    (hp : ss.Perm ts) : ss.mergeSort Span.startsFirst = ts := by
  have hsorted : (ss.mergeSort Span.startsFirst).Pairwise (Span.startsFirst · ·) := by
    apply List.pairwise_mergeSort
    · intro s t u hst htu
      simp only [Span.startsFirst, decide_eq_true_eq] at *
      omega
    · intro s t
      simp only [Span.startsFirst, Bool.or_eq_true, decide_eq_true_eq]
      omega
  have hts : ts.Pairwise (Span.startsFirst · ·) :=
    h.imp fun hb => decide_eq_true (Nat.le_of_lt hb.1)
  have hperm := (List.mergeSort_perm ss Span.startsFirst).trans hp
  refine List.Perm.eq_of_pairwise (fun s t hs ht hst hts => ?_) hsorted hts hperm
  simp only [Span.startsFirst, decide_eq_true_eq] at hst hts
  exact Span.eq_of_start_eq h (hperm.subset hs) ht (Nat.le_antisymm hst hts)

/-! ### The spans of a lexeme -/

namespace Lexeme

/-- The spans of what the lexeme before the reader leaves in the text. -/
def pieces (l : Lexeme) (r : Reader) : List Span :=
  (l.tokens r).map Token.span ++ (l.trivia r).map Trivia.span

end Lexeme

/-- The span of some characters that stand before the reader leads over them. -/
theorem Reader.tiles_spanOver {r : Reader} {run after : List Char} (hr : r.rest = run ++ after)
    (hne : run ≠ []) :
    Tiles r.position.offset [r.spanOver run.length] (r.advanceBy run.length).position.offset := by
  refine ⟨rfl, Span.isEmpty_eq_false_iff.2 ?_, rfl⟩
  have := Text.byteLength_pos hne
  simp only [spanOver, advanceBy_length hr, Position.offset_advanceOver]
  omega

/-- **A lexeme leaves no gap:** its spans lead from where it begins to where it
ends. -/
theorem Lexeme.tiles_pieces {r : Reader} {l : Lexeme} (h : read? r.rest = some l) :
    Tiles r.position.offset (l.pieces r) (r.advanceBy l.chars.length).position.offset := by
  cases hp : l.payload? with
  | none =>
    obtain ⟨kind, ht⟩ := trivia_of_payload?_eq_none hp
    rw [pieces, tokens_eq, hp, ht]
    exact Reader.tiles_spanOver (chars_append_drop h).symm (chars_ne_nil_of_read? h)
  | some p =>
    have hchars := chars_of_payload? hp
    have htoken := text_append_suffix h hp
    have hfirst := Reader.tiles_spanOver htoken (text_payload?_ne_nil h hp)
    rw [pieces, tokens_eq, hp, trivia_of_payload? hp, hchars, List.length_append,
      Reader.advanceBy_add]
    split
    · rename_i hs
      rw [hs]
      exact hfirst
    · rename_i hs
      have hsuffix : (r.advanceBy p.text.length).rest =
          l.suffix ++ r.rest.drop l.chars.length := by
        rw [Reader.advanceBy_length htoken]
      exact hfirst.append (Reader.tiles_spanOver hsuffix hs)

/-- A trivia ends with its lexeme or before. -/
theorem Lexeme.stop_le_of_mem_trivia {r : Reader} {l : Lexeme} (h : read? r.rest = some l)
    {t : Trivia} (ht : t ∈ l.trivia r) :
    t.span.stop.offset ≤ (r.advanceBy l.chars.length).position.offset := by
  have hpiece : t.span ∈ l.pieces r := List.mem_append_right _ (List.mem_map_of_mem ht)
  exact ((tiles_pieces h).bounds.2 _ hpiece).2.2

namespace Reader

/-- **The lexemes ahead of a reader tile the rest of the text.** -/
theorem tiles_ahead (r : Reader) :
    Tiles r.position.offset (r.ahead Lexeme.pieces) r.toEnd.position.offset := by
  induction r using byLexemes with
  | atEnd r hr =>
    rw [ahead_of_rest_eq_nil _ hr, toEnd_eq_self hr]
    exact rfl
  | lexeme r l hl ih =>
    rw [ahead_of_read? _ hl]
    exact (Lexeme.tiles_pieces hl).append (toEnd_of_read? hl ▸ ih)

end Reader

/-! ### Places and texts -/

/-- All steps of a reader are made in the unit that it stands in. -/
theorem Reader.StandsIn.of_mem_steps {s : Source} {r r' : Reader} {l : Lexeme} (h : r.StandsIn s)
    (hstep : (l, r') ∈ r.steps) : r'.StandsIn s := by
  obtain ⟨-, -, n, rfl⟩ := Reader.of_mem_steps hstep
  exact h.advanceBy n

/-- Every token of a unit is made of a lexeme, and it covers the characters of its text. -/
theorem Source.exists_step_of_mem_tokens {s : Source} {t : Token} (ht : t ∈ s.tokens) :
    ∃ l r p, (l, r) ∈ (Reader.ofSource s).steps ∧ Lexeme.read? r.rest = some l ∧
      r.StandsIn s ∧ l.payload? = some p ∧ t = ⟨p, r.spanOver p.text.length⟩ := by
  rw [tokens_eq] at ht
  obtain ⟨l, r, hstep, ht⟩ := Reader.mem_ahead.1 ht
  rw [Lexeme.tokens_eq, Option.mem_toList, Option.map_eq_some_iff] at ht
  obtain ⟨p, hp, rfl⟩ := ht
  exact ⟨l, r, p, hstep, (Reader.of_mem_steps hstep).2.1,
    (Reader.standsIn_ofSource s).of_mem_steps hstep, hp, rfl⟩

/-- The lexeme of an integer consists of the mark of the radix and a run of digits, and of what
is attached. -/
theorem Source.exists_step_of_integer {s : Source} {t : Token} (ht : t ∈ s.tokens)
    {text : List Char} {radix : Radix} {value : Nat}
    (hpayload : t.payload = .integer text radix value) :
    ∃ run suffix r, (.number ⟨radix, run, none, none⟩ suffix, r) ∈ (Reader.ofSource s).steps ∧
      text = radix.mark ++ run ∧ value = min (radix.valueOf run) Numeral.maxInteger ∧
      t.span = r.spanOver text.length := by
  obtain ⟨l, r, p, hstep, -, -, hp, rfl⟩ := exists_step_of_mem_tokens ht
  obtain rfl : p = .integer text radix value := hpayload
  obtain ⟨⟨radix', run, fraction, exponent⟩, suffix, rfl, hn⟩ := Lexeme.makes_of_payload? hp
  cases fraction with
  | some _ => simp [Payload.ofNumeral, Numeral.isFloat] at hn
  | none =>
    cases exponent with
    | some _ => simp [Payload.ofNumeral, Numeral.isFloat] at hn
    | none =>
      obtain ⟨rfl, rfl, rfl⟩ := Payload.integer.inj hn
      exact ⟨run, suffix, r, hstep, Numeral.chars_marked radix run, rfl, rfl⟩

namespace Lexeme

/-- A token stands in the text where its span says. -/
theorem slice?_of_mem_tokens {s : Source} {r : Reader} {l : Lexeme} (hr : r.StandsIn s)
    (hl : read? r.rest = some l) {t : Token} (ht : t ∈ l.tokens r) :
    s.slice? t.span = some t.text := by
  rw [tokens_eq, Option.mem_toList, Option.map_eq_some_iff] at ht
  obtain ⟨p, hp, rfl⟩ := ht
  exact hr.slice? (text_append_suffix hl hp)

theorem locates_of_mem_tokens {s : Source} {r : Reader} {l : Lexeme} (hr : r.StandsIn s)
    {t : Token} (ht : t ∈ l.tokens r) : s.Locates t.span := by
  rw [tokens_eq, Option.mem_toList, Option.map_eq_some_iff] at ht
  obtain ⟨p, hp, rfl⟩ := ht
  exact hr.locates _

theorem locates_of_mem_trivia {s : Source} {r : Reader} {l : Lexeme} (hr : r.StandsIn s)
    {t : Trivia} (ht : t ∈ l.trivia r) : s.Locates t.span := by
  cases hp : l.payload? with
  | none =>
    obtain ⟨kind, hk⟩ := trivia_of_payload?_eq_none hp
    rw [hk, List.mem_singleton] at ht
    exact ht ▸ hr.locates _
  | some p =>
    rw [trivia_of_payload? hp] at ht
    split at ht
    · simp at ht
    · rw [List.mem_singleton] at ht
      exact ht ▸ (hr.advanceBy _).locates _

theorem locates_of_mem_errors {s : Source} {r : Reader} {l : Lexeme} (hr : r.StandsIn s)
    {e : LexError} (he : e ∈ l.errors r) : s.Locates e.span := by
  cases mem_errors_iff.1 he with
  | attached h => exact (hr.advanceBy _).locates _
  | escape hunits h => exact ((hr.advanceBy _).advanceBy _).locates _
  | _ => exact hr.locates _

end Lexeme

/-! ### Complete scans -/

/-- The end of the input stands after all tokens. -/
theorem Tiles.pairwise_concat {a b : Nat} {ss : List Span} {t : Span} (h : Tiles a ss b)
    (ht : t.start.offset = b) {ts : List Span} (hts : ts.Sublist ss) :
    (ts ++ [t]).Pairwise Span.Before := by
  refine List.pairwise_append.2 ⟨h.pairwise.sublist hts, List.pairwise_singleton _ _, ?_⟩
  intro s hs u hu
  obtain rfl := List.mem_singleton.1 hu
  have := h.bounds.2 s (hts.subset hs)
  exact ⟨by omega, by omega⟩

namespace Source

variable (s : Source)

theorem offset_toEnd : (Reader.ofSource s).toEnd.position.offset = s.size :=
  ((Reader.standsIn_ofSource s).advanceBy _).offset_eq_size (Reader.ofSource s).rest_toEnd

/-- **The lexemes of a text tile it.** -/
theorem tiles_pieces : Tiles 0 ((Reader.ofSource s).ahead Lexeme.pieces) s.size :=
  s.offset_toEnd ▸ (Reader.ofSource s).tiles_ahead

/-- What the lexemes leave are the tokens and the trivia, in another order. -/
theorem perm_pieces :
    (s.tokens.map Token.span ++ s.trivia.map Trivia.span).Perm
      ((Reader.ofSource s).ahead Lexeme.pieces) := by
  rw [tokens_eq, trivia_eq, Reader.ahead, Reader.ahead, List.map_flatMap, List.map_flatMap]
  exact List.flatMap_append_perm _ _ _

theorem tokens_sublist_pieces :
    (s.tokens.map Token.span).Sublist ((Reader.ofSource s).ahead Lexeme.pieces) := by
  rw [tokens_eq, Reader.ahead, List.map_flatMap]
  exact List.Sublist.flatMap_right _ fun _ _ => List.sublist_append_left _ _

theorem trivia_sublist_pieces :
    (s.trivia.map Trivia.span).Sublist ((Reader.ofSource s).ahead Lexeme.pieces) := by
  rw [trivia_eq, Reader.ahead, List.map_flatMap]
  exact List.Sublist.flatMap_right _ fun _ _ => List.sublist_append_right _ _

variable {s}

/-- Tokens, the end of the input included, lie between places of the text. -/
theorem locates_of_mem_scan {t : Token} (ht : t ∈ s.scan.1) : s.Locates t.span := by
  have hs := Reader.standsIn_ofSource s
  rw [scan_fst, List.mem_append, tokens_eq] at ht
  rcases ht with ht | ht
  · obtain ⟨l, r, hstep, ht⟩ := Reader.mem_ahead.1 ht
    exact Lexeme.locates_of_mem_tokens (hs.of_mem_steps hstep) ht
  · obtain rfl := List.mem_singleton.1 ht
    have hend : (Reader.ofSource s).toEnd.StandsIn s := hs.advanceBy _
    exact ⟨hend.positionAt, hend.positionAt⟩

theorem locates_of_mem_trivia {t : Trivia} (ht : t ∈ s.trivia) : s.Locates t.span := by
  rw [trivia_eq] at ht
  obtain ⟨l, r, hstep, ht⟩ := Reader.mem_ahead.1 ht
  exact Lexeme.locates_of_mem_trivia ((Reader.standsIn_ofSource s).of_mem_steps hstep) ht

theorem locates_of_mem_errors {e : LexError} (he : e ∈ s.errors) : s.Locates e.span := by
  rw [errors_eq] at he
  obtain ⟨l, r, hstep, he⟩ := Reader.mem_ahead.1 he
  exact Lexeme.locates_of_mem_errors ((Reader.standsIn_ofSource s).of_mem_steps hstep) he

end Source

/-- **A scan is lossless.**  After a complete scan of a source unit

* the spans of the tokens and of the trivia, sorted by their start, follow each
  other from the start to the end of the text without a gap, none of them empty;
* each token stands in the text at its span, and the end of the input comes last,
  empty, at the end of the text;
* the ends of every span, that of an error included, are the positions that the
  table gives for their offsets;
* the tokens and the trivia stand in source order. -/
theorem scan_tiles_text (s : Source) :
    s.scan.2.finished = true ∧
      Tiles 0 ((s.tokens.map Token.span ++ s.trivia.map Trivia.span).mergeSort Span.startsFirst)
        s.size ∧
      (∀ t ∈ s.tokens, s.slice? t.span = some t.text) ∧
      (∃ p, s.scan.1 = s.tokens ++ [Token.endOfInput p] ∧ p.offset = s.size) ∧
      ((∀ t ∈ s.scan.1, s.Locates t.span) ∧ (∀ t ∈ s.trivia, s.Locates t.span) ∧
        ∀ e ∈ s.errors, s.Locates e.span) ∧
      (s.scan.1.map Token.span).Pairwise Span.Before ∧
      (s.trivia.map Trivia.span).Pairwise Span.Before := by
  refine ⟨by rw [Source.scan_eq], ?_, ?_, ⟨_, s.scan_fst, s.offset_toEnd⟩,
    ⟨fun _ => Source.locates_of_mem_scan, fun _ => Source.locates_of_mem_trivia,
      fun _ => Source.locates_of_mem_errors⟩,
    ?_, s.tiles_pieces.pairwise.sublist s.trivia_sublist_pieces⟩
  · rw [mergeSort_eq_of_pairwise s.tiles_pieces.pairwise s.perm_pieces]
    exact s.tiles_pieces
  · intro t ht
    rw [Source.tokens_eq] at ht
    obtain ⟨l, r, hstep, ht⟩ := Reader.mem_ahead.1 ht
    exact Lexeme.slice?_of_mem_tokens ((Reader.standsIn_ofSource s).of_mem_steps hstep)
      (Reader.of_mem_steps hstep).2.1 ht
  · rw [Source.scan_fst, List.map_append]
    exact s.tiles_pieces.pairwise_concat s.offset_toEnd s.tokens_sublist_pieces

end Lexis
