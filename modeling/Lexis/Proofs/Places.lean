/-
# Places between lexemes

A request begins between two lexemes, and it is there again behind every lexeme that makes no
token (`Reader.ComesBy`).  The places by which the requests of a scan come in this way are
those where a lexeme of the text begins, and the end of the text (`Source.Reaches.exists_step`,
`Source.reaches_of_mem_steps`).  What the scan leaves inside such a lexeme is what the lexeme
leaves (`Source.tokensWithin_eq`, `Source.triviaWithin_eq`, `Source.errorsWithin_eq`).
-/

import Lexis.Proofs.Requests

namespace Lexis

/-- **A request comes by a place between two lexemes:** where it begins, and behind each
lexeme that makes no token. -/
inductive Reader.ComesBy (r : Reader) : Reader → Prop
  | here : ComesBy r r
  | behind {r' : Reader} {l : Lexeme} (h : ComesBy r r') (hl : Lexeme.read? r'.rest = some l)
      (hp : l.payload? = none) : ComesBy r (r'.advanceBy l.chars.length)

/-- **A scan of the unit reaches a place between two lexemes,** in some request. -/
def Source.Reaches (s : Source) (r : Reader) : Prop := ∃ k, (s.scanAfter k).reader.ComesBy r

namespace Reader

variable {r r' : Reader} {l : Lexeme}

/-- What is ahead of a place that a request comes by was ahead of the request. -/
theorem ComesBy.steps_suffix (h : r.ComesBy r') : r'.steps <:+ r.steps := by
  induction h with
  | here => exact List.suffix_rfl
  | behind _ hl _ ih =>
    rw [steps_of_read? hl] at ih
    exact (List.suffix_cons _ _).trans ih

/-- A request goes on from behind a lexeme that makes no token. -/
theorem ComesBy.cons (hl : Lexeme.read? r.rest = some l) (hp : l.payload? = none)
    (h : (r.advanceBy l.chars.length).ComesBy r') : r.ComesBy r' := by
  induction h with
  | here => exact .behind .here hl hp
  | behind _ hl' hp' ih => exact ih.behind hl' hp'

theorem steps_seek_suffix (r : Reader) : r.seek.reader.steps <:+ r.steps := by
  induction r using byLexemes with
  | atEnd r hr => simp only [seek_of_rest_eq_nil hr, List.suffix_rfl]
  | lexeme r l hl ih =>
    rw [steps_of_read? hl]
    cases ht : l.token? r with
    | some t =>
      rw [seek_of_token? hl ht]
      exact List.suffix_cons _ _
    | none =>
      rw [seek_of_token?_eq_none hl ht]
      exact ih.trans (List.suffix_cons _ _)

/-- **A request comes by every place** up to the one that it leads to. -/
theorem comesBy_or_mem_steps_seek (h : (l, r') ∈ r.steps) :
    r.ComesBy r' ∨ (l, r') ∈ r.seek.reader.steps := by
  induction r using byLexemes with
  | atEnd r hr => simp [steps_of_rest_eq_nil hr] at h
  | lexeme r k hk ih =>
    rw [steps_of_read? hk] at h
    rcases List.mem_cons.1 h with h | h
    · obtain rfl := (Prod.mk.inj h).2
      exact Or.inl .here
    · cases ht : k.token? r with
      | some t =>
        rw [seek_of_token? hk ht]
        exact Or.inr h
      | none =>
        rw [seek_of_token?_eq_none hk ht]
        exact (ih h).imp_left (ComesBy.cons hk (Option.map_eq_none_iff.1 ht))

end Reader

namespace Source

variable {s : Source} {r : Reader} {l : Lexeme}

theorem steps_scanAfter_suffix (s : Source) (k : Nat) :
    (s.scanAfter k).reader.steps <:+ (Reader.ofSource s).steps := by
  induction k with
  | zero => exact List.suffix_rfl
  | succ k ih =>
    rw [scanAfter_succ, Scan.reader_record]
    exact (Reader.steps_seek_suffix _).trans ih

/-- **Where a scan gets to before the end of the text** a lexeme begins. -/
theorem Reaches.exists_step (h : s.Reaches r) (hr : r.rest ≠ []) :
    ∃ l, Lexeme.read? r.rest = some l ∧ (l, r) ∈ (Reader.ofSource s).steps := by
  obtain ⟨k, hk⟩ := h
  cases hl : Lexeme.read? r.rest with
  | none => exact absurd (Lexeme.read?_eq_none_iff.1 hl) hr
  | some l =>
    have hsuffix := hk.steps_suffix.trans (s.steps_scanAfter_suffix k)
    rw [Reader.steps_of_read? hl] at hsuffix
    exact ⟨l, rfl, hsuffix.subset List.mem_cons_self⟩

/-- **A scan gets to every place** where a lexeme begins. -/
theorem reaches_of_mem_steps (h : (l, r) ∈ (Reader.ofSource s).steps) : s.Reaches r := by
  -- the lexeme is ahead of the scan until a request comes by it
  suffices hahead : ∀ n k, (s.scanAfter k).reader.rest.length = n →
      (l, r) ∈ (s.scanAfter k).reader.steps → s.Reaches r from hahead _ 0 rfl h
  intro n
  induction n using Nat.strongRecOn with
  | ind n ih =>
    intro k hn hstep
    rcases Reader.comesBy_or_mem_steps_seek hstep with hby | hbehind
    · exact ⟨k, hby⟩
    · have hend : (s.scanAfter k).reader.seek.token.isEnd = false := by
        rw [← Bool.not_eq_true]
        intro hend
        rw [(Reader.seek_of_isEnd hend).2, Reader.steps_of_rest_eq_nil (Reader.rest_toEnd _)]
          at hbehind
        simp at hbehind
      have hshorter := (s.scanAfter k).reader.length_rest_seek.2 hend
      have hnext : (s.scanAfter (k + 1)).reader = (s.scanAfter k).reader.seek.reader := by
        rw [scanAfter_succ, Scan.reader_record]
      exact ih _ (hn ▸ hshorter) (k + 1) (by rw [hnext]) (hnext ▸ hbehind)

/-- The tokens of the unit that begin inside the span. -/
def tokensWithin (s : Source) (span : Span) : List Token :=
  s.tokens.filter fun t => t.span.beginsIn span.start.offset span.stop.offset

/-- The trivia of the unit that begin inside the span. -/
def triviaWithin (s : Source) (span : Span) : List Trivia :=
  s.trivia.filter fun t => t.span.beginsIn span.start.offset span.stop.offset

theorem tokensWithin_eq (hstep : (l, r) ∈ (Reader.ofSource s).steps) :
    s.tokensWithin (r.spanOver l.chars.length) = l.tokens r := by
  rw [tokensWithin, tokens_eq]
  exact Reader.filter_ahead Lexeme.leavesInside_tokens hstep

theorem triviaWithin_eq (hstep : (l, r) ∈ (Reader.ofSource s).steps) :
    s.triviaWithin (r.spanOver l.chars.length) = l.trivia r := by
  rw [triviaWithin, trivia_eq]
  exact Reader.filter_ahead Lexeme.leavesInside_trivia hstep

end Source

end Lexis
