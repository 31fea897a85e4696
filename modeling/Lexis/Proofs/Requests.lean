/-
# A scan request by request

A request moves a scan on.  Its reader passes some of the text, at least one
character if a token of the text is found (`Reader.offset_lt_seek`), and what it
meets lies where it passes (`Reader.bounds_of_mem_errors_seek`).  That every request
is answered is in the definition of `Reader.seek`, which ends because each lexeme
shortens the text ahead (`Reader.length_rest_advanceBy_lt`).

`Scan.StandsIn` is what stays true of a scan of a unit however often it is asked:
what it has met, followed by what is ahead of its reader, is what a complete scan
meets.  Such a scan answers with what its reader finds, whether it is finished or
not (`Scan.StandsIn.next_eq`), since a finished one stands at the end of the text.

A complete scan is made of the requests up to the first one that is answered with
the end of the input (`Scan.exists_run_eq`).  Since every token and every trivia
takes a character of its own (`Reader.length_ahead_le`), this answer does not keep
one waiting (`requests_progress`).
-/

import Lexis.Proofs.Anchors
import Lexis.Proofs.Feeds

namespace Lexis

/-! ### One request -/

namespace Reader

/-- A request passes some of the characters before the reader. -/
theorem exists_advanceBy_seek (r : Reader) :
    ∃ n ≤ r.rest.length, r.seek.reader = r.advanceBy n := by
  induction r using byLexemes with
  | atEnd r hr =>
    refine ⟨0, Nat.zero_le _, ?_⟩
    rw [seek_of_rest_eq_nil hr]
    rfl
  | lexeme r l hl ih =>
    have hlen := (Lexeme.isPrefix_chars_read? hl).length_le
    cases ht : l.token? r with
    | some t =>
      refine ⟨l.chars.length, hlen, ?_⟩
      rw [seek_of_token? hl ht]
    | none =>
      obtain ⟨n, hn, hseek⟩ := ih
      rw [rest_advanceBy, List.length_drop] at hn
      refine ⟨l.chars.length + n, by omega, ?_⟩
      rw [seek_of_token?_eq_none hl ht, advanceBy_add]
      exact hseek

theorem offset_le_seek (r : Reader) : r.position.offset ≤ r.seek.reader.position.offset := by
  obtain ⟨n, -, hseek⟩ := r.exists_advanceBy_seek
  rw [hseek]
  exact r.offset_le_advanceBy n

/-- **A request that finds a token of the text moves on.** -/
theorem offset_lt_seek {r : Reader} (h : r.seek.token.isEnd = false) :
    r.position.offset < r.seek.reader.position.offset := by
  obtain ⟨n, hn, hseek⟩ := r.exists_advanceBy_seek
  have hlt := r.length_rest_seek.2 h
  rw [hseek, rest_advanceBy, List.length_drop] at hlt
  rw [hseek]
  have hpos : 0 < n := by omega
  exact offset_advanceBy_lt hpos (by omega)

/-- **The errors of a request** lie in the text that it passes. -/
theorem bounds_of_mem_errors_seek {r : Reader} {e : LexError} (he : e ∈ r.seek.errors) :
    r.position.offset ≤ e.span.start.offset ∧
      e.span.stop.offset ≤ r.seek.reader.position.offset := by
  induction r using byLexemes with
  | atEnd r hr =>
    rw [seek_of_rest_eq_nil hr] at he
    simp at he
  | lexeme r l hl ih =>
    cases ht : l.token? r with
    | some t =>
      rw [seek_of_token? hl ht] at he ⊢
      obtain ⟨hstart, -, hstop⟩ := Lexeme.bounds_of_mem_errors hl he
      exact ⟨hstart, hstop⟩
    | none =>
      rw [seek_of_token?_eq_none hl ht] at he ⊢
      rcases List.mem_append.1 he with he | he
      · obtain ⟨hstart, -, hstop⟩ := Lexeme.bounds_of_mem_errors hl he
        exact ⟨hstart, Nat.le_trans hstop (offset_le_seek _)⟩
      · obtain ⟨hstart, hstop⟩ := ih he
        exact ⟨Nat.le_trans (r.offset_le_advanceBy _) hstart, hstop⟩

/-- **The trivia of a request** lie in the text that it passes. -/
theorem stop_le_of_mem_trivia_seek {r : Reader} {t : Trivia} (ht : t ∈ r.seek.trivia) :
    t.span.stop.offset ≤ r.seek.reader.position.offset := by
  induction r using byLexemes with
  | atEnd r hr =>
    rw [seek_of_rest_eq_nil hr] at ht
    simp at ht
  | lexeme r l hl ih =>
    cases htoken : l.token? r with
    | some _ =>
      rw [seek_of_token? hl htoken] at ht ⊢
      exact Lexeme.stop_le_of_mem_trivia hl ht
    | none =>
      rw [seek_of_token?_eq_none hl htoken] at ht ⊢
      rcases List.mem_append.1 ht with ht | ht
      · exact Nat.le_trans (Lexeme.stop_le_of_mem_trivia hl ht) (offset_le_seek _)
      · exact ih ht

/-- **A request finds the token of a lexeme** `l`, which the reader `r` comes by at `r'`.
What it meets on the way lies before `r'`. -/
structure SeeksTo (r r' : Reader) (l : Lexeme) (p : Payload) : Prop where
  /-- The lexeme is read at `r'`. -/
  read : Lexeme.read? r'.rest = some l
  /-- It makes the token. -/
  payload : l.payload? = some p
  /-- The reader comes by there. -/
  ahead : ∃ n, r' = r.advanceBy n
  /-- The token is the one found. -/
  token : r.seek.token = ⟨p, r'.spanOver p.text.length⟩
  /-- The request ends behind the lexeme. -/
  reader : r.seek.reader = r'.advanceBy l.chars.length
  /-- The errors of the lexeme come last. -/
  errors : ∃ passed, r.seek.errors = passed ++ l.errors r' ∧
    ∀ e ∈ passed, e.span.stop.offset ≤ r'.position.offset
  /-- So do its trivia. -/
  trivia : ∃ passed, r.seek.trivia = passed ++ l.trivia r' ∧
    ∀ t ∈ passed, t.span.stop.offset ≤ r'.position.offset

/-- **A request that finds a token of the text** finds that of a lexeme. -/
theorem exists_seeksTo {r : Reader} (h : r.seek.token.isEnd = false) :
    ∃ r' l p, r.SeeksTo r' l p := by
  induction r using byLexemes with
  | atEnd r hr =>
    rw [seek_of_rest_eq_nil hr] at h
    simp at h
  | lexeme r l hl ih =>
    cases ht : l.token? r with
    | some t =>
      have hseek := seek_of_token? hl ht
      obtain ⟨p, hp, rfl⟩ := Option.map_eq_some_iff.1 ht
      refine ⟨r, l, p, hl, hp, ⟨0, rfl⟩, ?_, by rw [hseek], ⟨[], by rw [hseek]; rfl, by simp⟩,
        ⟨[], by rw [hseek]; rfl, by simp⟩⟩
      rw [hseek, spanSince_advanceBy]
    | none =>
      have hseek := seek_of_token?_eq_none hl ht
      rw [hseek] at h
      obtain ⟨r', k, p, hfound⟩ := ih h
      obtain ⟨n, hn⟩ := hfound.ahead
      obtain ⟨es, hes, hebefore⟩ := hfound.errors
      obtain ⟨ts, hts, htbefore⟩ := hfound.trivia
      have hle : (r.advanceBy l.chars.length).position.offset ≤ r'.position.offset :=
        hn ▸ offset_le_advanceBy _ n
      refine ⟨r', k, p, hfound.read, hfound.payload, ⟨_, hn.trans (advanceBy_add _ n r).symm⟩,
        by rw [hseek]; exact hfound.token, by rw [hseek]; exact hfound.reader, ?_, ?_⟩
      · refine ⟨l.errors r ++ es, ?_, List.forall_mem_append.2 ⟨fun e he => ?_, hebefore⟩⟩
        · rw [hseek, Found.after, hes, List.append_assoc]
        · exact Nat.le_trans (Lexeme.bounds_of_mem_errors hl he).2.2 hle
      · refine ⟨l.trivia r ++ ts, ?_, List.forall_mem_append.2 ⟨fun t ht => ?_, htbefore⟩⟩
        · rw [hseek, Found.after, hts, List.append_assoc]
        · exact Nat.le_trans (Lexeme.stop_le_of_mem_trivia hl ht) hle

end Reader

/-! ### What requests keep -/

/-- **The scan is one of the unit,** somewhere on its way through the text. -/
structure Scan.StandsIn (scan : Scan) (s : Source) : Prop where
  /-- The reader stands in the unit. -/
  reader : scan.reader.StandsIn s
  /-- No lexeme has been begun. -/
  mode : scan.mode = .between
  /-- What is finished has nothing left to read. -/
  rest_of_finished : scan.finished = true → scan.reader.rest = []
  /-- The errors met and those ahead are the errors of the unit. -/
  errors : scan.errors ++ scan.reader.ahead Lexeme.errors = s.errors
  /-- The trivia met and those ahead are the trivia of the unit. -/
  trivia : scan.trivia ++ scan.reader.ahead Lexeme.trivia = s.trivia

namespace Scan

variable {scan : Scan} {s : Source}

@[simp] theorem reader_record (f : Found) : (scan.record f).reader = f.reader := rfl

@[simp] theorem mode_record (f : Found) : (scan.record f).mode = f.mode := rfl

@[simp] theorem errors_record (f : Found) :
    (scan.record f).errors = scan.errors ++ f.errors := rfl

@[simp] theorem trivia_record (f : Found) :
    (scan.record f).trivia = scan.trivia ++ f.trivia := rfl

@[simp] theorem finished_record (f : Found) : (scan.record f).finished = f.token.isEnd := rfl

@[simp] theorem position_record (f : Found) : (scan.record f).position = f.reader.position := rfl

theorem standsIn_ofSource (s : Source) : (ofSource s).StandsIn s where
  reader := Reader.standsIn_ofSource s
  mode := rfl
  rest_of_finished h := by simp [ofSource] at h
  errors := s.errors_eq.symm
  trivia := s.trivia_eq.symm

/-- A request is answered with what the reader finds, and it is recorded; of a
finished scan this changes nothing. -/
theorem StandsIn.next_eq (h : scan.StandsIn s) :
    scan.next = (scan.reader.seek.token, scan.record scan.reader.seek) := by
  cases hf : scan.finished with
  | false => exact next_of_not_finished hf
  | true =>
    have hmode := h.mode
    obtain ⟨reader, mode, errors, trivia, finished⟩ := scan
    obtain rfl : mode = .between := hmode
    obtain rfl : finished = true := hf
    rw [next_of_finished rfl, Reader.seek_of_rest_eq_nil (h.rest_of_finished rfl)]
    simp [record, position]

/-- **No request leads out of the unit.** -/
theorem StandsIn.next (h : scan.StandsIn s) : scan.next.2.StandsIn s := by
  obtain ⟨-, herrors, htrivia, -⟩ := scan.reader.ahead_seek
  obtain ⟨n, -, hseek⟩ := scan.reader.exists_advanceBy_seek
  rw [h.next_eq]
  constructor
  · rw [reader_record, hseek]
    exact h.reader.advanceBy n
  · rw [mode_record, Reader.mode_seek]
  · rw [finished_record, reader_record]
    intro hend
    rw [(Reader.seek_of_isEnd hend).2, Reader.rest_toEnd]
  · rw [errors_record, reader_record, ← h.errors, herrors, List.append_assoc]
  · rw [trivia_record, reader_record, ← h.trivia, htrivia, List.append_assoc]

theorem StandsIn.after (h : scan.StandsIn s) (n : Nat) : (scan.after n).StandsIn s := by
  induction n generalizing scan with
  | zero => exact h
  | succ n ih => exact ih h.next

/-- **A complete scan** is made of the requests up to the first one that is answered
with the end of the input. -/
theorem exists_run_eq (scan : Scan) :
    ∃ k, (∀ j < k, (scan.after j).next.1.isEnd = false) ∧ (scan.after k).next.1.isEnd = true ∧
      scan.run = ((List.range (k + 1)).map fun j => (scan.after j).next.1, scan.after (k + 1)) := by
  induction hn : scan.reader.rest.length using Nat.strongRecOn generalizing scan with
  | ind n ih =>
    cases hend : scan.next.1.isEnd with
    | true => exact ⟨0, by simp, hend, run_of_isEnd hend⟩
    | false =>
      obtain ⟨k, hbefore, hk, hrun⟩ := ih _ (hn ▸ length_rest_next_lt hend) scan.next.2 rfl
      refine ⟨k + 1, fun j hj => ?_, hk, ?_⟩
      · cases j with
        | zero => exact hend
        | succ j => exact hbefore j (by omega)
      · have hrange : List.range (k + 1 + 1) = 0 :: (List.range (k + 1)).map Nat.succ :=
          List.range_succ_eq_map
        rw [run_of_not_isEnd hend, hrun, hrange, List.map_cons, List.map_map]
        rfl

end Scan

namespace Source

variable (s : Source) (k : Nat)

theorem standsIn_scanAfter : (s.scanAfter k).StandsIn s := (Scan.standsIn_ofSource s).after k

/-- The answer to a request is the token that the reader finds. -/
theorem request_eq : s.request k = (s.scanAfter k).reader.seek.token := by
  rw [request, (s.standsIn_scanAfter k).next_eq]

/-- A request records what the reader finds. -/
theorem scanAfter_succ :
    s.scanAfter (k + 1) = (s.scanAfter k).record (s.scanAfter k).reader.seek := by
  have hnext := s.next_scanAfter k
  rw [(s.standsIn_scanAfter k).next_eq] at hnext
  exact (Prod.ext_iff.1 hnext).2.symm

/-- The scan is finished by the answer that is the end of the input. -/
theorem finished_scanAfter_succ : (s.scanAfter (k + 1)).finished = (s.request k).isEnd := by
  rw [scanAfter_succ, request_eq, Scan.finished_record]

theorem position_scanAfter_succ :
    (s.scanAfter (k + 1)).position = (s.scanAfter k).reader.seek.reader.position := by
  rw [scanAfter_succ, Scan.position_record]

/-- **No trivia that has been met** ends behind the place reached. -/
theorem stop_le_of_mem_trivia_scanAfter {t : Trivia} (ht : t ∈ (s.scanAfter k).trivia) :
    t.span.stop.offset ≤ (s.scanAfter k).position.offset := by
  induction k with
  | zero => simp [scanAfter, Scan.after, Scan.ofSource] at ht
  | succ k ih =>
    rw [position_scanAfter_succ]
    rw [scanAfter_succ, Scan.trivia_record, List.mem_append] at ht
    rcases ht with ht | ht
    · exact Nat.le_trans (ih ht) (Reader.offset_le_seek _)
    · exact Reader.stop_le_of_mem_trivia_seek ht

/-- Of a finished scan every further request is answered alike and changes nothing. -/
theorem request_of_finished {n : Nat} (h : (s.scanAfter n).finished = true) (m : Nat) :
    s.request (n + m) = Token.endOfInput (s.scanAfter n).position ∧
      s.scanAfter (n + m) = s.scanAfter n := by
  have hscan : s.scanAfter (n + m) = s.scanAfter n :=
    (Scan.after_add n m _).trans (Scan.after_of_finished h m)
  refine ⟨?_, hscan⟩
  rw [request, hscan, Scan.next_of_finished h]

/-- **The end of the input** stands where the text ends, and the scan has got there. -/
theorem request_of_isEnd (h : (s.request k).isEnd = true) :
    s.request k = Token.endOfInput (s.scanAfter (k + 1)).position ∧
      (s.scanAfter (k + 1)).position.offset = s.size ∧
      s.positionAt s.size = .ok (s.scanAfter (k + 1)).position := by
  have hstands := (s.standsIn_scanAfter (k + 1)).reader
  rw [request_eq] at h
  obtain ⟨htoken, hreader⟩ := Reader.seek_of_isEnd h
  have hposition : (s.scanAfter (k + 1)).position = (s.scanAfter k).reader.toEnd.position := by
    rw [position_scanAfter_succ, hreader]
  have hrest : (s.scanAfter (k + 1)).reader.rest = [] := by
    rw [scanAfter_succ, Scan.reader_record, hreader, Reader.rest_toEnd]
  have hsize : (s.scanAfter (k + 1)).position.offset = s.size := hstands.offset_eq_size hrest
  refine ⟨?_, hsize, ?_⟩
  · rw [request_eq, htoken, hposition]
  · rw [← hsize]
    exact hstands.positionAt

/-- **A complete scan** is made of the requests for its tokens and of the one after them,
which is the first that is answered with the end of the input. -/
theorem scan_eq_requests :
    s.scan = ((List.range (s.tokens.length + 1)).map s.request,
        s.scanAfter (s.tokens.length + 1)) ∧
      (∀ j < s.tokens.length, (s.request j).isEnd = false) ∧
      (s.request s.tokens.length).isEnd = true := by
  obtain ⟨k, hbefore, hk, hrun⟩ := (Scan.ofSource s).exists_run_eq
  have hlength : s.scan.1.length = k + 1 := by
    rw [scan, hrun, List.length_map, List.length_range]
  rw [scan_fst, List.length_append, List.length_singleton] at hlength
  obtain rfl : s.tokens.length = k := Nat.succ_injective hlength
  exact ⟨hrun, hbefore, hk⟩

end Source

/-! ### How many pieces a text has -/

/-- A lexeme has a character for each token and each trivia that it leaves. -/
theorem Lexeme.length_tokens_add_trivia_le {text : List Char} {l : Lexeme}
    (hl : read? text = some l) (r : Reader) :
    (l.tokens r).length + (l.trivia r).length ≤ l.chars.length := by
  have hpos := List.length_pos_iff.2 (chars_ne_nil_of_read? hl)
  cases hp : l.payload? with
  | none =>
    obtain ⟨kind, ht⟩ := trivia_of_payload?_eq_none hp
    rw [tokens_eq, hp, ht]
    exact hpos
  | some p =>
    have htext := List.length_pos_iff.2 (text_payload?_ne_nil hl hp)
    rw [tokens_eq, hp, trivia_of_payload? hp, chars_of_payload? hp, List.length_append]
    split
    · exact Nat.le_trans htext (Nat.le_add_right _ _)
    · rename_i hsuffix
      exact Nat.add_le_add htext (List.length_pos_iff.2 hsuffix)

/-- **There are no more tokens and trivia ahead than characters.** -/
theorem Reader.length_ahead_le (r : Reader) :
    (r.ahead Lexeme.tokens).length + (r.ahead Lexeme.trivia).length ≤ r.rest.length := by
  induction r using byLexemes with
  | atEnd r hr => simp [ahead_of_rest_eq_nil _ hr]
  | lexeme r l hl ih =>
    have hpieces := Lexeme.length_tokens_add_trivia_le hl r
    have hlen := (Lexeme.isPrefix_chars_read? hl).length_le
    rw [rest_advanceBy, List.length_drop] at ih
    rw [ahead_of_read? _ hl, ahead_of_read? _ hl, List.length_append, List.length_append]
    omega

/-- **Every scan makes progress and comes to rest.**  Of the requests of a scan

* the first one that is answered with the end of the input has a number `k` that is,
  together with the trivia met by then, at most the number of characters;
* none leaves the scan inside a lexeme;
* one that is answered with another token moves the scan on and does not finish it;
* one that is answered with the end of the input leaves the scan finished and at the
  end of the text, where its token stands, and every later one is answered alike and
  leaves the scan as it is. -/
theorem requests_progress (s : Source) :
    (∃ k, k + (s.scanAfter (k + 1)).trivia.length ≤ s.text.length ∧
        (s.request k).isEnd = true ∧ ∀ j < k, (s.request j).isEnd = false) ∧
      (∀ k, (s.scanAfter k).mode = .between) ∧
      (∀ k, (s.request k).isEnd = false →
        (s.scanAfter k).position.offset < (s.scanAfter (k + 1)).position.offset ∧
          (s.scanAfter (k + 1)).finished = false) ∧
      ∀ k, (s.request k).isEnd = true →
        (s.scanAfter (k + 1)).position.offset = s.size ∧
          (s.scanAfter (k + 1)).finished = true ∧
          (∃ p, s.positionAt s.size = .ok p ∧ s.request k = Token.endOfInput p) ∧
          ∀ j, k < j → s.request j = s.request k ∧ s.scanAfter (j + 1) = s.scanAfter (k + 1) := by
  refine ⟨?_, fun k => (s.standsIn_scanAfter k).mode, fun k h => ⟨?_, ?_⟩, fun k h => ?_⟩
  · obtain ⟨hscan, hbefore, hend⟩ := s.scan_eq_requests
    have hle := (Reader.ofSource s).length_ahead_le
    rw [← s.tokens_eq, ← s.trivia_eq, Source.trivia, hscan] at hle
    exact ⟨s.tokens.length, hle, hend, hbefore⟩
  · rw [s.position_scanAfter_succ]
    exact Reader.offset_lt_seek (s.request_eq k ▸ h)
  · rw [s.finished_scanAfter_succ, h]
  · have hfinished : (s.scanAfter (k + 1)).finished = true := by rw [s.finished_scanAfter_succ, h]
    obtain ⟨htoken, hoffset, hposition⟩ := s.request_of_isEnd k h
    refine ⟨hoffset, hfinished, ⟨_, hposition, htoken⟩, fun j hj => ?_⟩
    obtain ⟨m, rfl⟩ := Nat.exists_eq_add_of_le (Nat.succ_le_of_lt hj)
    obtain ⟨hrequest, -⟩ := s.request_of_finished hfinished m
    obtain ⟨-, hscan⟩ := s.request_of_finished hfinished (m + 1)
    exact ⟨hrequest.trans htoken.symm, hscan⟩

end Lexis
