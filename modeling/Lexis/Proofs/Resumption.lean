/-
# A scan keeps nothing in mind

A scan that is under way could be dropped and begun anew over the text that is left:
it would find the same tokens, errors and trivia, all of them at the places that they
have in the whole text (`scan_resumes`).  So nothing but its position and the text
ahead of it tells a scan what to do next.

The places are those of a text of its own put down at the position reached: its first
line goes on in the line that the position stands on, and the lines after it keep
their columns (`Relocation.startAt`).  A reader of that text and one that has reached
the position take related positions from there on (`Reader.movedTo_startAt`).  What a
request finds depends on no more than that (`Reader.MovedTo.seek`), and so the two
scans stay related request by request (`Scan.Resumes.next`).
-/

import Lexis.Proofs.Relocation
import Lexis.Proofs.Requests

namespace Lexis

/-! ### Texts put down at a position -/

/-- The positions of a text that begins at the position `p` of another text.  On its
first line the columns are counted on from `p`, on all others they stay as they are. -/
def Relocation.startAt (p : Position) : Relocation where
  place q := ⟨q.offset + p.offset, q.line + p.line - 1,
    if q.line = 1 then q.column + p.column - 1 else q.column⟩
  mono h := Nat.add_le_add_right h p.offset

/-- Lines and columns are counted from one. -/
def Position.IsCounted (p : Position) : Prop := 1 ≤ p.line ∧ 1 ≤ p.column

theorem Position.IsCounted.advance {p : Position} (h : p.IsCounted) (c : Char)
    (next : Option Char) : (p.advance c next).IsCounted := by
  unfold Position.advance
  split
  · exact ⟨Nat.le_add_left 1 _, Nat.le_refl 1⟩
  · exact ⟨h.1, Nat.le_add_left 1 _⟩

namespace Relocation

variable (p : Position)

@[simp] theorem place_start : (startAt p).place Position.start = p := by
  simp [startAt, Position.start, Nat.add_comm 1]

/-- **Putting a text down and reading a character of it** can be done in either order. -/
theorem commutes_startAt : (startAt p).Commutes Position.IsCounted where
  keeps h := h.advance
  advance := by
    intro q ⟨hline, hcolumn⟩ c next
    have hoffset : q.offset + p.offset + c.utf8Size = q.offset + c.utf8Size + p.offset := by omega
    simp only [startAt, Position.advance, hoffset]
    split
    · -- the character ends its line, and the next one is not the first
      have hlines : q.line + p.line - 1 + 1 = q.line + 1 + p.line - 1 := by omega
      have hnext : q.line + 1 ≠ 1 := by omega
      simp only [hlines, hnext, if_false]
    · split
      · have hcolumns : q.column + p.column - 1 + 1 = q.column + 1 + p.column - 1 := by omega
        simp only [hcolumns]
      · rfl

end Relocation

/-! ### Readers of the same text at two places -/

namespace Reader

/-- The reader `r'` has the text of `r` ahead, and over it the positions of `r` moved
by `m`. -/
structure MovedTo (m : Relocation) (r r' : Reader) : Prop where
  /-- The same text is ahead. -/
  rest : r'.rest = r.rest
  /-- The positions over it are moved. -/
  follows : Follows m r.rest.length r r'

variable {m : Relocation} {r r' : Reader}

theorem MovedTo.position (h : MovedTo m r r') : r'.position = m.place r.position :=
  h.follows 0 (Nat.zero_le _)

theorem MovedTo.advanceBy (h : MovedTo m r r') {n : Nat} (hn : n ≤ r.rest.length) :
    MovedTo m (r.advanceBy n) (r'.advanceBy n) := by
  constructor
  · rw [rest_advanceBy, rest_advanceBy, h.rest]
  · rw [rest_advanceBy, List.length_drop]
    apply Follows.advanceBy
    rw [Nat.add_sub_cancel' hn]
    exact h.follows

/-- **A reader goes on** as one that begins the text ahead, put down at its position. -/
theorem movedTo_startAt {t : Source} (h : t.text = r.rest) :
    (ofSource t).MovedTo (Relocation.startAt r.position) r where
  rest := h.symm
  follows k _ := position_advanceBy_of_commutes (Relocation.commutes_startAt r.position) h.symm
    ⟨Nat.le_refl 1, Nat.le_refl 1⟩ (Relocation.place_start r.position).symm k

/-- **A request finds the same elsewhere,** and it leads to the same text ahead. -/
theorem MovedTo.seek (h : MovedTo m r r') :
    r'.seek.token = m.token r.seek.token ∧ r'.seek.errors = r.seek.errors.map m.error ∧
      r'.seek.trivia = r.seek.trivia.map m.trivia ∧ MovedTo m r.seek.reader r'.seek.reader := by
  induction r using byLexemes generalizing r' with
  | atEnd r hr =>
    rw [seek_of_rest_eq_nil hr, seek_of_rest_eq_nil (h.rest.trans hr), h.position]
    exact ⟨rfl, rfl, rfl, h⟩
  | lexeme r l hl ih =>
    have hl' : Lexeme.read? r'.rest = some l := h.rest.symm ▸ hl
    have hlen := (Lexeme.isPrefix_chars_read? hl).length_le
    have hfollows := h.follows.mono hlen
    have hnext := h.advanceBy hlen
    have htoken := Lexeme.token?_of_follows hfollows
    have herrors := Lexeme.movable_errors.follows hfollows
    have htrivia := Lexeme.trivia_of_follows hfollows
    cases ht : l.token? r with
    | some t =>
      rw [ht] at htoken
      rw [seek_of_token? hl ht, seek_of_token? hl' htoken]
      exact ⟨rfl, herrors, htrivia, hnext⟩
    | none =>
      rw [ht] at htoken
      rw [seek_of_token?_eq_none hl ht, seek_of_token?_eq_none hl' htoken]
      obtain ⟨hfound, hbehind, hskipped, hreader⟩ := ih hnext
      refine ⟨hfound, ?_, ?_, hreader⟩
      · simp only [Found.after, List.map_append, herrors, hbehind]
      · simp only [Found.after, List.map_append, htrivia, hskipped]

end Reader

/-! ### Scans that go on -/

/-- The scan `scan'` has gone on from `before` as the scan `scan` has from the start of
its text, which is moved by `m`. -/
structure Scan.Resumes (m : Relocation) (before scan scan' : Scan) : Prop where
  /-- The same text is ahead of both scans. -/
  reader : scan.reader.MovedTo m scan'.reader
  /-- The errors are met once more. -/
  errors : scan'.errors = before.errors ++ scan.errors.map m.error
  /-- So are the trivia. -/
  trivia : scan'.trivia = before.trivia ++ scan.trivia.map m.trivia

/-- **One request** is answered alike by both scans and keeps them related. -/
theorem Scan.Resumes.next {m : Relocation} {before scan scan' : Scan} {s t : Source}
    (h : Resumes m before scan scan') (hscan : scan.StandsIn t) (hscan' : scan'.StandsIn s) :
    scan'.next.1 = m.token scan.next.1 ∧ Resumes m before scan.next.2 scan'.next.2 := by
  obtain ⟨htoken, herrors, htrivia, hreader⟩ := h.reader.seek
  rw [hscan.next_eq, hscan'.next_eq]
  refine ⟨htoken, hreader, ?_, ?_⟩
  · simp only [errors_record, h.errors, herrors, List.map_append, List.append_assoc]
  · simp only [trivia_record, h.trivia, htrivia, List.map_append, List.append_assoc]

namespace Source

variable (s : Source) (k : Nat)

/-- **Any number of requests** keeps a scan related to one of the text ahead. -/
theorem resumes_scanAfter {t : Source} (ht : t.text = (s.scanAfter k).reader.rest) (j : Nat) :
    Scan.Resumes (Relocation.startAt (s.scanAfter k).position) (s.scanAfter k) (t.scanAfter j)
      (s.scanAfter (k + j)) := by
  induction j with
  | zero => exact ⟨Reader.movedTo_startAt ht, (List.append_nil _).symm, (List.append_nil _).symm⟩
  | succ j ih =>
    have hnext := (ih.next (t.standsIn_scanAfter j) (s.standsIn_scanAfter (k + j))).2
    rwa [next_scanAfter, next_scanAfter] at hnext

/-- The unit of the text from an offset on, if the offset is a boundary of the text. -/
def dropBytes? (offset : Nat) : Option Source :=
  (Text.dropBytes? offset s.text).map fun text => { s with text := text }

/-- What is left to read begins at the position that the scan has reached. -/
theorem dropBytes?_position_scanAfter :
    s.dropBytes? (s.scanAfter k).position.offset =
      some { s with text := (s.scanAfter k).reader.rest } := by
  obtain ⟨hsource, before, hread⟩ := (s.standsIn_scanAfter k).reader
  have htext := hread.text
  have hoffset : (s.scanAfter k).position.offset = Text.byteLength before := hread.offset
  rw [hsource] at htext
  rw [dropBytes?, hoffset, htext, Text.dropBytes?_byteLength_append, Option.map_some]

end Source

/-- **A scan has no memory besides its position.**  After `k` requests the text from the
position reached on is a unit of its own.  From then on the requests are answered as those
of a scan of this unit, and the errors and the trivia that they add are those that it meets,
all of them moved: an offset by that of the position, a line by those before it, and a
column on the first line by those before the position. -/
theorem scan_resumes (s : Source) (k : Nat) :
    ∃ t, s.dropBytes? (s.scanAfter k).position.offset = some t ∧
      ∀ j, s.request (k + j) =
          (Relocation.startAt (s.scanAfter k).position).token (t.request j) ∧
        (s.scanAfter (k + j)).errors = (s.scanAfter k).errors ++
          (t.scanAfter j).errors.map (Relocation.startAt (s.scanAfter k).position).error ∧
        (s.scanAfter (k + j)).trivia = (s.scanAfter k).trivia ++
          (t.scanAfter j).trivia.map (Relocation.startAt (s.scanAfter k).position).trivia := by
  refine ⟨_, s.dropBytes?_position_scanAfter k, fun j => ?_⟩
  have hresumes := s.resumes_scanAfter k (t := { s with text := (s.scanAfter k).reader.rest }) rfl j
  have hnext := hresumes.next (Source.standsIn_scanAfter _ j) (s.standsIn_scanAfter (k + j))
  exact ⟨hnext.1, hresumes.errors, hresumes.trivia⟩

end Lexis
