/-
# Readers divide their text

Wherever a reader is led, what is behind it and what is ahead of it make up the text of its
unit, and its offset is the boundary between the two (`Reader.Divides`).  What it answers is
read off what is ahead: looking some places ahead shows the character that is taken after as
many others (`Reader.peek_eq_next?`), and passing characters one by one, as long as the next one
satisfies a predicate, passes the longest run of such characters (`Reader.passWhile_eq`).

A mark is the position of a copy that has been kept.  Of two readers in one unit the one with
the smaller offset has a front of what the other has behind it, and the text and the span
since the mark are those of what lies between (`Reader.Recalls`).  So it does not matter how
the two have been led to their places (`readers_divide_text`).
-/

import Lexis.Proofs.Blanks
import Mathlib.Logic.Function.Iterate

namespace Lexis

namespace Reader

variable {r mark : Reader} {s : Source} {before behind : List Char}

/-! ### What is behind and what is ahead -/

/-- **The reader divides the text** of the unit: `before` is behind it. -/
structure Divides (r : Reader) (s : Source) (before : List Char) : Prop where
  /-- Nothing is lost. -/
  text : s.text = before ++ r.rest
  /-- What is behind is the text up to the offset. -/
  behind : Text.takeBytes? r.position.offset s.text = some before
  /-- What is ahead is the text from the offset on. -/
  ahead : Text.dropBytes? r.position.offset s.text = some r.rest
  /-- The offset is a boundary of the text. -/
  boundary : r.position.offset ≤ s.size ∧ ¬ Text.InsideChar s.text r.position.offset
  /-- The end is reached where nothing is ahead. -/
  atEnd : r.atEnd = true ↔ r.rest = []

theorem HasRead.divides (h : r.HasRead before) : r.Divides r.source before where
  text := h.text
  behind := by rw [h.offset, h.text, Text.takeBytes?_byteLength_append]
  ahead := by rw [h.offset, h.text, Text.dropBytes?_byteLength_append]
  boundary := by
    rw [h.offset, Source.size, h.text, Text.byteLength_append]
    exact ⟨Nat.le_add_right _ _, Text.not_insideChar before r.rest⟩
  atEnd := by
    rw [atEnd, decide_eq_true_iff, h.offset, Source.size, h.text, Text.byteLength_append,
      ← Text.byteLength_eq_zero]
    omega

/-! ### Looking ahead and advancing -/

/-- Taking characters one by one, as many advances are made. -/
theorem iterate_next? (r : Reader) (k : Nat) :
    (fun r => r.next?.2)^[k] r = r.advanceBy k := by
  induction k generalizing r with
  | zero => rfl
  | succ k ih => exact ih r.advance

/-- **Looking ahead** by some places shows the character that is taken after as many
others. -/
theorem peek_eq_next? (r : Reader) (k : Nat) :
    r.peek k = ((fun r => r.next?.2)^[k] r).next?.1 := by
  rw [iterate_next?, next?, peek, peek, rest_advanceBy, List.getElem?_drop, Nat.add_zero]

/-- **Taking a character** answers with it and leaves it behind. -/
theorem HasRead.next? {c : Char} {cs : List Char} (h : r.HasRead before)
    (hr : r.rest = c :: cs) :
    r.next?.1 = some c ∧ r.next?.2.rest = cs ∧ r.next?.2.Divides r.source (before ++ [c]) := by
  have hrun : r.rest = [c] ++ cs := hr
  have hdivides := (h.advanceBy hrun).divides
  rw [source_advanceBy] at hdivides
  refine ⟨?_, ?_, hdivides⟩
  · rw [Reader.next?, peek, hr, List.getElem?_cons_zero]
  · rw [Reader.next?, rest_advance, hr, List.tail_cons]

/-- At the end of the text an advance answers nothing and changes nothing. -/
theorem next?_of_rest_eq_nil (h : r.rest = []) : r.next? = (none, r) := by
  rw [next?, peek, h, advance_eq_self h]
  rfl

/-! ### Runs of a class -/

/-- **Passing characters one by one,** as long as the next one satisfies `p`: how many there
have been, and the reader after them. -/
def passWhile (p : Char → Bool) (r : Reader) : Nat × Reader :=
  if _h : (r.peek 0).any p then
    ((passWhile p r.advance).1 + 1, (passWhile p r.advance).2)
  else (0, r)
termination_by r.rest.length
decreasing_by
  all_goals
    rw [rest_advance, List.length_tail]
    cases hr : r.rest with
    | nil => simp [peek, hr] at _h
    | cons c cs => simp

/-- **One by one the longest run is passed.** -/
theorem passWhile_eq (p : Char → Bool) (r : Reader) :
    r.passWhile p = ((r.run p).length, r.skipWhile p) := by
  induction hr : r.rest generalizing r with
  | nil =>
    rw [passWhile, dif_neg (by simp [peek, hr]), skipWhile, run, hr]
    rfl
  | cons c cs ih =>
    have hpeek : (r.peek 0).any p = p c := by simp [peek, hr]
    have hadvance : r.advance.rest = cs := by rw [rest_advance, hr]; rfl
    rw [passWhile, hpeek, skipWhile, run, hr]
    split
    · rename_i hc
      rw [ih _ hadvance, List.takeWhile_cons_of_pos hc, skipWhile, run, hadvance]
      rfl
    · rename_i hc
      rw [List.takeWhile_cons_of_neg hc]
      rfl

/-- **What passing a run of a class does** to a reader that has `before` behind it. -/
structure Passes (r : Reader) (s : Source) (before : List Char) (p : Char → Bool) : Prop where
  /-- One by one the characters of the run are passed, and counted. -/
  loop : r.passWhile p = ((r.run p).length, r.skipWhile p)
  /-- The run is as long as it can be. -/
  longest : LongestFront (fun run => ∀ c ∈ run, p c = true) r.rest (r.run p)
  /-- Afterwards the run is behind the reader, and what was ahead of it otherwise still is. -/
  divides : (r.skipWhile p).Divides s (before ++ r.run p)

theorem HasRead.passes (h : r.HasRead before) (p : Char → Bool) :
    r.Passes r.source before p where
  loop := passWhile_eq p r
  longest := longestFront_takeWhile p r.rest
  divides := by
    have hread := (h.advanceBy (r.run_append_rest_skipWhile p).symm).divides
    rwa [source_advanceBy] at hread

/-! ### Marks -/

/-- **What a reader recalls of a mark,** the position of a reader kept before. -/
structure Recalls (r : Reader) (s : Source) (before : List Char) (mark : Reader) : Prop where
  /-- From a mark that is not ahead the text and the span are those of what lies between. -/
  since : mark.position.offset ≤ r.position.offset →
    ∃ behind run, mark.Divides s behind ∧ before = behind ++ run ∧
      r.textSince? mark.position = some run ∧
      Text.slice? mark.position.offset r.position.offset s.text = some run ∧
      (r.spanSince mark.position).start = mark.position ∧
      (r.spanSince mark.position).stop = r.position
  /-- From a mark ahead there is no text, and the span is empty. -/
  ahead : r.position.offset < mark.position.offset →
    r.textSince? mark.position = none ∧ r.spanSince mark.position = Span.empty r.position

/-- From a mark that is not ahead the span leads to the reader. -/
theorem spanSince_of_le {p : Position} (h : p.offset ≤ r.position.offset) :
    r.spanSince p = ⟨p, r.position, h⟩ := by
  rw [spanSince, Span.ofEnds?, dif_pos h]
  rfl

theorem HasRead.recalls (h : r.HasRead before) (hmark : mark.HasRead behind)
    (hsource : mark.source = r.source) : r.Recalls r.source before mark where
  since hle := by
    rw [hmark.offset, h.offset] at hle
    have htext : behind ++ mark.rest = before ++ r.rest := by
      rw [← hmark.text, hsource, h.text]
    obtain ⟨run, hrun, -⟩ := Text.exists_run_of_byteLength_le htext hle
    have hslice : Text.slice? mark.position.offset r.position.offset r.source.text = some run :=
      Text.slice?_eq_some_iff.2 ⟨behind, r.rest, by rw [h.text, hrun], hmark.offset.symm, by
        rw [h.offset, hrun, Text.byteLength_append]⟩
    have hspan : r.spanSince mark.position = ⟨mark.position, r.position, _⟩ :=
      spanSince_of_le (by rw [hmark.offset, h.offset]; exact hle)
    exact ⟨behind, run, hsource ▸ hmark.divides, hrun, hslice, hslice, by rw [hspan],
      by rw [hspan]⟩
  ahead hlt := by
    have hnone : Span.ofEnds? mark.position r.position = none :=
      Span.ofEnds?_eq_none_iff.2 hlt
    exact ⟨if_neg (Nat.not_le_of_lt hlt), by rw [spanSince, hnone]; rfl⟩

end Reader

/-- **Wherever a reader is led, it divides its text.**  After any moves of a reader and the
copies kept of it

* what is behind and what is ahead of the reader make up the text, with the offset as the
  boundary, and it is at the end exactly where nothing is ahead;
* looking some places ahead shows the character that is taken after as many others have been
  taken; taking a character answers with it and leaves it behind, and at the end of the text
  nothing is answered and nothing changes;
* a run of a class is passed as far as it goes and no further, one by one;
* from the position of a copy that is not ahead the text and the span are those of what lies
  between, and from that of one ahead the span is empty. -/
theorem readers_divide_text (s : Source) (ms : List Move) :
    ∃ before, ((Walk.ofSource s).moves ms).reader.Divides s before ∧
      (∀ k, ((Walk.ofSource s).moves ms).reader.peek k =
        ((fun r : Reader => r.next?.2)^[k] ((Walk.ofSource s).moves ms).reader).next?.1) ∧
      (∀ c after, ((Walk.ofSource s).moves ms).reader.rest = c :: after →
        ((Walk.ofSource s).moves ms).reader.next?.1 = some c ∧
          ((Walk.ofSource s).moves ms).reader.next?.2.rest = after ∧
          ((Walk.ofSource s).moves ms).reader.next?.2.Divides s (before ++ [c])) ∧
      (((Walk.ofSource s).moves ms).reader.rest = [] →
        ((Walk.ofSource s).moves ms).reader.next? =
          (none, ((Walk.ofSource s).moves ms).reader)) ∧
      (∀ p, ((Walk.ofSource s).moves ms).reader.Passes s before p) ∧
      ∀ mark ∈ ((Walk.ofSource s).moves ms).copies,
        ((Walk.ofSource s).moves ms).reader.Recalls s before mark := by
  obtain ⟨hreader, hcopies⟩ := (Walk.standsIn_ofSource s).moves ms
  generalize (Walk.ofSource s).moves ms = w at hreader hcopies
  obtain ⟨hsource, before, hread⟩ := hreader
  refine ⟨before, hsource ▸ hread.divides, w.reader.peek_eq_next?,
    fun c after hr => hsource ▸ hread.next? hr, Reader.next?_of_rest_eq_nil,
    fun p => hsource ▸ hread.passes p, fun mark hmark => ?_⟩
  obtain ⟨hmarkSource, behind, hmarkRead⟩ := hcopies mark hmark
  exact hsource ▸ hread.recalls hmarkRead (hmarkSource.trans hsource.symm)

end Lexis
