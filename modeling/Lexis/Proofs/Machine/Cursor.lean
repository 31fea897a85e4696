/-
# Machines at the places of readers

A machine at the place of a reader finds by its cuts what the reader has before it.  A cut
at the offset of a reader that stands in a unit is at a boundary (`Cursor.rest?_cursor`), so
looking ahead, advancing and taking the text since a mark have an answer, and the answer
is that of the reader.

The lemmas `run_…` say what the actions of a machine at the place of a reader answer and
where they lead.  A loop goes on from behind what a turn has passed
(`Machine.run_loop_of_passed`) and is led by an induction on the text ahead.
-/

import Lexis.Machine.Basic
import Lexis.Proofs.Positions

namespace Lexis

/-- The place of a reader. -/
def Reader.cursor (r : Reader) : Cursor := ⟨r.source, r.position⟩

/-- The machine at the place of a reader that has met these errors and these trivia. -/
def Reader.machine (r : Reader) (mode : Mode) (errors : List LexError) (trivia : List Trivia) :
    Machine :=
  ⟨r.cursor, mode, errors, trivia, none⟩

/-- The machine that has read the lexeme at the place of a reader. -/
def Reader.machineAfter (r : Reader) (l : Lexeme) (mode : Mode) (errors : List LexError)
    (trivia : List Trivia) : Machine :=
  (r.advanceBy l.chars.length).machine mode (errors ++ l.errors r) (trivia ++ l.trivia r)

variable {r : Reader} {s : Source}

namespace Reader

theorem StandsIn.skipWhile (h : r.StandsIn s) (p : Char → Bool) : (r.skipWhile p).StandsIn s :=
  h.advanceBy _

theorem rest_skipWhile (r : Reader) (p : Char → Bool) :
    (r.skipWhile p).rest = r.rest.dropWhile p :=
  List.append_cancel_left ((r.run_append_rest_skipWhile p).trans
    List.takeWhile_append_dropWhile.symm)

/-- A run of a class ends before a character that is not of the class. -/
theorem not_of_head?_skipWhile (r : Reader) (p : Char → Bool) :
    ∀ c ∈ (r.skipWhile p).rest.head?, p c = false := by
  intro c hc
  have hstop := List.head?_dropWhile_not p r.rest
  rw [rest_skipWhile] at hc
  rw [hc] at hstop
  exact hstop

theorem peek_of_nil (hr : r.rest = []) (k : Nat) : r.peek k = none := by
  rw [peek, hr, List.getElem?_nil]

theorem peek_zero_of_cons {c : Char} {cs : List Char} (hr : r.rest = c :: cs) :
    r.peek 0 = some c := by
  rw [peek, hr, List.getElem?_cons_zero]

theorem peek_succ_of_cons {c : Char} {cs : List Char} (hr : r.rest = c :: cs) (k : Nat) :
    r.peek (k + 1) = cs[k]? := by
  rw [peek, hr, List.getElem?_cons_succ]

theorem peek_one_of_cons {c : Char} {cs : List Char} (hr : r.rest = c :: cs) :
    r.peek 1 = cs.head? := by
  rw [peek_succ_of_cons hr, List.head?_eq_getElem?]

theorem rest_advance_of_cons {c : Char} {cs : List Char} (hr : r.rest = c :: cs) :
    r.advance.rest = cs := by
  rw [rest_advance, hr, List.tail_cons]

theorem peek_eq_head? (r : Reader) (n : Nat) : r.peek n = (r.advanceBy n).rest.head? := by
  rw [rest_advanceBy, List.head?_drop]
  rfl

theorem StandsIn.textSince?_advanceBy_length (h : r.StandsIn s) {run after : List Char}
    (hr : r.rest = run ++ after) : (r.advanceBy run.length).textSince? r.position = some run := by
  rw [textSince?, source_advanceBy, h.1]
  exact h.slice? hr

end Reader

namespace Cursor

/-- **The offset of a reader is a boundary,** and what is ahead of it stands behind it. -/
theorem rest?_cursor (h : r.StandsIn s) : r.cursor.rest? = some r.rest := by
  have hcut := h.dropBytes?_offset
  rw [← h.1] at hcut
  exact hcut

theorem peek?_cursor (h : r.StandsIn s) (k : Nat) : r.cursor.peek? k = some (r.peek k) := by
  rw [peek?, rest?_cursor h]
  rfl

/-- What is ahead of a cursor depends on its offset alone. -/
theorem rest?_pass {c : Char} {cs : List Char} (hr : r.rest = c :: cs) (ends : Bool) :
    (r.cursor.pass c ends).rest? = r.advance.cursor.rest? := by
  have hoffset : (r.cursor.pass c ends).position.offset = r.advance.position.offset := by
    rw [pass, Reader.advance, hr]
    simp only [Position.offset_advance]
    split <;> rfl
  rw [rest?, rest?, hoffset]
  show Text.dropBytes? _ r.source.text = Text.dropBytes? _ r.advance.source.text
  rw [Reader.source_advance]
  rfl

/-- **A cursor advances as a reader does.**  The reader has the rule for line ends from the text
before it, the cursor from a look ahead at its new offset. -/
theorem advance?_cursor (h : r.StandsIn s) :
    r.cursor.advance? = some (r.peek 0, r.advance.cursor) := by
  cases hr : r.rest with
  | nil =>
    rw [advance?, peek?_cursor h, Reader.peek_of_nil hr, Reader.advance_eq_self hr]
    rfl
  | cons c cs =>
    have hnext : (r.cursor.pass c false).peek? 0 = some cs.head? := by
      rw [peek?, rest?_pass hr, rest?_cursor h.advance, Reader.rest_advance_of_cons hr,
        List.head?_eq_getElem?]
      rfl
    have hpass : r.advance.cursor = r.cursor.pass c (endsLine c cs.head?) := by
      simp only [Reader.cursor, Reader.advance, hr, Position.advance, pass]
    rw [advance?, peek?_cursor h, Reader.peek_zero_of_cons hr, hpass]
    simp only [Option.bind_eq_bind, Option.bind_some]
    by_cases hfeed : c = '\n'
    · subst hfeed
      rfl
    · by_cases hreturn : c = '\r'
      · subst hreturn
        have hends : endsLine '\r' cs.head? = (cs.head? != some '\n') := rfl
        rw [if_neg hfeed, if_pos rfl, hnext, hends]
        rfl
      · have hends : endsLine c cs.head? = false := by simp [endsLine, hfeed, hreturn]
        rw [if_neg hfeed, if_neg hreturn, hends]
        rfl

/-- What is ahead of the cursor of a reader is the text ahead. -/
theorem ahead_cursor (h : r.StandsIn s) : r.cursor.ahead = Text.byteLength r.rest := by
  obtain ⟨rfl, before, hb⟩ := h
  show r.source.size - r.position.offset = _
  rw [hb.offset, Source.size, hb.text, Text.byteLength_append, Nat.add_sub_cancel_left]

end Cursor

namespace Machine

variable {α β : Type} {m m' : Machine} {mode : Mode} {errors : List LexError} {trivia : List Trivia}

/-- After an action that has an answer the next one goes on from there. -/
theorem run_bind_of_run {x : Action α} {f : α → Action β} {a : α}
    (h : x.run m = some (a, m')) : (x >>= f).run m = (f a).run m' := by
  rw [StateT.run_bind, h]
  rfl

@[simp] theorem run_cut {f : Cursor → Option α} {a : α} (h : f r.cursor = some a) :
    (cut f).run (r.machine mode errors trivia) = some (a, r.machine mode errors trivia) := by
  show (f r.cursor).map _ = _
  rw [h]
  rfl

theorem run_position :
    position.run (r.machine mode errors trivia) =
      some (r.position, r.machine mode errors trivia) := rfl

theorem run_spanSince (mark : Position) :
    (spanSince mark).run (r.machine mode errors trivia) =
      some (r.spanSince mark, r.machine mode errors trivia) := rfl

theorem run_enter (mode' : Mode) :
    (enter mode').run (r.machine mode errors trivia) =
      some ((), r.machine mode' errors trivia) := rfl

theorem run_recordError (e : LexError) :
    (recordError e).run (r.machine mode errors trivia) =
      some ((), r.machine mode (errors ++ [e]) trivia) := rfl

theorem run_recordUnless (fine : Bool) (e : LexError) :
    (recordUnless fine e).run (r.machine mode errors trivia) =
      some ((), r.machine mode (errors ++ if fine then [] else [e]) trivia) := by
  cases fine with
  | true => rw [if_pos rfl, List.append_nil]; rfl
  | false => rfl

theorem run_recordTrivia (t : Trivia) :
    (recordTrivia t).run (r.machine mode errors trivia) =
      some ((), r.machine mode errors (trivia ++ [t])) := rfl

theorem run_rest (h : r.StandsIn s) :
    rest.run (r.machine mode errors trivia) = some (r.rest, r.machine mode errors trivia) :=
  run_cut (Cursor.rest?_cursor h)

theorem run_peek (h : r.StandsIn s) (k : Nat) :
    (peek k).run (r.machine mode errors trivia) =
      some (r.peek k, r.machine mode errors trivia) :=
  run_cut (Cursor.peek?_cursor h k)

/-- **The text since a mark** is the run that has been passed. -/
theorem run_textSince (h : r.StandsIn s) {run : List Char} (hrun : run <+: r.rest) :
    (textSince r.position).run ((r.advanceBy run.length).machine mode errors trivia) =
      some (run, (r.advanceBy run.length).machine mode errors trivia) := by
  obtain ⟨after, hafter⟩ := hrun
  exact run_cut (h.textSince?_advanceBy_length hafter.symm)

theorem run_advance (h : r.StandsIn s) :
    advance.run (r.machine mode errors trivia) =
      some (r.peek 0, r.advance.machine mode errors trivia) := by
  show r.cursor.advance?.map _ = _
  rw [Cursor.advance?_cursor h]
  rfl

theorem run_advanceBy (h : r.StandsIn s) (n : Nat) :
    (advanceBy n).run (r.machine mode errors trivia) =
      some ((), (r.advanceBy n).machine mode errors trivia) := by
  induction n generalizing r with
  | zero => rfl
  | succ n ih => rw [advanceBy, run_bind_of_run (run_advance h), ih h.advance, Reader.advanceBy]

/-! ### Loops -/

theorem run_loop_of_done {turn : α → Action (Turn α β)} {state : α} {answer : β}
    (h : (turn state).run m = some (.done answer, m')) :
    (loop state turn).run m = some (answer, m') := by
  show loop state turn m = _
  rw [loop, h]

/-- **After a turn that has passed a run** a loop goes on from behind it. -/
theorem run_loop_of_passed {turn : α → Action (Turn α β)} {state state' : α} {r' : Reader}
    {mode' : Mode} {errors' : List LexError} {trivia' : List Trivia} (h : r.StandsIn s)
    (h' : r'.StandsIn s) {run : List Char} (hrun : run ≠ []) (hrest : run ++ r'.rest = r.rest)
    (hturn : (turn state).run (r.machine mode errors trivia) =
      some (.again state', r'.machine mode' errors' trivia')) :
    (loop state turn).run (r.machine mode errors trivia) =
      (loop state' turn).run (r'.machine mode' errors' trivia') := by
  have hlt : r'.cursor.ahead < r.cursor.ahead := by
    have hpos := Text.byteLength_pos hrun
    rw [Cursor.ahead_cursor h, Cursor.ahead_cursor h', ← hrest, Text.byteLength_append]
    omega
  show loop state turn _ = _
  rw [loop, hturn]
  exact if_pos hlt

/-- A loop goes on from behind a number of characters that a turn has passed. -/
theorem run_loop_advanceBy {turn : α → Action (Turn α β)} {state state' : α} {mode' : Mode}
    {errors' : List LexError} {trivia' : List Trivia} (h : r.StandsIn s) (hr : r.rest ≠ [])
    {n : Nat} (hn : 0 < n)
    (hturn : (turn state).run (r.machine mode errors trivia) =
      some (.again state', (r.advanceBy n).machine mode' errors' trivia')) :
    (loop state turn).run (r.machine mode errors trivia) =
      (loop state' turn).run ((r.advanceBy n).machine mode' errors' trivia') := by
  have hrest : r.rest.take n ++ (r.advanceBy n).rest = r.rest := by
    rw [Reader.rest_advanceBy, List.take_append_drop]
  exact run_loop_of_passed h (h.advanceBy n) (by simp [hr, Nat.ne_of_gt hn]) hrest hturn

theorem run_eatOne (h : r.StandsIn s) (p : Char → Bool) (count : Nat) :
    (eatOne p count).run (r.machine mode errors trivia) =
      if (r.peek 0).any p then
        some (.again (count + 1), (r.advanceBy 1).machine mode errors trivia)
      else some (.done count, r.machine mode errors trivia) := by
  rw [eatOne, run_bind_of_run (run_peek h 0)]
  split
  · rw [run_bind_of_run (run_advance h)]
    rfl
  · rfl

/-- From a count on the loop over a class adds the length of the run to it. -/
theorem run_loop_eatOne (h : r.StandsIn s) (p : Char → Bool) (count : Nat) :
    (loop count (eatOne p)).run (r.machine mode errors trivia) =
      some (count + (r.run p).length, (r.skipWhile p).machine mode errors trivia) := by
  induction hr : r.rest generalizing r count with
  | nil =>
    have hturn := @run_eatOne r s mode errors trivia h p count
    rw [Reader.peek_of_nil hr] at hturn
    rw [run_loop_of_done hturn, Reader.skipWhile, Reader.run, hr]
    rfl
  | cons c cs ih =>
    have hcs := Reader.rest_advance_of_cons hr
    have hturn := @run_eatOne r s mode errors trivia h p count
    rw [Reader.peek_zero_of_cons hr, Option.any_some] at hturn
    rw [Reader.skipWhile, Reader.run, hr]
    split at hturn
    · rename_i hc
      have hloop := ih h.advance (count + 1) hcs
      rw [Reader.skipWhile, Reader.run, hcs] at hloop
      rw [run_loop_advanceBy h (by simp [hr]) Nat.one_pos hturn, List.takeWhile_cons_of_pos hc,
        List.length_cons, Nat.add_comm (cs.takeWhile p).length, Reader.advanceBy_add,
        ← Nat.add_assoc]
      exact hloop
    · rename_i hc
      rw [run_loop_of_done hturn, List.takeWhile_cons_of_neg hc]
      rfl

/-- **A run of a class is passed to its end.** -/
theorem run_eatWhile (h : r.StandsIn s) (p : Char → Bool) :
    (eatWhile p).run (r.machine mode errors trivia) =
      some ((r.run p).length, (r.skipWhile p).machine mode errors trivia) := by
  rw [eatWhile, run_loop_eatOne h p 0, Nat.zero_add]

end Machine

end Lexis
