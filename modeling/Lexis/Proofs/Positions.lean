/-
# Positions by steps and by the table

A reader keeps line and column up to date character by character, and a source
unit finds them in its table of line starts.  The two have rules of their own for
line ends: a reader looks at the next character when it passes a carriage return,
and the table has been made by looking at the next byte.

The table is what the rule of the readers gives (`Line.starts_eq`), since no byte
of another character is that of a line feed, and it ascends (`Line.pairwise_starts`),
so that a search for the lines begun finds where it stops to hold that they are
(`Line.le_iff_lt_length_takeWhile`).  `Position.advanceOver` says what a reader's
position becomes over a run of characters and `Line.breaksBefore` which lines the
table has begun by then; `exists_line_split` ties the two together.  From it follow
what every reader that stands in a unit can rely on (`Reader.StandsIn.positionAt`)
and what the table answers at every offset.

A `Walk` is a reader with the copies kept of it, moved in any order.
-/

import Lexis.Source.Reader
import Mathlib.Data.List.Induction

namespace Lexis

/-! ### Steps over a run of characters -/

/-- The place after a run of characters that stands at `p`, when `next` is the
character after the run. -/
def Position.advanceOver (p : Position) : List Char → Option Char → Position
  | [], _ => p
  | c :: cs, next => (p.advance c (cs.head?.or next)).advanceOver cs next

namespace Position

theorem advanceOver_append (p : Position) (as bs : List Char) (next : Option Char) :
    p.advanceOver (as ++ bs) next = (p.advanceOver as (bs.head?.or next)).advanceOver bs next := by
  induction as generalizing p with
  | nil => rfl
  | cons c cs ih =>
    simp only [List.cons_append, advanceOver, List.head?_append, Option.or_assoc, ih]

theorem advanceOver_concat (p : Position) (cs : List Char) (c : Char) (next : Option Char) :
    p.advanceOver (cs ++ [c]) next = (p.advanceOver cs (some c)).advance c next :=
  p.advanceOver_append cs [c] next

@[simp] theorem offset_advanceOver (p : Position) (cs : List Char) (next : Option Char) :
    (p.advanceOver cs next).offset = p.offset + Text.byteLength cs := by
  induction cs generalizing p with
  | nil => rfl
  | cons c cs ih => simp only [advanceOver, ih, offset_advance, Text.byteLength_cons, Nat.add_assoc]

end Position

/-- Over a run of characters a reader takes the steps of its position. -/
theorem Reader.advanceBy_length {r : Reader} {run after : List Char} (h : r.rest = run ++ after) :
    r.advanceBy run.length = ⟨r.source, r.position.advanceOver run after.head?, after⟩ := by
  induction run generalizing r with
  | nil =>
    obtain ⟨source, position, rest⟩ := r
    obtain rfl : rest = after := h
    rfl
  | cons c cs ih =>
    have hr : r.advance.rest = cs ++ after := by rw [rest_advance, h]; rfl
    have hp : r.advance.position = r.position.advance c (cs ++ after).head? := by
      simp only [advance, h, List.cons_append]
    rw [List.length_cons, advanceBy, ih hr, hp, source_advance, List.head?_append]
    rfl

/-- Over a run of characters the offset grows by its bytes. -/
theorem Reader.offset_advanceBy_length {r : Reader} {run after : List Char}
    (h : r.rest = run ++ after) :
    (r.advanceBy run.length).position.offset = r.position.offset + Text.byteLength run := by
  rw [advanceBy_length h, Position.offset_advanceOver]

/-- After a run of characters the text after it is left. -/
theorem Reader.rest_advanceBy_length {r : Reader} {run after : List Char}
    (h : r.rest = run ++ after) : (r.advanceBy run.length).rest = after := by
  rw [rest_advanceBy, h, List.drop_left]

/-! ### The table by the rule of the readers -/

namespace Line

/-- The offsets after the line ends of a text that begins at `offset`, where a line
ends as it does for a reader. -/
def breaks (offset : Nat) : List Char → List Nat
  | [] => []
  | c :: cs =>
    if endsLine c cs.head? then (offset + c.utf8Size) :: breaks (offset + c.utf8Size) cs
    else breaks (offset + c.utf8Size) cs

/-- **The two rules for line ends agree.**  What the byte after a carriage return
says about it in a text, the next character says as well. -/
theorem startsAfter_utf8 (before cs : List Char) :
    startsAfter (Text.utf8 (before ++ cs)) (Text.byteLength before) cs =
      breaks (Text.byteLength before) cs := by
  induction cs generalizing before with
  | nil => rfl
  | cons c cs ih =>
    have hbehind : Text.byteLength (before ++ [c]) = Text.byteLength before + c.utf8Size := by
      simp
    have hlater := ih (before ++ [c])
    rw [List.append_assoc, List.singleton_append, hbehind] at hlater
    simp only [startsAfter, breaks, hlater]
    by_cases hfeed : c = '\n'
    · subst hfeed
      rfl
    · by_cases hreturn : c = '\r'
      · subst hreturn
        have hbyte := Text.getElem?_utf8_eq_lineFeed_iff (before ++ ['\r']) cs
        rw [List.append_assoc, List.singleton_append, hbehind] at hbyte
        have hends : endsLine '\r' cs.head? = true ↔ cs.head? ≠ some '\n' := by simp [endsLine]
        rw [if_neg hfeed]
        simp only [hends, true_and, ← hbyte, ne_eq]
        rfl
      · rw [if_neg hfeed, if_neg (fun h => hreturn h.1), if_neg (by simp [endsLine, *])]

/-- **The table** has the offsets after the line ends that a reader comes by. -/
theorem starts_eq (cs : List Char) : starts cs = 0 :: breaks 0 cs :=
  congrArg (0 :: ·) (startsAfter_utf8 [] cs)

@[simp] theorem length_starts (cs : List Char) :
    (starts cs).length = (breaks 0 cs).length + 1 := by
  rw [starts_eq, List.length_cons]

theorem lt_of_mem_breaks {offset n : Nat} {cs : List Char} (h : n ∈ breaks offset cs) :
    offset < n := by
  induction cs generalizing offset with
  | nil => simp [breaks] at h
  | cons c cs ih =>
    have hc := c.utf8Size_pos
    simp only [breaks] at h
    split at h
    · rcases List.mem_cons.1 h with rfl | h
      · omega
      · have := ih h; omega
    · have := ih h; omega

theorem pairwise_breaks (offset : Nat) (cs : List Char) :
    (breaks offset cs).Pairwise (· < ·) := by
  induction cs generalizing offset with
  | nil => exact .nil
  | cons c cs ih =>
    rw [breaks]
    split
    · exact .cons (fun n => lt_of_mem_breaks) (ih _)
    · exact ih _

/-- **The table ascends.** -/
theorem pairwise_starts (cs : List Char) : (starts cs).Pairwise (· < ·) := by
  rw [starts_eq]
  exact .cons (fun n => lt_of_mem_breaks) (pairwise_breaks 0 cs)

/-- **Where an ascending table is parted by a bound,** all entries before are within it
and all entries behind are beyond it. -/
theorem le_iff_lt_length_takeWhile {table : List Nat} (h : table.Pairwise (· < ·))
    {bound i start : Nat} (hi : table[i]? = some start) :
    start ≤ bound ↔ i < (table.takeWhile (· ≤ bound)).length := by
  induction table generalizing i with
  | nil => simp at hi
  | cons first table ih =>
    obtain ⟨hfirst, hlater⟩ := List.pairwise_cons.1 h
    by_cases hbound : first ≤ bound
    · rw [List.takeWhile_cons_of_pos (by simpa using hbound), List.length_cons]
      cases i with
      | zero =>
        obtain rfl : first = start := Option.some.inj hi
        simp [hbound]
      | succ i =>
        rw [ih hlater hi]
        omega
    · have hle : first ≤ start := by
        cases i with
        | zero => exact Nat.le_of_eq (Option.some.inj hi)
        | succ i => exact Nat.le_of_lt (hfirst start (List.mem_of_getElem? hi))
      rw [List.takeWhile_cons_of_neg (by simpa using hbound)]
      simp only [List.length_nil, Nat.not_lt_zero, iff_false]
      omega

end Line

/-! ### The lines begun -/

namespace Line

/-- The offsets after the line ends of a run of characters that begins at
`offset`, when `next` is the character after the run. -/
def breaksBefore (offset : Nat) : List Char → Option Char → List Nat
  | [], _ => []
  | c :: cs, next =>
    (if endsLine c (cs.head?.or next) then [offset + c.utf8Size] else []) ++
      breaksBefore (offset + c.utf8Size) cs next

theorem breaks_append (offset : Nat) (as bs : List Char) :
    breaks offset (as ++ bs) =
      breaksBefore offset as bs.head? ++ breaks (offset + Text.byteLength as) bs := by
  induction as generalizing offset with
  | nil => rfl
  | cons c cs ih =>
    simp only [List.cons_append, breaks, breaksBefore, ih, List.head?_append,
      Text.byteLength_cons, Nat.add_assoc]
    split <;> simp

theorem breaksBefore_concat (offset : Nat) (cs : List Char) (c : Char) (next : Option Char) :
    breaksBefore offset (cs ++ [c]) next = breaksBefore offset cs (some c) ++
      if endsLine c next then [offset + Text.byteLength (cs ++ [c])] else [] := by
  induction cs generalizing offset with
  | nil => exact List.append_nil _
  | cons d ds ih =>
    have hd : (ds ++ [c]).head?.or next = ds.head?.or (some c) := by
      rw [List.head?_append]; cases ds.head? <;> rfl
    simp only [List.cons_append, breaksBefore, hd, ih, Text.byteLength_cons, List.append_assoc,
      Nat.add_assoc]

theorem le_of_mem_breaksBefore {offset n : Nat} {cs : List Char} {next : Option Char}
    (h : n ∈ breaksBefore offset cs next) : n ≤ offset + Text.byteLength cs := by
  induction cs generalizing offset with
  | nil => simp [breaksBefore] at h
  | cons c cs ih =>
    simp only [breaksBefore, List.mem_append] at h
    rw [Text.byteLength_cons]
    rcases h with h | h
    · split at h
      · obtain rfl := List.mem_singleton.1 h; omega
      · simp at h
    · have := ih h; omega

/-- The lines that have begun after a front of the text are those that the front
begins. -/
theorem takeWhile_starts (before after : List Char) :
    (starts (before ++ after)).takeWhile (· ≤ Text.byteLength before) =
      0 :: breaksBefore 0 before after.head? := by
  have hbefore : ∀ n ∈ 0 :: breaksBefore 0 before after.head?,
      decide (n ≤ Text.byteLength before) = true := by
    intro n hn
    rcases List.mem_cons.1 hn with rfl | hn
    · simp
    · have := le_of_mem_breaksBefore hn
      exact decide_eq_true (by omega)
  have hafter : (breaks (0 + Text.byteLength before) after).takeWhile
      (· ≤ Text.byteLength before) = [] := by
    cases hb : breaks (0 + Text.byteLength before) after with
    | nil => rfl
    | cons n ns =>
      have hn : n ∈ breaks (0 + Text.byteLength before) after := hb ▸ List.mem_cons_self
      have := lt_of_mem_breaks hn
      exact List.takeWhile_cons_of_neg (by rw [decide_eq_true_iff]; omega)
  rw [starts_eq, breaks_append, ← List.cons_append, List.takeWhile_append_of_pos hbefore, hafter,
    List.append_nil]

end Line

/-- **Steps and table agree.**  After a run of characters from the start of a
text, what follows the last line begun is `line`, and the position counts the
lines begun and the characters of `line`. -/
theorem exists_line_split (before : List Char) (next : Option Char) :
    ∃ front line, before = front ++ line ∧
      (0 :: Line.breaksBefore 0 before next).getLastD 0 = Text.byteLength front ∧
      Position.start.advanceOver before next =
        ⟨Text.byteLength before, (0 :: Line.breaksBefore 0 before next).length,
          line.length + 1⟩ := by
  induction before using List.reverseRecOn generalizing next with
  | nil => exact ⟨[], [], rfl, rfl, rfl⟩
  | append_singleton cs c ih =>
    obtain ⟨front, line, rfl, hlast, hpos⟩ := ih (some c)
    rw [Position.advanceOver_concat, Line.breaksBefore_concat, hpos, Position.advance]
    -- `c` either begins a line, which is still empty, or lengthens the last one
    split
    · refine ⟨front ++ line ++ [c], [], by simp, ?_, ?_⟩
      · rw [← List.cons_append, List.getLastD_concat, Nat.zero_add]
      · simp [Nat.add_assoc]
    · refine ⟨front, line ++ [c], by simp, ?_, ?_⟩
      · rw [List.append_nil, hlast]
      · simp [Nat.add_assoc]

/-! ### Positions in a source unit -/

namespace Source

/-- The table answers for the end of every front of the text, with the place
that steps over the front lead to. -/
theorem positionAt_byteLength {s : Source} {before after : List Char}
    (h : s.text = before ++ after) :
    s.positionAt (Text.byteLength before) =
      .ok (Position.start.advanceOver before after.head?) := by
  obtain ⟨front, line, hsplit, hlast, hpos⟩ := exists_line_split before after.head?
  have hsize : ¬ s.size < Text.byteLength before := by
    rw [size, h, Text.byteLength_append]; omega
  have hslice : Text.slice? (Text.byteLength front) (Text.byteLength before) s.text = some line :=
    Text.slice?_eq_some_iff.2 ⟨front, after, by rw [h, hsplit], rfl, by
      rw [hsplit, Text.byteLength_append]⟩
  rw [positionAt, if_neg hsize, lineStarts, h, Line.takeWhile_starts, hpos]
  simp only [hlast, ← h, hslice]

/-- The table answers only for the ends of fronts of the text. -/
theorem exists_front_of_positionAt {s : Source} {offset : Nat} {p : Position}
    (h : s.positionAt offset = .ok p) :
    ∃ before after, s.text = before ++ after ∧ Text.byteLength before = offset := by
  simp only [positionAt] at h
  split at h
  · simp at h
  · split at h
    · rename_i line hline
      obtain ⟨front, rest, htext, hfront, hoffset⟩ := Text.slice?_eq_some_iff.1 hline
      refine ⟨front ++ line, rest, htext, ?_⟩
      rw [Text.byteLength_append, hoffset]
    · simp at h

end Source

/-- Whether an offset lies between the bytes of one character. -/
def Text.InsideChar (cs : List Char) (offset : Nat) : Prop :=
  ∃ before c after, cs = before ++ c :: after ∧ Text.byteLength before < offset ∧
    offset < Text.byteLength before + c.utf8Size

/-- Up to the end of a text every offset is the end of a front or inside a character. -/
theorem Text.exists_front_or_insideChar {cs : List Char} {offset : Nat}
    (h : offset ≤ Text.byteLength cs) :
    (∃ before after, cs = before ++ after ∧ Text.byteLength before = offset) ∨
      Text.InsideChar cs offset := by
  induction cs generalizing offset with
  | nil => exact Or.inl ⟨[], [], rfl, (Nat.le_zero.1 h).symm⟩
  | cons c cs ih =>
    rw [Text.byteLength_cons] at h
    rcases Nat.eq_zero_or_pos offset with rfl | hpos
    · exact Or.inl ⟨[], c :: cs, rfl, rfl⟩
    rcases Nat.lt_or_ge offset c.utf8Size with hlt | hge
    · exact Or.inr ⟨[], c, cs, rfl, hpos, by simpa using hlt⟩
    obtain ⟨n, rfl⟩ := Nat.exists_eq_add_of_le hge
    have hle : n ≤ Text.byteLength cs := by omega
    rcases ih hle with ⟨before, after, rfl, hn⟩ | ⟨before, d, after, rfl, h₁, h₂⟩
    · exact Or.inl ⟨c :: before, after, rfl, by rw [Text.byteLength_cons, hn]⟩
    · refine Or.inr ⟨c :: before, d, after, rfl, ?_, ?_⟩ <;>
        · rw [Text.byteLength_cons]; omega

/-- The end of a front is not inside a character. -/
theorem Text.not_insideChar (before after : List Char) :
    ¬ Text.InsideChar (before ++ after) (Text.byteLength before) := by
  rintro ⟨front, c, rest, h, h₁, h₂⟩
  rcases List.append_eq_append_iff.1 h with ⟨x, rfl, -⟩ | ⟨x, rfl, hx⟩
  · rw [Text.byteLength_append] at h₁; omega
  · cases x with
    | nil => simp at h₁
    | cons d ds =>
      obtain ⟨rfl, -⟩ := List.cons.inj hx
      rw [Text.byteLength_append, Text.byteLength_cons] at h₂
      omega

namespace Source

/-- **Where the table has no answer:** past the end of the text, and inside a
character. -/
theorem positionAt_eq_error_iff {s : Source} {offset : Nat} {e : OffsetError} :
    s.positionAt offset = .error e ↔
      s.size < offset ∧ e = .outOfRange offset s.size ∨
        offset ≤ s.size ∧ Text.InsideChar s.text offset ∧ e = .notCharBoundary offset := by
  rcases Nat.lt_or_ge s.size offset with hlt | hge
  · have : s.positionAt offset = .error (.outOfRange offset s.size) := by
      rw [positionAt, if_pos hlt]
    simp [this, hlt, Nat.not_le.2 hlt, eq_comm]
  · rcases Text.exists_front_or_insideChar hge with ⟨before, after, htext, rfl⟩ | hin
    · have := htext ▸ Text.not_insideChar before after
      simp [positionAt_byteLength htext, Nat.not_lt.2 hge, this]
    · have herror : s.positionAt offset = .error (.notCharBoundary offset) := by
        cases hp : s.positionAt offset with
        | ok p =>
          obtain ⟨before, after, htext, rfl⟩ := exists_front_of_positionAt hp
          exact absurd (htext ▸ hin) (Text.not_insideChar before after)
        | error e =>
          simp only [positionAt, if_neg (Nat.not_lt.2 hge)] at hp
          split at hp
          · simp at hp
          · exact hp.symm
      simp [herror, hge, Nat.not_lt.2 hge, hin, eq_comm]

/-- **Where the table has an answer:** at the end of every front of the text, and
it is the position of a reader that has passed the front. -/
theorem positionAt_eq_ok_iff {s : Source} {offset : Nat} {p : Position} :
    s.positionAt offset = .ok p ↔
      ∃ before after, s.text = before ++ after ∧ Text.byteLength before = offset ∧
        p = ((Reader.ofSource s).advanceBy before.length).position := by
  have hreader : ∀ {before after : List Char}, s.text = before ++ after →
      ((Reader.ofSource s).advanceBy before.length).position =
        Position.start.advanceOver before after.head? := fun h => by
    rw [Reader.advanceBy_length (r := Reader.ofSource s) h]; rfl
  constructor
  · intro h
    obtain ⟨before, after, htext, rfl⟩ := exists_front_of_positionAt h
    refine ⟨before, after, htext, rfl, ?_⟩
    rw [positionAt_byteLength htext] at h
    rw [hreader htext, Except.ok.inj h]
  · rintro ⟨before, after, htext, rfl, rfl⟩
    rw [positionAt_byteLength htext, hreader htext]

end Source

/-! ### Readers that stand in a source unit -/

namespace Reader

/-- The reader has the characters `before` behind it and all others of its unit
before it, and its position is the place after `before`. -/
structure HasRead (r : Reader) (before : List Char) : Prop where
  /-- Nothing is lost. -/
  text : r.source.text = before ++ r.rest
  /-- The position is that of the place. -/
  position : r.position = Position.start.advanceOver before r.rest.head?

/-- The reader stands somewhere in the unit `s`. -/
def StandsIn (r : Reader) (s : Source) : Prop := r.source = s ∧ ∃ before, r.HasRead before

theorem HasRead.offset {r : Reader} {before : List Char} (h : r.HasRead before) :
    r.position.offset = Text.byteLength before := by
  rw [h.position, Position.offset_advanceOver]
  exact Nat.zero_add _

theorem hasRead_ofSource (s : Source) : (ofSource s).HasRead [] := ⟨rfl, rfl⟩

theorem HasRead.advanceBy {r : Reader} {before run after : List Char} (h : r.HasRead before)
    (hr : r.rest = run ++ after) : (r.advanceBy run.length).HasRead (before ++ run) := by
  rw [advanceBy_length hr]
  constructor
  · rw [h.text, hr, List.append_assoc]
  · rw [Position.advanceOver_append, ← List.head?_append, ← hr, ← h.position]

theorem standsIn_ofSource (s : Source) : (ofSource s).StandsIn s :=
  ⟨rfl, [], hasRead_ofSource s⟩

theorem StandsIn.advance {r : Reader} {s : Source} (h : r.StandsIn s) : r.advance.StandsIn s := by
  obtain ⟨hs, before, hb⟩ := h
  refine ⟨r.source_advance.trans hs, ?_⟩
  cases hr : r.rest with
  | nil => exact ⟨before, (advance_eq_self hr).symm ▸ hb⟩
  | cons c cs =>
    have hrun : r.rest = [c] ++ cs := hr
    exact ⟨before ++ [c], hb.advanceBy hrun⟩

theorem StandsIn.advanceBy {r : Reader} {s : Source} (h : r.StandsIn s) (n : Nat) :
    (r.advanceBy n).StandsIn s := by
  induction n generalizing r with
  | zero => exact h
  | succ n ih => exact ih h.advance

/-- A reader that stands in a unit has the position that the table gives for its
offset. -/
theorem StandsIn.positionAt {r : Reader} {s : Source} (h : r.StandsIn s) :
    s.positionAt r.position.offset = .ok r.position := by
  obtain ⟨rfl, before, hb⟩ := h
  rw [hb.offset, Source.positionAt_byteLength hb.text, hb.position]

/-- A reader never goes back. -/
theorem offset_le_advanceBy (r : Reader) (n : Nat) :
    r.position.offset ≤ (r.advanceBy n).position.offset := by
  induction n generalizing r with
  | zero => exact Nat.le_refl _
  | succ n ih =>
    refine Nat.le_trans ?_ (ih r.advance)
    cases hr : r.rest with
    | nil => exact Nat.le_of_eq (by rw [advance_eq_self hr])
    | cons c cs =>
      simp only [advance, hr, Position.offset_advance]
      omega

/-- The span of the next `n` characters. -/
def spanOver (r : Reader) (n : Nat) : Span :=
  ⟨r.position, (r.advanceBy n).position, r.offset_le_advanceBy n⟩

/-- The span from a mark that has been passed is the span of the characters
passed since. -/
@[simp] theorem spanSince_advanceBy (r : Reader) (n : Nat) :
    (r.advanceBy n).spanSince r.position = r.spanOver n := by
  rw [spanSince, Span.ofEnds?, dif_pos (r.offset_le_advanceBy n)]
  rfl

end Reader

/-- Both ends of the span are positions of the unit, as the table gives them. -/
def Source.Locates (s : Source) (span : Span) : Prop :=
  s.positionAt span.start.offset = .ok span.start ∧
    s.positionAt span.stop.offset = .ok span.stop

namespace Reader

theorem StandsIn.locates {r : Reader} {s : Source} (h : r.StandsIn s) (n : Nat) :
    s.Locates (r.spanOver n) :=
  ⟨h.positionAt, (h.advanceBy n).positionAt⟩

/-- The unit has the next characters of the reader at their span. -/
theorem StandsIn.slice? {r : Reader} {s : Source} {run after : List Char} (h : r.StandsIn s)
    (hr : r.rest = run ++ after) : s.slice? (r.spanOver run.length) = some run := by
  obtain ⟨rfl, before, hb⟩ := h
  refine Text.slice?_eq_some_iff.2 ⟨before, after, ?_, hb.offset.symm, ?_⟩
  · rw [hb.text, hr, List.append_assoc]
  · have hstop : (r.advanceBy run.length).position.offset = Text.byteLength (before ++ run) :=
      (hb.advanceBy hr).offset
    rw [spanOver, hstop, Text.byteLength_append]

/-- What is ahead of a reader stands in the unit from its offset on. -/
theorem StandsIn.dropBytes?_offset {r : Reader} {s : Source} (h : r.StandsIn s) :
    Text.dropBytes? r.position.offset s.text = some r.rest := by
  obtain ⟨rfl, before, hb⟩ := h
  rw [hb.offset, hb.text, Text.dropBytes?_byteLength_append]

/-- At the end of the text the offset is the size of the unit. -/
theorem StandsIn.offset_eq_size {r : Reader} {s : Source} (h : r.StandsIn s)
    (hr : r.rest = []) : r.position.offset = s.size := by
  obtain ⟨rfl, before, hb⟩ := h
  rw [hb.offset, Source.size, hb.text, hr, List.append_nil]

end Reader

/-! ### Walks -/

/-- What can be asked of a reader and the copies kept of it. -/
inductive Move
  /-- To pass the next character. -/
  | advance
  /-- To pass the longest run of characters that satisfy a predicate. -/
  | skipWhile (p : Char → Bool)
  /-- To keep a copy of the reader. -/
  | save
  /-- To go on from a copy, counted from the one kept first. -/
  | restore (copy : Nat)

/-- A reader and the copies kept of it, the first one first. -/
structure Walk where
  /-- The reader. -/
  reader : Reader
  /-- The copies. -/
  copies : List Reader

namespace Walk

/-- The walk that begins before a source unit. -/
def ofSource (s : Source) : Walk := ⟨Reader.ofSource s, []⟩

/-- The walk after a move; a copy that has not been kept cannot be restored. -/
def move (w : Walk) : Move → Walk
  | .advance => { w with reader := w.reader.advance }
  | .skipWhile p => { w with reader := w.reader.skipWhile p }
  | .save => { w with copies := w.copies ++ [w.reader] }
  | .restore copy => { w with reader := w.copies[copy]?.getD w.reader }

/-- The walk after several moves, the first of them made first. -/
def moves (w : Walk) (ms : List Move) : Walk := ms.foldl move w

/-- The reader of a walk and all its copies stand in the unit. -/
def StandsIn (w : Walk) (s : Source) : Prop :=
  w.reader.StandsIn s ∧ ∀ r ∈ w.copies, r.StandsIn s

theorem standsIn_ofSource (s : Source) : (ofSource s).StandsIn s :=
  ⟨Reader.standsIn_ofSource s, by simp [ofSource]⟩

/-- No move leaves the unit. -/
theorem StandsIn.move {w : Walk} {s : Source} (h : w.StandsIn s) (m : Move) :
    (w.move m).StandsIn s := by
  cases m with
  | advance => exact ⟨h.1.advance, h.2⟩
  | skipWhile p => exact ⟨h.1.advanceBy _, h.2⟩
  | save =>
    refine ⟨h.1, fun r hr => ?_⟩
    rcases List.mem_append.1 hr with hr | hr
    · exact h.2 r hr
    · exact List.mem_singleton.1 hr ▸ h.1
  | restore copy =>
    refine ⟨?_, h.2⟩
    cases hc : w.copies[copy]? with
    | none => simpa [Walk.move, hc] using h.1
    | some r => simpa [Walk.move, hc] using h.2 r (List.mem_of_getElem? hc)

theorem StandsIn.moves {w : Walk} {s : Source} (h : w.StandsIn s) (ms : List Move) :
    (w.moves ms).StandsIn s := by
  induction ms generalizing w with
  | nil => exact h
  | cons m ms ih => exact ih (h.move m)

end Walk

/-- **The two ways to find a position agree.**  Wherever a reader is led, the
table gives its position for its offset.  At an offset past the end of the text
the table answers that it is out of range, inside a character that it is no
boundary, and everywhere else with the position of a reader that has passed the
characters before the offset one by one.  The table ascends, and the line that is
found in it for an offset is parted from the lines after it by having begun. -/
theorem positionAt_agrees_with_readers (s : Source) :
    (∀ ms : List Move, s.positionAt ((Walk.ofSource s).moves ms).reader.position.offset =
        .ok ((Walk.ofSource s).moves ms).reader.position) ∧
      (∀ offset e, s.positionAt offset = .error e ↔
        s.size < offset ∧ e = .outOfRange offset s.size ∨
          offset ≤ s.size ∧ Text.InsideChar s.text offset ∧ e = .notCharBoundary offset) ∧
      (∀ offset p, s.positionAt offset = .ok p ↔
        ∃ before after, s.text = before ++ after ∧ Text.byteLength before = offset ∧
          p = ((Reader.ofSource s).advanceBy before.length).position) ∧
      s.lineStarts.Pairwise (· < ·) ∧
      ∀ offset i start, s.lineStarts[i]? = some start →
        (start ≤ offset ↔ i < (s.lineStarts.takeWhile (· ≤ offset)).length) :=
  ⟨fun ms => ((Walk.standsIn_ofSource s).moves ms).1.positionAt,
    fun _ _ => Source.positionAt_eq_error_iff, fun _ _ => Source.positionAt_eq_ok_iff,
    Line.pairwise_starts s.text,
    fun _ _ _ => Line.le_iff_lt_length_takeWhile (Line.pairwise_starts s.text)⟩

end Lexis
