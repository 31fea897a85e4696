/-
# Scans

A scan turns the text of a source unit into tokens, one at each request, and
collects the trivia and the errors that it meets on the way, in the order of
the text.  It never fails.  After the last token it answers every request with
the end of the input, at the same position, and changes no more.

Each request reads lexemes until one of them makes a token.  What it finds
depends on the text that is left and on the position alone: `Reader.seek` is a
function of the reader, and a scan adds what is found to what it has.

The mode of a scan says which sort of lexeme it is inside.  A request completes
the lexemes that it begins, so that a scan is between two lexemes whenever it
can be looked at.  A scanning machine goes over from mode to mode as it reads;
it is proved to end a request in the mode that is found here.
-/

import Lexis.Lexeme

namespace Lexis

/-- Where a scan stands with respect to lexemes. -/
inductive Mode
  /-- Between two lexemes. -/
  | between
  /-- Inside a lexeme of a sort. -/
  | inside (kind : LexemeKind)
deriving DecidableEq, Repr

/-- The mode in which a scan reads what begins. -/
def Opening.mode : Opening → Mode
  | .lexeme kind => .inside kind
  | .blanks | .nothing => .between

/-- What a request finds: a token and what is met on the way to it. -/
structure Found where
  /-- The token. -/
  token : Token
  /-- The errors met, in the order of detection. -/
  errors : List LexError
  /-- The trivia met, in source order. -/
  trivia : List Trivia
  /-- The place after the token and the trivia. -/
  reader : Reader
  /-- The mode in which the request ends. -/
  mode : Mode
deriving DecidableEq, Repr

/-- What is found when a lexeme that makes no token comes first. -/
def Found.after (l : Lexeme) (r : Reader) (f : Found) : Found :=
  { f with errors := l.errors r ++ f.errors, trivia := l.trivia r ++ f.trivia }

/-- Reading a lexeme leaves less text to read. -/
theorem Reader.length_rest_advanceBy_lt {r : Reader} {l : Lexeme}
    (h : Lexeme.read? r.rest = some l) :
    (r.advanceBy l.chars.length).rest.length < r.rest.length := by
  have hl := List.length_pos_iff.2 (Lexeme.chars_ne_nil_of_read? h)
  have hr : r.rest ≠ [] := by
    intro hr
    rw [Lexeme.read?_eq_none_iff.2 hr] at h
    simp at h
  have hr := List.length_pos_iff.2 hr
  rw [Reader.rest_advanceBy, List.length_drop]
  omega

/-- The next token from the reader on, with what is met on the way to it. -/
def Reader.seek (r : Reader) : Found :=
  match _h : Lexeme.read? r.rest with
  | none => ⟨Token.endOfInput r.position, [], [], r, Opening.nothing.mode⟩
  | some l =>
    match l.token? r with
    | some t => ⟨t, l.errors r, l.trivia r, r.advanceBy l.chars.length, .between⟩
    | none => (r.advanceBy l.chars.length).seek.after l r
termination_by r.rest.length
decreasing_by exact Reader.length_rest_advanceBy_lt _h

/-- **A request does not lengthen what is left to read,** and one that finds a
token of the text shortens it. -/
theorem Reader.length_rest_seek (r : Reader) :
    r.seek.reader.rest.length ≤ r.rest.length ∧
      (r.seek.token.isEnd = false → r.seek.reader.rest.length < r.rest.length) := by
  fun_induction Reader.seek r with
  | case1 r h => exact ⟨Nat.le_refl _, by simp⟩
  | case2 r l hl t ht =>
    have := length_rest_advanceBy_lt hl
    exact ⟨Nat.le_of_lt this, fun _ => this⟩
  | case3 r l hl ht ih =>
    have := length_rest_advanceBy_lt hl
    exact ⟨by simp only [Found.after]; omega, fun h => by
      have := ih.2 h
      simp only [Found.after]
      omega⟩

/-- A scan of a source unit in progress. -/
structure Scan where
  /-- The place that has been reached. -/
  reader : Reader
  /-- The sort of lexeme the scan is inside. -/
  mode : Mode
  /-- The errors met so far, in the order of detection. -/
  errors : List LexError
  /-- The trivia met so far, in source order. -/
  trivia : List Trivia
  /-- Whether the end of the input has been handed out. -/
  finished : Bool
deriving DecidableEq, Repr

namespace Scan

/-- The scan before the text of a source unit. -/
def ofSource (s : Source) : Scan := ⟨Reader.ofSource s, .between, [], [], false⟩

/-- The position of the next character to be read. -/
def position (s : Scan) : Position := s.reader.position

/-- The scan with what a request has found added to it. -/
def record (s : Scan) (f : Found) : Scan :=
  ⟨f.reader, f.mode, s.errors ++ f.errors, s.trivia ++ f.trivia, f.token.isEnd⟩

/-- The next token, and the scan after it. -/
def next (s : Scan) : Token × Scan :=
  if s.finished then (Token.endOfInput s.position, s)
  else
    let found := s.reader.seek
    (found.token, s.record found)

/-- A request answered with a token of the text leaves less to read. -/
theorem length_rest_next_lt {s : Scan} (h : s.next.1.isEnd = false) :
    s.next.2.reader.rest.length < s.reader.rest.length := by
  unfold next at h ⊢
  split at h
  · simp at h
  · rename_i hf
    rw [if_neg hf]
    exact s.reader.length_rest_seek.2 h

/-- The scan after a number of requests. -/
def after : Nat → Scan → Scan
  | 0, s => s
  | n + 1, s => after n s.next.2

/-- All tokens up to the end of the input, which comes last, and the scan that
has handed them out. -/
def run (s : Scan) : List Token × Scan :=
  match _h : s.next with
  | (t, s') =>
    if _ht : t.isEnd then ([t], s')
    else
      let (tokens, last) := s'.run
      (t :: tokens, last)
termination_by s.reader.rest.length
decreasing_by
  have := s.length_rest_next_lt
  rw [_h] at this
  exact this (by simpa using _ht)

end Scan

/-- All tokens of a source unit, and the finished scan. -/
def Source.scan (s : Source) : List Token × Scan := (Scan.ofSource s).run

end Lexis
