/-
# The scanning machine

The same scan as `Scan`, in the steps that it takes.  A machine keeps no text ahead of it.
It has a cursor, which is no more than a position in a unit, and to look ahead or to take
the text since a mark it cuts the text of the unit at the offsets of positions.  A cut is
made only at a boundary of the text; elsewhere the machine stops without an answer.

What a machine does is an action, which changes it and answers something, or has no answer.
A loop goes on only from a turn that has passed something of the text (`Machine.loop`); one
that did not might go on for ever, and has no answer either.  So nothing is assumed of cuts
and loops here: that all actions of a scan have an answer is a theorem, and so is which one.
-/

import Lexis.Scan

namespace Lexis

/-- A place in a source unit. -/
structure Cursor where
  /-- The unit that is being read. -/
  source : Source
  /-- The position of the next character. -/
  position : Position
deriving DecidableEq, Repr

namespace Cursor

/-- The text from the cursor on, if the cursor is at a boundary. -/
def rest? (c : Cursor) : Option (List Char) := Text.dropBytes? c.position.offset c.source.text

/-- The character `ahead` places after the next one, or none past the end of the text. -/
def peek? (c : Cursor) (ahead : Nat) : Option (Option Char) := c.rest?.map fun rest => rest[ahead]?

/-- The cursor behind a character that stands at it and ends its line or does not. -/
def pass (c : Cursor) (x : Char) (ends : Bool) : Cursor :=
  let p := c.position
  ⟨c.source, if ends then ⟨p.offset + x.utf8Size, p.line + 1, 1⟩
    else ⟨p.offset + x.utf8Size, p.line, p.column + 1⟩⟩

/-- The next character, or none at the end of the text, and the cursor behind it.  What
comes next from the new offset on says whether a carriage return has ended the line. -/
def advance? (c : Cursor) : Option (Option Char × Cursor) := do
  match ← c.peek? 0 with
  | none => return (none, c)
  | some x =>
    let ends ←
      if x = '\n' then pure true
      else if x = '\r' then ((c.pass x false).peek? 0).map fun next => next != some '\n'
      else pure false
    return (some x, c.pass x ends)

/-- The text from a mark up to the cursor. -/
def textSince? (c : Cursor) (mark : Position) : Option (List Char) :=
  Text.slice? mark.offset c.position.offset c.source.text

/-- The span from a mark up to the cursor, empty for a mark ahead of it. -/
def spanSince (c : Cursor) (mark : Position) : Span :=
  (Span.ofEnds? mark c.position).getD (Span.empty c.position)

/-- The number of bytes ahead of the cursor. -/
def ahead (c : Cursor) : Nat := c.source.size - c.position.offset

end Cursor

/-- A scan in progress, by its place and what it has met. -/
structure Machine where
  /-- The place that has been reached. -/
  cursor : Cursor
  /-- The sort of lexeme that is being read. -/
  mode : Mode
  /-- The errors met so far, in the order of detection. -/
  errors : List LexError
  /-- The trivia met so far, in source order. -/
  trivia : List Trivia
  /-- The end of the input, once it has been handed out. -/
  ended : Option Token
deriving DecidableEq, Repr

/-- What a machine does: it goes over into another state and answers something, or it has
no answer. -/
abbrev Action (α : Type) := StateT Machine Option α

namespace Machine

/-- The machine before the text of a source unit. -/
def ofSource (s : Source) : Machine := ⟨⟨s, Position.start⟩, .between, [], [], none⟩

/-- What a cut at the cursor gives; the machine stays as it is. -/
def cut {α : Type} (f : Cursor → Option α) : Action α := fun m => (f m.cursor).map fun a => (a, m)

/-- The position of the next character. -/
def position : Action Position := do return (← get).cursor.position

/-- The text from the cursor on. -/
def rest : Action (List Char) := cut Cursor.rest?

/-- The character `ahead` places after the next one. -/
def peek (ahead : Nat) : Action (Option Char) := cut fun c => c.peek? ahead

/-- The text since a mark. -/
def textSince (mark : Position) : Action (List Char) := cut fun c => c.textSince? mark

/-- The span since a mark. -/
def spanSince (mark : Position) : Action Span := do return (← get).cursor.spanSince mark

/-- Passes the next character. -/
def advance : Action (Option Char) := fun m =>
  m.cursor.advance?.map fun (x, cursor) => (x, { m with cursor := cursor })

/-- Passes the next `n` characters. -/
def advanceBy : Nat → Action Unit
  | 0 => return
  | n + 1 => do
    let _ ← advance
    advanceBy n

/-- How a turn of a loop ends. -/
inductive Turn (α β : Type)
  /-- The loop goes on from a state. -/
  | again (state : α)
  /-- The loop is left with an answer. -/
  | done (answer : β)

/-- A loop from a state on.  It goes on only if the turn has passed something. -/
def loop {α β : Type} (state : α) (turn : α → Action (Turn α β)) : Action β := fun m =>
  match (turn state).run m with
  | none => none
  | some (.done answer, m') => some (answer, m')
  | some (.again state', m') =>
    if m'.cursor.ahead < m.cursor.ahead then loop state' turn m' else none
termination_by m => m.cursor.ahead

/-- Passes the next character if it satisfies `p`. -/
def eatOne (p : Char → Bool) (count : Nat) : Action (Turn Nat Nat) := do
  if (← peek 0).any p then
    let _ ← advance
    return .again (count + 1)
  else return .done count

/-- Passes characters as long as they satisfy `p`, and counts them. -/
def eatWhile (p : Char → Bool) : Action Nat := loop 0 (eatOne p)

/-- Goes over to a mode. -/
def enter (mode : Mode) : Action Unit := modify fun m => { m with mode := mode }

/-- Adds an error to those met. -/
def recordError (e : LexError) : Action Unit :=
  modify fun m => { m with errors := m.errors ++ [e] }

/-- Adds an error to those met, unless nothing is wrong. -/
def recordUnless (fine : Bool) (e : LexError) : Action Unit := if fine then return else recordError e

/-- Adds trivia to those met. -/
def recordTrivia (t : Trivia) : Action Unit :=
  modify fun m => { m with trivia := m.trivia ++ [t] }

end Machine

end Lexis
