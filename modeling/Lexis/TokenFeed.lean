/-
# Token feeds

A feed hands the tokens of a source unit to a parser, which may look one token
ahead.  A token that has been looked at is scanned already, so what the scan
met on the way to it counts as met.

There are two ways to take tokens.  `take` answers without end, with the end of
the input over and over after the last token.  `next?` hands out each token
once, the end of the input included, and nothing after that; only what `next?`
itself has handed out counts for this.
-/

import Lexis.Scan

namespace Lexis

/-- The tokens of a source unit that are still to be handed out. -/
structure TokenFeed where
  /-- The scan after the feed. -/
  scan : Scan
  /-- The token that has been looked at but not handed out. -/
  held : Option Token
  /-- Whether `next?` has handed out the end of the input. -/
  exhausted : Bool
deriving DecidableEq, Repr

namespace TokenFeed

/-- The feed of all tokens of a source unit. -/
def ofSource (s : Source) : TokenFeed := ⟨Scan.ofSource s, none, false⟩

/-- The errors met so far, in the order of detection. -/
def errors (f : TokenFeed) : List LexError := f.scan.errors

/-- The trivia met so far, in source order. -/
def trivia (f : TokenFeed) : List Trivia := f.scan.trivia

/-- Hands out the next token. -/
def take (f : TokenFeed) : Token × TokenFeed :=
  match f.held with
  | some t => (t, { f with held := none })
  | none =>
    let (t, scan) := f.scan.next
    (t, { f with scan := scan })

/-- Looks at the next token without handing it out. -/
def look (f : TokenFeed) : Token × TokenFeed :=
  match f.held with
  | some t => (t, f)
  | none =>
    let (t, scan) := f.scan.next
    (t, { f with scan := scan, held := some t })

/-- Hands out the next token, up to the end of the input. -/
def next? (f : TokenFeed) : Option Token × TokenFeed :=
  if f.exhausted then (none, f)
  else
    let (t, feed) := f.take
    (some t, { feed with exhausted := t.isEnd })

/-- A bound on the number of tokens that `next?` still hands out. -/
def bound (f : TokenFeed) : Nat :=
  if f.exhausted then 0 else f.scan.reader.rest.length + f.held.toList.length + 1

/-- Handing out a token brings the feed nearer to its end. -/
theorem bound_next?_lt {f : TokenFeed} (h : f.exhausted = false) :
    f.next?.2.bound < f.bound := by
  have hlen := f.scan.length_rest_next_lt
  simp only [next?, take, h, bound]
  cases hp : f.held with
  | some t => cases t.isEnd <;> simp
  | none =>
    cases ht : f.scan.next.1.isEnd with
    | true => simp
    | false => simp [hlen ht]

/-- All the tokens that `next?` still hands out, and the feed after them. -/
def drain (f : TokenFeed) : List Token × TokenFeed :=
  match _h : f.exhausted with
  | true => ([], f)
  | false =>
    match _hf : f.next? with
    | (t, feed) =>
      let (tokens, last) := feed.drain
      (t.toList ++ tokens, last)
termination_by f.bound
decreasing_by
  have := bound_next?_lt _h
  rwa [_hf] at this

end TokenFeed

end Lexis
