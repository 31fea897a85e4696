/-
# Trivia

What a scan consumes without making it a token: blanks, comments, and the
characters that an error makes it skip.  Tokens and trivia together cover the
text.
-/

import Lexis.Source.Span

namespace Lexis

/-- The sort of a trivia. -/
inductive TriviaKind
  /-- A run of blanks, line ends included. -/
  | whitespace
  /-- A comment up to the end of its line. -/
  | lineComment
  /-- A comment between marks, possibly nested or left open. -/
  | blockComment
  /-- Characters consumed by nothing but an error. -/
  | skipped
deriving DecidableEq, Repr, Ord

/-- A stretch of the text that is no token. -/
structure Trivia where
  /-- The sort of the stretch. -/
  kind : TriviaKind
  /-- Where it stands. -/
  span : Span
deriving DecidableEq, Repr

/-- Trivia are ordered by their sort, then by their span. -/
instance : Ord Trivia where
  compare s t := (compare s.kind t.kind).then (compare s.span t.span)

end Lexis
