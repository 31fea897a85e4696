/-
# Lexical errors

The five ways in which a text can be malformed.  No error stops a scan: each is
recorded with the span it concerns and, for literals, with the token that the
scan makes of the input nevertheless.
-/

import Lexis.Token.Basic

namespace Lexis

/-- What is wrong. -/
inductive ErrorKind
  | unterminatedString
  | invalidEscapeSequence
  | invalidNumericLiteral
  | unexpectedCharacter
  | unterminatedBlockComment
deriving DecidableEq, Repr, Ord

/-- What is said about it. -/
def ErrorKind.message : ErrorKind → String
  | .unterminatedString => "unterminated string literal"
  | .invalidEscapeSequence => "invalid escape sequence"
  | .invalidNumericLiteral => "invalid numeric literal"
  | .unexpectedCharacter => "unexpected character"
  | .unterminatedBlockComment => "unterminated block comment"

/-- The token that is made of malformed input. -/
structure Recovered where
  /-- Its class. -/
  kind : TokenKind
  /-- Its text. -/
  text : List Char
deriving DecidableEq, Repr

namespace Recovered

/-- The class and the text of a payload. -/
def ofPayload (p : Payload) : Recovered := ⟨p.kind, p.text⟩

/-- The token of a numeral, by its class and its text. -/
theorem ofPayload_ofNumeral (n : Numeral) :
    ofPayload (.ofNumeral n) = ⟨if n.isFloat then .floatLiteral else .integerLiteral, n.chars⟩ := by
  rw [ofPayload, Payload.text_ofNumeral, Payload.ofNumeral]
  split <;> rfl

/-- What is said about the token. -/
def shown (r : Recovered) : String :=
  "recovered as " ++ r.kind.description ++ " `" ++ String.ofList r.text ++ "`"

/-- Recovered tokens are ordered by their class, then by their text. -/
instance : Ord Recovered where
  compare r s := (compare r.kind s.kind).then (compare r.text s.text)

end Recovered

/-- A malformed place in a text. -/
structure LexError where
  /-- What is wrong. -/
  kind : ErrorKind
  /-- The place. -/
  span : Span
  /-- The token made of it, if there is one. -/
  recovered : Option Recovered
deriving DecidableEq, Repr

/-- Errors are ordered by their kind, then by their span, then by the recovered
token, an error without one coming first. -/
instance : Ord LexError where
  compare e f :=
    (compare e.kind f.kind).then ((compare e.span f.span).then (compare e.recovered f.recovered))

end Lexis
