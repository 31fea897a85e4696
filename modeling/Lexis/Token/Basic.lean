/-
# Tokens

A token is a classified piece of the text with its span.  The payload keeps
what its class adds: the name of a word, the value of a literal beside the
literal as written, or which keyword, operator or punctuation it is.  The end
of the input is a token of its own, with no text and an empty span.

`TokenKind` is the class alone.  Kinds are ordered by class, and within a class
by the order of the keywords, operators and punctuation.
-/

import Lexis.Token.Keyword
import Lexis.Token.Operator
import Lexis.Token.Punctuation
import Lexis.Numeral.Basic
import Lexis.Source.Span

namespace Lexis

/-- The class of a token. -/
inductive TokenKind
  | identifier
  | keyword (k : Keyword)
  | integerLiteral
  | floatLiteral
  | stringLiteral
  | operator (o : Operator)
  | punctuation (p : Punctuation)
  | endOfInput
deriving DecidableEq, Repr, Ord

/-- What the class is called in messages. -/
def TokenKind.description : TokenKind → String
  | .identifier => "an identifier"
  | .keyword k => "a keyword `" ++ k.lexeme ++ "`"
  | .integerLiteral => "an integer literal"
  | .floatLiteral => "a float literal"
  | .stringLiteral => "a string literal"
  | .operator o => "an operator `" ++ o.lexeme ++ "`"
  | .punctuation p => "a punctuation `" ++ String.singleton p.char ++ "`"
  | .endOfInput => "end of input"

/-- The class of a token and what it carries. -/
inductive Payload
  /-- A word that is not reserved. -/
  | identifier (name : List Char)
  /-- A reserved word. -/
  | keyword (k : Keyword)
  /-- An integer as written, the radix it is written in and its value. -/
  | integer (text : List Char) (radix : Radix) (value : Nat)
  /-- A floating-point number as written and its value. -/
  | float (text : List Char) (value : Binary64)
  /-- A string as written, the string it denotes, and whether it is raw and multi-line. -/
  | string (text value : List Char) (raw multiline : Bool)
  /-- An operator. -/
  | operator (o : Operator)
  /-- A punctuation character. -/
  | punctuation (p : Punctuation)
  /-- The end of the text. -/
  | endOfInput
deriving DecidableEq, Repr

namespace Payload

/-- The class. -/
def kind : Payload → TokenKind
  | .identifier _ => .identifier
  | .keyword k => .keyword k
  | .integer .. => .integerLiteral
  | .float .. => .floatLiteral
  | .string .. => .stringLiteral
  | .operator o => .operator o
  | .punctuation p => .punctuation p
  | .endOfInput => .endOfInput

/-- The token as it stands in the text. -/
def text : Payload → List Char
  | .identifier name => name
  | .keyword k => k.chars
  | .integer text _ _ => text
  | .float text _ => text
  | .string text _ _ _ => text
  | .operator o => o.chars
  | .punctuation p => [p.char]
  | .endOfInput => []

/-- The payload of a word: the keyword that it spells, or else its name. -/
def ofWord (cs : List Char) : Payload :=
  match Keyword.ofChars? cs with
  | some k => .keyword k
  | none => .identifier cs

/-- The payload of a numeral.  An integer beyond the greatest possible value has
that value. -/
def ofNumeral (n : Numeral) : Payload :=
  if n.isFloat then .float n.chars n.float
  else .integer n.chars n.radix (min n.integer Numeral.maxInteger)

/-- A word stands in the text as it was read. -/
@[simp] theorem text_ofWord (cs : List Char) : (ofWord cs).text = cs := by
  unfold ofWord
  split
  · rename_i k h; exact Keyword.ofChars?_eq_some_iff.1 h
  · rfl

@[simp] theorem text_ofNumeral (n : Numeral) : (ofNumeral n).text = n.chars := by
  unfold ofNumeral; split <;> rfl

end Payload

/-- A classified piece of the text. -/
structure Token where
  /-- The class and its data. -/
  payload : Payload
  /-- Where the token stands. -/
  span : Span
deriving DecidableEq, Repr

namespace Token

/-- The class of the token. -/
def kind (t : Token) : TokenKind := t.payload.kind

/-- The token as it stands in the text; nothing for the end of the input. -/
def text (t : Token) : List Char := t.payload.text

/-- The end of the input at a position. -/
def endOfInput (p : Position) : Token := ⟨.endOfInput, Span.empty p⟩

/-- Whether the token is the end of the input. -/
def isEnd (t : Token) : Bool := t.kind == .endOfInput

@[simp] theorem isEnd_endOfInput (p : Position) : (endOfInput p).isEnd = true := rfl

/-- The token as it is shown to a reader. -/
def shown (t : Token) : String :=
  if t.isEnd then "end of input" else String.ofList t.text

end Token

end Lexis
