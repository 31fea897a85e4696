/-
# Punctuation

The single characters that group and separate.  An operator is looked for
first, so that a colon is punctuation only where no longer operator begins.
-/

namespace Lexis

/-- A grouping or separating character. -/
inductive Punctuation
  | openParenthesis | closeParenthesis
  | openBracket | closeBracket
  | openBrace | closeBrace
  | semicolon | comma | colon | question | pound
deriving DecidableEq, Repr, Ord

namespace Punctuation

/-- All punctuation, in its order. -/
def all : List Punctuation :=
  [.openParenthesis, .closeParenthesis, .openBracket, .closeBracket, .openBrace, .closeBrace,
    .semicolon, .comma, .colon, .question, .pound]

/-- The character of the punctuation. -/
def char : Punctuation → Char
  | .openParenthesis => '('
  | .closeParenthesis => ')'
  | .openBracket => '['
  | .closeBracket => ']'
  | .openBrace => '\x7b'
  | .closeBrace => '\x7d'
  | .semicolon => ';'
  | .comma => ','
  | .colon => ':'
  | .question => '?'
  | .pound => '#'

/-- The punctuation that a character is. -/
def ofChar? (c : Char) : Option Punctuation := all.find? fun p => p.char == c

theorem mem_all (p : Punctuation) : p ∈ all := by cases p <;> decide

theorem ofChar?_eq_some_iff {c : Char} {p : Punctuation} : ofChar? c = some p ↔ p.char = c := by
  constructor
  · intro h
    have := List.find?_some h
    simpa using this
  · rintro rfl
    cases p <;> decide

end Punctuation

end Lexis
