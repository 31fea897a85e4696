/-
# Keywords

The words that are reserved.  A word is a keyword only as a whole: the look-up
takes the complete run of word characters, so that a keyword never splits a
longer word.  The names of the primitive types are keywords of their own.
-/

namespace Lexis

/-- A reserved word. -/
inductive Keyword
  | doWord | ifWord | elseWord | loopWord | continueWord | breakWord | falseWord | trueWord
  | nullWord | notWord | orWord | andWord | asWord
  | charType | i8Type | i16Type | i32Type | i64Type | i128Type | isizeType
  | u8Type | u16Type | u32Type | u64Type | u128Type | usizeType
  | f32Type | f64Type | boolType
deriving DecidableEq, Repr, Ord

namespace Keyword

/-- All keywords, in their order. -/
def all : List Keyword :=
  [.doWord, .ifWord, .elseWord, .loopWord, .continueWord, .breakWord, .falseWord, .trueWord,
    .nullWord, .notWord, .orWord, .andWord, .asWord,
    .charType, .i8Type, .i16Type, .i32Type, .i64Type, .i128Type, .isizeType,
    .u8Type, .u16Type, .u32Type, .u64Type, .u128Type, .usizeType,
    .f32Type, .f64Type, .boolType]

/-- The word as it is written. -/
def lexeme : Keyword → String
  | .doWord => "do"
  | .ifWord => "if"
  | .elseWord => "else"
  | .loopWord => "loop"
  | .continueWord => "continue"
  | .breakWord => "break"
  | .falseWord => "false"
  | .trueWord => "true"
  | .nullWord => "null"
  | .notWord => "not"
  | .orWord => "or"
  | .andWord => "and"
  | .asWord => "as"
  | .charType => "char"
  | .i8Type => "i8"
  | .i16Type => "i16"
  | .i32Type => "i32"
  | .i64Type => "i64"
  | .i128Type => "i128"
  | .isizeType => "isize"
  | .u8Type => "u8"
  | .u16Type => "u16"
  | .u32Type => "u32"
  | .u64Type => "u64"
  | .u128Type => "u128"
  | .usizeType => "usize"
  | .f32Type => "f32"
  | .f64Type => "f64"
  | .boolType => "bool"

/-- The characters of the word. -/
def chars (k : Keyword) : List Char := k.lexeme.toList

/-- The keyword that is spelled by exactly these characters. -/
def ofChars? (cs : List Char) : Option Keyword := all.find? fun k => k.chars == cs

/-- Whether the keyword names a primitive type. -/
def isPrimitive : Keyword → Bool
  | .charType | .i8Type | .i16Type | .i32Type | .i64Type | .i128Type | .isizeType
  | .u8Type | .u16Type | .u32Type | .u64Type | .u128Type | .usizeType
  | .f32Type | .f64Type | .boolType => true
  | _ => false

/-- What is said when a word that should be a keyword is none. -/
def unknownMessage : String := "invalid string representation of keyword."

theorem mem_all (k : Keyword) : k ∈ all := by cases k <;> decide

/-- A word is the keyword that it spells as a whole, and no other. -/
theorem ofChars?_eq_some_iff {cs : List Char} {k : Keyword} :
    ofChars? cs = some k ↔ k.chars = cs := by
  constructor
  · intro h
    have := List.find?_some h
    simpa using this
  · rintro rfl
    cases k <;> decide

end Keyword

end Lexis
