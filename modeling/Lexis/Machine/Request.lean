/-
# Requests by steps

How a machine answers a request.  The next two characters say what begins; the machine
goes over to the mode of a lexeme before it reads it and back when it is done, and goes on
until a lexeme makes a token.  The end of the input is kept when it has been handed out,
and answers every later request.
-/

import Lexis.Machine.Numeral
import Lexis.Machine.Quoted

namespace Lexis.Machine

/-- Passes a run of blanks. -/
def readBlanks : Action Unit := do
  let start ← position
  let _ ← eatWhile isBlank
  recordTrivia ⟨.whitespace, ← spanSince start⟩

/-- Reads a word; which one it is, is looked up when it has been passed. -/
def readWord : Action Token := do
  let start ← position
  let _ ← eatWhile isWordChar
  let span ← spanSince start
  return ⟨.ofWord (← textSince start), span⟩

/-- Passes a comment up to the end of its line. -/
def readLineComment : Action Unit := do
  let start ← position
  let _ ← eatWhile fun c => !isLineEnd c
  recordTrivia ⟨.lineComment, ← spanSince start⟩

/-- Passes a mark of comments or a character that belongs to none, if comments are open. -/
def passMark (depth : Nat) : Action (Turn Nat Nat) := do
  if depth = 0 then return .done 0
  else
    match ← peek 0, ← peek 1 with
    | none, _ => return .done depth
    | some c, next =>
      if c = '/' ∧ next = some '*' then
        advanceBy 2
        return .again (depth + 1)
      else if c = '*' ∧ next = some '/' then
        advanceBy 2
        return .again (depth - 1)
      else
        let _ ← advance
        return .again depth

/-- Passes comments until none is open or the text ends, and answers how many are open. -/
def closeComments (depth : Nat) : Action Nat := loop depth passMark

/-- Passes a comment between marks. -/
def readBlockComment : Action Unit := do
  let start ← position
  advanceBy 2
  let depth ← closeComments 1
  let span ← spanSince start
  recordUnless (depth == 0) ⟨.unterminatedBlockComment, span, none⟩
  recordTrivia ⟨.blockComment, span⟩

/-- Reads an operator or a punctuation character, or passes a character that begins
nothing. -/
def readSymbol : Action (Option Token) := do
  let start ← position
  match Operator.longest? (← rest) with
  | some o =>
    advanceBy o.chars.length
    return some ⟨.operator o, ← spanSince start⟩
  | none =>
    match ← advance with
    | none => return none
    | some c =>
      let span ← spanSince start
      match Punctuation.ofChar? c with
      | some p => return some ⟨.punctuation p, span⟩
      | none =>
        recordError ⟨.unexpectedCharacter, span, none⟩
        recordTrivia ⟨.skipped, span⟩
        return none

/-- Reads a lexeme of a sort, and answers with the token that it makes. -/
def readLexeme : LexemeKind → Action (Option Token)
  | .word => some <$> readWord
  | .number => some <$> readNumber
  | .string => some <$> readQuoted
  | .lineComment => do
    readLineComment
    return none
  | .blockComment => do
    readBlockComment
    return none
  | .symbol => readSymbol

/-- Reads a lexeme or a run of blanks, and answers with its token if it makes one, and at
the end of the text with that. -/
def seekOne : Action (Turn Unit Token) := do
  enter .between
  match Opening.ofChars (← peek 0) (← peek 1) with
  | .nothing =>
    let token := Token.endOfInput (← position)
    modify fun m => { m with ended := some token }
    return .done token
  | .blanks =>
    readBlanks
    return .again ()
  | .lexeme kind =>
    enter (.inside kind)
    let token? ← readLexeme kind
    enter .between
    match token? with
    | some token => return .done token
    | none => return .again ()

/-- Reads lexemes until one makes a token or the text ends. -/
def seek : Action Token := loop () fun _ => seekOne

/-- Answers a request. -/
def next : Action Token := do
  match (← get).ended with
  | some token => return token
  | none => seek

/-- Answers a number of requests. -/
def nexts : Nat → Action (List Token)
  | 0 => return []
  | n + 1 => do
    let token ← next
    return token :: (← nexts n)

end Lexis.Machine
