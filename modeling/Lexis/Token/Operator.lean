/-
# Operators

The operators of one to three characters.  Where several operators begin a
text the longest one is meant; `Operator.longest?` finds it as the first match
in the table ordered by descending length.
-/

namespace Lexis

/-- An operator. -/
inductive Operator
  | powerAssign | shiftLeftAssign | shiftRightAssign
  | equal | notEqual | lessEqual | greaterEqual | logicalAnd | logicalOr
  | shiftLeft | shiftRight | power
  | addAssign | subtractAssign | multiplyAssign | divideAssign | remainderAssign
  | bitAndAssign | bitOrAssign | bitXorAssign
  | arrow | define | pathSeparator | range | increment | decrement
  | add | subtract | multiply | divide | remainder
  | bitNot | logicalNot | bitAnd | bitOr | bitXor
  | less | greater | assign | dot
deriving DecidableEq, Repr, Ord

namespace Operator

/-- All operators, in their order. -/
def all : List Operator :=
  [.powerAssign, .shiftLeftAssign, .shiftRightAssign,
    .equal, .notEqual, .lessEqual, .greaterEqual, .logicalAnd, .logicalOr,
    .shiftLeft, .shiftRight, .power,
    .addAssign, .subtractAssign, .multiplyAssign, .divideAssign, .remainderAssign,
    .bitAndAssign, .bitOrAssign, .bitXorAssign,
    .arrow, .define, .pathSeparator, .range, .increment, .decrement,
    .add, .subtract, .multiply, .divide, .remainder,
    .bitNot, .logicalNot, .bitAnd, .bitOr, .bitXor,
    .less, .greater, .assign, .dot]

/-- The operator as it is written. -/
def lexeme : Operator → String
  | .powerAssign => "**="
  | .shiftLeftAssign => "<<="
  | .shiftRightAssign => ">>="
  | .equal => "=="
  | .notEqual => "!="
  | .lessEqual => "<="
  | .greaterEqual => ">="
  | .logicalAnd => "&&"
  | .logicalOr => "||"
  | .shiftLeft => "<<"
  | .shiftRight => ">>"
  | .power => "**"
  | .addAssign => "+="
  | .subtractAssign => "-="
  | .multiplyAssign => "*="
  | .divideAssign => "/="
  | .remainderAssign => "%="
  | .bitAndAssign => "&="
  | .bitOrAssign => "|="
  | .bitXorAssign => "^="
  | .arrow => "->"
  | .define => ":="
  | .pathSeparator => "::"
  | .range => ".."
  | .increment => "++"
  | .decrement => "--"
  | .add => "+"
  | .subtract => "-"
  | .multiply => "*"
  | .divide => "/"
  | .remainder => "%"
  | .bitNot => "~"
  | .logicalNot => "!"
  | .bitAnd => "&"
  | .bitOr => "|"
  | .bitXor => "^"
  | .less => "<"
  | .greater => ">"
  | .assign => "="
  | .dot => "."

/-- The characters of the operator. -/
def chars (o : Operator) : List Char := o.lexeme.toList

/-- All operators, those of three characters first and then the shorter ones, each
length in the order of the operators. -/
def longestFirst : List Operator :=
  [3, 2, 1].flatMap fun n => all.filter fun o => o.chars.length == n

/-- The longest operator that begins the text. -/
def longest? (text : List Char) : Option Operator :=
  longestFirst.find? fun o => o.chars.isPrefixOf text

theorem mem_all (o : Operator) : o ∈ all := by cases o <;> decide

theorem mem_longestFirst (o : Operator) : o ∈ longestFirst := by cases o <;> decide

/-- No operator is longer than one that stands before it. -/
theorem pairwise_longestFirst :
    longestFirst.Pairwise fun o p => p.chars.length ≤ o.chars.length := by decide

theorem isPrefix_chars_longest? {text : List Char} {o : Operator} (h : longest? text = some o) :
    o.chars <+: text := by
  have := List.find?_some h
  exact List.isPrefixOf_iff_prefix.1 this

/-- **The operator found is the longest:** no operator that begins the text is
longer. -/
theorem length_le_of_longest? {text : List Char} {o p : Operator} (h : longest? text = some o)
    (hp : p.chars <+: text) : p.chars.length ≤ o.chars.length := by
  obtain ⟨-, before, after, hl, hbefore⟩ := List.find?_eq_some_iff_append.1 h
  have hpw := pairwise_longestFirst
  have hm := mem_longestFirst p
  rw [hl] at hpw hm
  rcases List.mem_append.1 hm with hm | hm
  · have := hbefore p hm
    rw [List.isPrefixOf_iff_prefix.2 hp] at this
    simp at this
  · rcases List.mem_cons.1 hm with rfl | hm
    · exact Nat.le_refl _
    · exact (List.pairwise_cons.1 (List.pairwise_append.1 hpw).2.1).1 p hm

theorem longest?_eq_none_iff {text : List Char} :
    longest? text = none ↔ ∀ o : Operator, ¬ o.chars <+: text := by
  simp only [longest?, List.find?_eq_none, List.isPrefixOf_iff_prefix]
  exact ⟨fun h o => h o (mem_longestFirst o), fun h o _ => h o⟩

theorem chars_ne_nil (o : Operator) : o.chars ≠ [] := by cases o <;> decide

end Operator

end Lexis
