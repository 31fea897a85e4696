/-
# What is recovered of malformed literals

The error of a malformed literal keeps the token that is made of the literal nevertheless.
Two kinds of errors do so (`ErrorKind.recovers`); the others are about input that makes no
token, or about a part of a literal.

A request passes lexemes that make no token before it comes by the one whose token it is
answered with.  Nothing is recovered of the former, and what is recovered of the latter is
its token (`Reader.recovers_of_mem_errors_seek`).  So the answer to a request is all that the
errors met on the way can name (`recovered_names_request`).
-/

import Lexis.Proofs.Detection

namespace Lexis

/-- Whether an error of the kind keeps the token made of the malformed input. -/
def ErrorKind.recovers : ErrorKind → Bool
  | .unterminatedString | .invalidNumericLiteral => true
  | .invalidEscapeSequence | .unexpectedCharacter | .unterminatedBlockComment => false

/-- Whether tokens of the class are literals. -/
def TokenKind.isLiteral : TokenKind → Bool
  | .integerLiteral | .floatLiteral | .stringLiteral => true
  | .identifier | .keyword _ | .operator _ | .punctuation _ | .endOfInput => false

theorem ErrorKind.recovers_iff {kind : ErrorKind} :
    kind.recovers = true ↔ kind = .unterminatedString ∨ kind = .invalidNumericLiteral := by
  cases kind <;> simp [recovers]

theorem Payload.isLiteral_ofNumeral (n : Numeral) : (ofNumeral n).kind.isLiteral = true := by
  rcases kind_ofNumeral n with h | h <;> rw [h] <;> rfl

/-- **The error recovers the token,** if it recovers anything, and then the token is a
literal. -/
structure LexError.Recovers (e : LexError) (t : Token) : Prop where
  /-- What is recovered is the class and the text of the token. -/
  recovered : e.recovered = if e.kind.recovers then some ⟨t.kind, t.text⟩ else none
  /-- Nothing is recovered but literals. -/
  literal : e.kind.recovers = true → t.kind.isLiteral = true

namespace Lexeme

variable {l : Lexeme} {r : Reader} {e : LexError}

/-- An error of a lexeme that makes a token recovers that token. -/
theorem recovers_of_token? {t : Token} (ht : l.token? r = some t) (he : e ∈ l.errors r) :
    e.Recovers t := by
  obtain ⟨p, hp, rfl⟩ := Option.map_eq_some_iff.1 ht
  cases mem_errors_iff.1 he with
  | @overflow numeral suffix _ =>
    obtain rfl := Option.some.inj hp
    exact ⟨rfl, fun _ => Payload.isLiteral_ofNumeral numeral⟩
  | @attached numeral suffix _ =>
    obtain rfl := Option.some.inj hp
    exact ⟨rfl, fun _ => Payload.isLiteral_ofNumeral numeral⟩
  | escape _ _ => exact ⟨rfl, fun h => absurd h Bool.false_ne_true⟩
  | literal _ =>
    obtain rfl := Option.some.inj hp
    exact ⟨rfl, fun _ => rfl⟩
  | comment => simp [payload?] at hp
  | character => simp [payload?] at hp

/-- Nothing is recovered of a lexeme that makes no token. -/
theorem recovers_of_token?_eq_none (ht : l.token? r = none) (he : e ∈ l.errors r) (t : Token) :
    e.Recovers t := by
  have hp : l.payload? = none := Option.map_eq_none_iff.1 ht
  cases mem_errors_iff.1 he with
  | comment => exact ⟨rfl, fun h => absurd h Bool.false_ne_true⟩
  | character => exact ⟨rfl, fun h => absurd h Bool.false_ne_true⟩
  | _ => simp [payload?] at hp

end Lexeme

/-- **The errors met by a request** recover the token that it finds, if anything. -/
theorem Reader.recovers_of_mem_errors_seek {r : Reader} {e : LexError} (he : e ∈ r.seek.errors) :
    e.Recovers r.seek.token := by
  induction r using byLexemes with
  | atEnd r hr =>
    rw [seek_of_rest_eq_nil hr] at he
    simp at he
  | lexeme r l hl ih =>
    cases ht : l.token? r with
    | some t =>
      rw [seek_of_token? hl ht] at he ⊢
      exact Lexeme.recovers_of_token? ht he
    | none =>
      rw [seek_of_token?_eq_none hl ht] at he ⊢
      rcases List.mem_append.1 he with he | he
      · exact Lexeme.recovers_of_token?_eq_none ht he _
      · exact ih he

/-- **Errors recover the answer to the request that meets them.**  Of the errors that a
request adds

* those of open strings and of malformed numbers recover a token, and no others do;
* what is recovered is the class and the text of the token that the request is answered with,
  so that all of them recover the same;
* none recovers anything if this token is not a literal. -/
theorem recovered_names_request (s : Source) (k : Nat) :
    ∃ found, (s.scanAfter (k + 1)).errors = (s.scanAfter k).errors ++ found ∧
      (∀ e ∈ found, e.recovered.isSome = true ↔
        e.kind = .unterminatedString ∨ e.kind = .invalidNumericLiteral) ∧
      (∀ e ∈ found, ∀ token ∈ e.recovered,
        token.kind = (s.request k).kind ∧ token.text = (s.request k).text) ∧
      (∀ e ∈ found, ∀ f ∈ found, ∀ token ∈ e.recovered, ∀ token' ∈ f.recovered,
        token = token') ∧
      ((s.request k).kind.isLiteral = false → ∀ e ∈ found, e.recovered = none) := by
  have hrecovers : ∀ e ∈ (s.scanAfter k).reader.seek.errors, e.Recovers (s.request k) := by
    rw [s.request_eq]
    exact fun e he => Reader.recovers_of_mem_errors_seek he
  have hnames : ∀ e ∈ (s.scanAfter k).reader.seek.errors, ∀ token ∈ e.recovered,
      token = ⟨(s.request k).kind, (s.request k).text⟩ := fun e he token htoken => by
    rw [(hrecovers e he).recovered] at htoken
    split at htoken
    · exact (Option.some.inj htoken).symm
    · simp at htoken
  refine ⟨_, s.errors_scanAfter_succ k, fun e he => ?_, fun e he token htoken => ?_,
    fun e he f hf token htoken token' htoken' => ?_, fun hkind e he => ?_⟩
  · rw [(hrecovers e he).recovered, ← ErrorKind.recovers_iff]
    split <;> simp_all
  · rw [hnames e he token htoken]
    exact ⟨rfl, rfl⟩
  · exact (hnames e he token htoken).trans (hnames f hf token' htoken').symm
  · rw [(hrecovers e he).recovered, if_neg]
    intro hrecover
    have hliteral := (hrecovers e he).literal hrecover
    rw [hkind] at hliteral
    simp at hliteral

end Lexis
