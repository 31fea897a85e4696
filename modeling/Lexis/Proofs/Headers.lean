/-
# Headers of reports

The header of a report says what is wrong.  For an unexpected character and for a malformed
escape it quotes the characters, which the report finds in its line by the column and the length
of the error.  An error of these kinds covers characters of one line, so those that are found are
those that the unit has in the span (`Report.offendingText?_of_onLine`).

Control characters are quoted by escapes that print (`Text.ShownAs.prints`).  So the header
is the first line of the report, and it is the only thing on that line (`header_quotes_error`).
-/

import Lexis.Proofs.Extents
import Lexis.Proofs.Rendering

namespace Lexis

/-! ### Characters that do not print -/

namespace Text

/-- The text holds no control character. -/
def Prints (text : List Char) : Prop := ∀ c ∈ text, isControl c = false

instance (text : List Char) : Decidable (Prints text) :=
  decidable_of_iff (text.all (fun c => !isControl c) = true) (by simp [Prints])

theorem Prints.append {as bs : List Char} (has : Prints as) (hbs : Prints bs) :
    Prints (as ++ bs) := List.forall_mem_append.2 ⟨has, hbs⟩

/-- **How a character is shown in a header.** -/
inductive ShownAs : Char → List Char → Prop
  /-- A character that prints stands for itself. -/
  | plain {c} (h : isControl c = false) : ShownAs c [c]
  /-- A tab has a letter. -/
  | tab : ShownAs '\t' ['\\', 't']
  /-- A carriage return has a letter. -/
  | carriageReturn : ShownAs '\r' ['\\', 'r']
  /-- A line feed has a letter. -/
  | lineFeed : ShownAs '\n' ['\\', 'n']
  /-- Any other control character is shown by its code point. -/
  | code {c} (h : isControl c = true) (hletter : c ∉ ['\t', '\r', '\n']) :
    ShownAs c (['\\', 'u', '\x7b'] ++ Nat.toDigits 16 c.toNat ++ ['\x7d'])

/-- The digits of a code point print. -/
theorem prints_toDigits (n : Nat) : Prints (Nat.toDigits 16 n) := by
  have hdigit : ∀ k < 16, Prints [k.digitChar] := by decide
  induction n using Nat.strongRecOn with
  | ind n ih =>
    rw [Nat.toDigits_eq_if (by decide)]
    split
    · rename_i hn
      exact hdigit n hn
    · exact (ih _ (by omega)).append (hdigit _ (Nat.mod_lt _ (by decide)))

/-- What is shown for a character prints. -/
theorem ShownAs.prints {c : Char} {run : List Char} (h : ShownAs c run) : Prints run := by
  cases h with
  | plain h => simpa [Prints] using h
  | code _ _ =>
    have hopen : Prints ['\\', 'u', '\x7b'] := by decide
    have hclose : Prints ['\x7d'] := by decide
    exact (hopen.append (prints_toDigits _)).append hclose
  | _ => decide

theorem prints_of_forall₂ {text : List Char} {runs : List (List Char)}
    (h : List.Forall₂ ShownAs text runs) : Prints runs.flatten := by
  induction h with
  | nil => decide
  | cons hc _ ih => exact hc.prints.append ih

/-- A text is shown character by character. -/
theorem exists_shown_eq (text : List Char) :
    ∃ runs, List.Forall₂ ShownAs text runs ∧ shown text = runs.flatten := by
  refine ⟨_, ?_, List.flatMap_def⟩
  rw [List.forall₂_map_right_iff, List.forall₂_same]
  intro c _
  by_cases hc : isControl c = true
  · rw [if_pos hc, controlEscape]
    split_ifs with ht hr hn
    · exact ht ▸ .tab
    · exact hr ▸ .carriageReturn
    · exact hn ▸ .lineFeed
    · exact .code hc (by simp [ht, hr, hn])
  · rw [if_neg hc]
    exact .plain (by simpa using hc)

end Text

/-! ### Headers -/

theorem Report.quotesText_iff {kind : ErrorKind} : quotesText kind = true ↔
    kind = .unexpectedCharacter ∨ kind = .invalidEscapeSequence := by
  cases kind <;> decide

/-- The wording of an error prints. -/
theorem ErrorKind.prints_message (kind : ErrorKind) : Text.Prints kind.message.toList := by
  cases kind <;> decide

section

variable {s : Source} {e : LexError} {p : s.Place} {run more : List Char}

/-- The unit has the characters that begin at a place in the span over them. -/
theorem Source.Place.slice?_eq (hback : p.back = run ++ more) (hstart : e.span.start = p.position)
    (hstop : e.span.stop.offset = p.position.offset + Text.byteLength run) :
    s.slice? e.span = some run := by
  refine Text.slice?_eq_some_iff.2
    ⟨p.before.flatMap TextLine.chars ++ p.front, more ++ (p.close ++ p.below), ?_, ?_, ?_⟩
  · rw [p.text_eq, rest, hback]
    simp only [List.append_assoc]
  · rw [hstart, p.offset_eq]
  · rw [hstop, p.offset_eq]

/-- **Column and length lead to the characters of the error,** if it covers characters of one
line. -/
theorem Report.offendingText?_of_onLine (hback : p.back = run ++ more) (hne : run ≠ [])
    (hstart : e.span.start = p.position)
    (hstop : e.span.stop = ⟨p.position.offset + Text.byteLength run, p.position.line,
      p.position.column + run.length⟩) : (Report.ofError s e).offendingText? = some run := by
  have hlength : e.span.length = Text.byteLength run := by
    rw [Span.length, hstart, hstop]
    exact Nat.add_sub_cancel_left _ _
  have hempty : e.span.isEmpty = false := by
    have hpos := Text.byteLength_pos hne
    rw [Span.isEmpty, hlength, beq_eq_false_iff_ne]
    omega
  have hlines : ¬ (e.span.start.line ≠ e.span.stop.line ∨ e.span.isEmpty = true) := by
    simp [hstart, hstop, hempty]
  have hbefore : Excerpt.difference? p.position.column 1 = some p.front.length :=
    Excerpt.difference?_of_le (Nat.le_add_left _ _)
  have hdrop : p.line.drop p.front.length = run ++ more := by
    rw [Source.Place.line, List.drop_left, hback]
  refine (if_neg hlines).trans ?_
  change (s.line? e.span.start.line).bind (fun line =>
    (Excerpt.difference? e.span.start.column 1).bind fun before =>
      Text.takeBytes? e.span.length (line.drop before)) = some run
  rw [hstart, p.line?_eq.1, Option.bind_some, hbefore, Option.bind_some, hdrop, hlength,
    Text.takeBytes?_byteLength_append]

end

theorem Report.header_of_quotesText {r : Report} {text : List Char}
    (hquotes : quotesText r.error.kind = true) (htext : r.offendingText? = some text) :
    r.header = r.error.kind.message ++ " `" ++ String.ofList (Text.shown text) ++ "`" := by
  rw [header, hquotes, htext]

theorem Report.header_of_quotesText_eq_false {r : Report}
    (hquotes : quotesText r.error.kind = false) : r.header = r.error.kind.message := by
  rw [header, hquotes]

/-- In plain text a report is its header and its excerpt. -/
theorem Report.exists_render?_plain {s u : Source} {e : LexError} (he : e ∈ s.errors) :
    ∃ excerpt, (ofError u e).render? .plain =
      some ("[error]: " ++ (ofError u e).header ++ "\n" ++ excerpt) := by
  obtain ⟨text, htext⟩ := (succeeds_of_mem_errors (u := u) he .plain).shown
  obtain ⟨excerpt, -, rfl⟩ := Option.map_eq_some_iff.1 htext
  exact ⟨excerpt, htext⟩

/-- **The report of the error begins with the header,** which quotes the source where that
helps. -/
structure Source.ShowsHeader (s : Source) (e : LexError) (header : String) : Prop where
  /-- The plain text begins with the header, on a line of its own. -/
  shown : ∃ excerpt, (Report.ofError s e).render? .plain =
    some ("[error]: " ++ header ++ "\n" ++ excerpt)
  /-- That line holds no control character. -/
  prints : Text.Prints ("[error]: " ++ header).toList
  /-- It quotes unexpected characters and malformed escapes as the unit has them, each character
  as it is shown. -/
  quotes : e.kind = .unexpectedCharacter ∨ e.kind = .invalidEscapeSequence →
    ∃ text runs, s.slice? e.span = some text ∧ (Report.ofError s e).offendingText? = some text ∧
      List.Forall₂ Text.ShownAs text runs ∧
      header = e.kind.message ++ " `" ++ String.ofList runs.flatten ++ "`"
  /-- Of all other errors it says what is wrong and no more. -/
  bare : ¬ (e.kind = .unexpectedCharacter ∨ e.kind = .invalidEscapeSequence) →
    header = e.kind.message

/-- **The header of a report quotes the source.**  The report of an error against its own unit
has a header; for an unexpected character and for a malformed escape that is the wording of the
error and the text of its span, in which control characters are escaped and all others stand as
written, and for other errors it is the wording alone.  The header is the whole first line. -/
theorem header_quotes_error {s : Source} {e : LexError} (he : e ∈ s.errors) :
    ∃ header, s.ShowsHeader e header := by
  obtain ⟨p, hcovers⟩ := Source.exists_coversFrom_of_mem_errors he
  have hshown := Report.exists_render?_plain (u := s) he
  have hmark : Text.Prints "[error]: ".toList := by decide
  have hquote : Text.Prints " `".toList ∧ Text.Prints "`".toList := by decide
  refine ⟨(Report.ofError s e).header, ?_⟩
  cases hquotes : Report.quotesText e.kind with
  | false =>
    have hno : ¬ (e.kind = .unexpectedCharacter ∨ e.kind = .invalidEscapeSequence) := by
      simp [← Report.quotesText_iff, hquotes]
    have hheader : (Report.ofError s e).header = e.kind.message :=
      Report.header_of_quotesText_eq_false hquotes
    refine ⟨hshown, ?_, fun h => absurd h hno, fun _ => hheader⟩
    rw [hheader, String.toList_append]
    exact hmark.append e.kind.prints_message
  | true =>
    cases hcovers with
    | toEnd _ _ _ h => simp [hquotes] at h
    | onLine hback hne hstart hstop =>
      have htext := Report.offendingText?_of_onLine hback hne hstart hstop
      obtain ⟨runs, hruns, hflatten⟩ := Text.exists_shown_eq _
      have hheader := Report.header_of_quotesText hquotes htext
      rw [hflatten] at hheader
      refine ⟨hshown, ?_, fun _ => ⟨_, runs, p.slice?_eq hback hstart (by rw [hstop]), htext,
        hruns, hheader⟩, fun h => absurd (Report.quotesText_iff.1 hquotes) h⟩
      rw [hheader]
      simp only [String.toList_append, String.toList_ofList]
      have hbody := (e.kind.prints_message.append hquote.1).append (Text.prints_of_forall₂ hruns)
      exact hmark.append (hbody.append hquote.2)

/-- A control character behind a letter of two bytes is quoted by its code point. -/
theorem header_quotes_error_control :
    ∃ e ∈ (Source.ofString "a" "é\x07").errors,
      (e.kind, e.span.start.offset, e.span.stop.offset) = (.unexpectedCharacter, 2, 3) ∧
      (Report.ofError (Source.ofString "a" "é\x07") e).header =
        "unexpected character `\\u\x7b7\x7d`" ∧
      ∃ header, (Source.ofString "a" "é\x07").ShowsHeader e header := by
  have he : ⟨.unexpectedCharacter, ⟨⟨2, 1, 2⟩, ⟨3, 1, 3⟩, by decide⟩, none⟩ ∈
      (Source.ofString "a" "é\x07").errors := by
    decide +kernel
  exact ⟨_, he, rfl, by decide +kernel, header_quotes_error he⟩

end Lexis
