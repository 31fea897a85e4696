/-
# What errors cover

An error covers the characters of a run before a reader (`LexError.Covers`).  It begins before
a character that ends no line, and only a literal and a comment that are left open hold a line
end.  Those take all of the text, so an error that goes on behind the end of its first line
goes on up to the end of the text, whether or not a line end stands there.

So an error begins at a place inside a line (`Source.Place`), and it covers characters of that
line only, or all that is left of the line and of the text (`LexError.CoversFrom`).
-/

import Lexis.Proofs.Anchors
import Lexis.Proofs.Blanks
import Lexis.Proofs.Columns
import Lexis.Report.Basic

namespace Lexis

/-! ### The characters that errors cover -/

/-- The reader is before a character that ends no line. -/
def Reader.InLine (r : Reader) : Prop := ∃ c ∈ r.rest.head?, isLineEnd c = false

/-- **The error covers the next characters of the reader.** -/
structure LexError.Covers (e : LexError) (r : Reader) (run after : List Char) : Prop where
  /-- They stand before the reader. -/
  rest : r.rest = run ++ after
  /-- The span is theirs. -/
  span : e.span = r.spanOver run.length
  /-- There are some. -/
  nonempty : run ≠ []
  /-- The first one ends no line. -/
  inLine : r.InLine
  /-- Neither do the others, or nothing is left of the text and the error quotes nothing. -/
  ends : (∀ c ∈ run, isLineEnd c = false) ∨ after = [] ∧ Report.quotesText e.kind = false

/-- An error over characters that end no line begins inside a line. -/
theorem LexError.Covers.of_plain {e : LexError} {r : Reader} {run after : List Char}
    (hrest : r.rest = run ++ after) (hspan : e.span = r.spanOver run.length) (hne : run ≠ [])
    (hplain : ∀ c ∈ run, isLineEnd c = false) : e.Covers r run after where
  rest := hrest
  span := hspan
  nonempty := hne
  inLine := by
    obtain ⟨c, cs, rfl⟩ := List.exists_cons_of_ne_nil hne
    exact ⟨c, by rw [hrest]; rfl, hplain c List.mem_cons_self⟩
  ends := Or.inl hplain

/-- What holds no blank holds no line end. -/
theorem NoBlank.not_isLineEnd {run : List Char} (h : NoBlank run) :
    ∀ c ∈ run, isLineEnd c = false := by
  intro c hc
  rw [← Bool.not_eq_true]
  intro hends
  simpa [h c hc] using isBlank_of_isLineEnd hends

/-- What a malformed escape escapes is no line end. -/
theorem QuoteForm.exists_read_of_isMalformed {f : QuoteForm} {text : List Char} {u : QuoteUnit}
    (hu : u ∈ (f.readUnits text).1) (h : u.isMalformed = true) :
    ∃ c cs, isLineEnd c = false ∧ u = .escape (Escape.read c cs) := by
  fun_induction readUnits f text with
  | case1 => simp at hu
  | case2 => simp at hu
  | case3 text _ v hv units closed hread ih =>
    rcases List.mem_cons.1 hu with rfl | hu
    · cases text with
      | nil => simp [unit?] at hv
      | cons c cs =>
        simp only [unit?] at hv
        split at hv
        · simp at hv
        · split at hv
          · obtain rfl := Option.some.inj hv
            cases cs with
            | nil => simp [QuoteUnit.readEscaped, QuoteUnit.isMalformed] at h
            | cons d ds =>
              simp only [QuoteUnit.readEscaped] at h ⊢
              split at h
              · split at h <;> simp [QuoteUnit.isMalformed] at h
              · rename_i hd
                rw [if_neg hd]
                exact ⟨d, ds, by simpa using hd, rfl⟩
          · obtain rfl := Option.some.inj hv
            simp [QuoteUnit.isMalformed] at h
    · exact ih (by rw [hread]; exact hu)

namespace Lexeme

variable {l : Lexeme} {r : Reader} {e : LexError}

/-- Only a run of blanks begins with a line end. -/
theorem inLine_of_read? (hl : read? r.rest = some l) (hb : l.isBlanks = false) : r.InLine := by
  obtain ⟨c, cs, hrest, -⟩ := exists_opening_of_read? hl
  refine ⟨c, by rw [hrest]; rfl, ?_⟩
  rw [← Bool.not_eq_true]
  intro hc
  rw [hrest, read?_of_isBlank (isBlank_of_isLineEnd hc)] at hl
  obtain rfl := Option.some.inj hl
  simp [isBlanks] at hb

/-- The error of a lexeme that is left open covers it, and nothing is left of the text. -/
theorem covers_of_isOpen (hl : read? r.rest = some l) (hopen : l.isOpen = true)
    (hb : l.isBlanks = false) (hspan : e.span = r.spanOver l.chars.length)
    (hquotes : Report.quotesText e.kind = false) : e.Covers r l.chars [] where
  rest := by rw [chars_of_isOpen hl hopen, List.append_nil]
  span := hspan
  nonempty := chars_ne_nil_of_read? hl
  inLine := inLine_of_read? hl hb
  ends := Or.inr ⟨rfl, hquotes⟩

/-- **An error covers characters of its lexeme.** -/
theorem exists_covers_of_mem_errors (hl : read? r.rest = some l) (he : e ∈ l.errors r) :
    ∃ n run after, e.Covers (r.advanceBy n) run after := by
  have hwhole := (chars_append_drop hl).symm
  cases mem_errors_iff.1 he with
  | @overflow numeral suffix _ =>
    obtain ⟨⟨c, cs, htext, hc⟩, hnumeral, -⟩ := number_of_read? hl
    rw [htext] at hnumeral
    rw [chars, List.append_assoc] at hwhole
    have hplain : NoBlank numeral.chars := hnumeral ▸ (Numeral.numeralText_read hc cs).noBlank
    have hne : numeral.chars ≠ [] := hnumeral ▸ Numeral.chars_read_ne_nil hc cs
    exact ⟨0, _, _, .of_plain hwhole rfl hne hplain.not_isLineEnd⟩
  | @attached numeral suffix hne =>
    obtain ⟨-, -, hsuffix⟩ := number_of_read? hl
    rw [chars, List.append_assoc] at hwhole
    refine ⟨_, _, _, .of_plain (Reader.rest_advanceBy_length hwhole) rfl hne fun c hc => ?_⟩
    rw [hsuffix] at hc
    exact Numeral.not_isLineEnd_of_mem_malformedSuffix hc
  | @escape literal before u after hunits hu =>
    obtain ⟨content, hread⟩ := exists_readUnits_of_read? hl
    obtain ⟨c, cs, hc, rfl⟩ := QuoteForm.exists_read_of_isMalformed
      (by rw [hread, hunits]; exact List.mem_append_right _ List.mem_cons_self) hu
    simp only [chars, Quoted.chars, QuoteForm.body, hunits, List.flatMap_append,
      List.flatMap_cons, List.append_assoc] at hwhole
    have hrest := Reader.rest_advanceBy_length (Reader.rest_advanceBy_length hwhole)
    rw [← Reader.advanceBy_add] at hrest
    refine ⟨_, _, _, .of_plain hrest ?_ (QuoteUnit.chars_ne_nil _) fun d hd => ?_⟩
    · rw [Reader.advanceBy_add]
    · exact Escape.not_isLineEnd_of_mem_read hc hd
  | @literal q hclosed =>
    cases hm : q.form.multiline with
    | true =>
      have hopen : (quoted q).isOpen = true := by simp [isOpen, hm, hclosed]
      exact ⟨0, _, _, covers_of_isOpen hl hopen rfl rfl rfl⟩
    | false =>
      obtain ⟨c, cs, -, -, rfl⟩ := quoted_of_read? hl
      exact ⟨0, _, _, .of_plain hwhole rfl (chars_ne_nil_of_read? hl) fun d hd =>
        Quoted.not_isLineEnd_of_mem_read hm hd⟩
  | comment => exact ⟨0, _, _, covers_of_isOpen hl rfl rfl rfl rfl⟩
  | @character c =>
    obtain ⟨d, hd, hends⟩ := inLine_of_read? hl rfl
    rw [hwhole] at hd
    obtain rfl : c = d := by simpa [chars] using hd
    exact ⟨0, _, _, .of_plain hwhole rfl (by simp [chars]) (by simpa [chars] using hends)⟩

end Lexeme

/-! ### Places that errors begin at -/

namespace Source.Place

variable {s : Source} (p : s.Place)

/-- Characters before the place that end no line are characters of the line. -/
theorem exists_back_of_plain {run after : List Char} (hrest : p.rest = run ++ after)
    (hplain : ∀ c ∈ run, isLineEnd c = false) : ∃ more, p.back = run ++ more := by
  rcases List.append_eq_append_iff.1 hrest with ⟨passed, rfl, hclose⟩ | ⟨more, hback, -⟩
  · cases passed with
    | nil => exact ⟨[], by simp⟩
    | cons c cs =>
      have hends : isLineEnd c = true := p.closes.isLineEnd_head? c (by rw [hclose]; rfl)
      simp [hplain c (by simp)] at hends
  · exact ⟨more, hback⟩

/-- Nothing is left behind the last line. -/
theorem rest_of_close (h : p.close = []) : p.rest = p.back := by
  have hafter := p.lines.standsBefore.isLast.1 h
  simp [rest, below, h, hafter]

/-- A run inside the line stays on it. -/
theorem advanceOver_of_back {run more : List Char} (h : p.back = run ++ more)
    (next : Option Char) : p.position.advanceOver run next =
      ⟨p.position.offset + Text.byteLength run, p.position.line, p.position.column + run.length⟩ :=
  p.position.advanceOver_of_plain (fun c hc => p.plain c (by simp [line, h, hc])) next

/-- What is left of the text goes on behind the line, if that is closed by a line end. -/
theorem line_lt_of_rest (h : p.close ≠ []) :
    p.position.line < (p.position.advanceOver p.rest none).line := by
  have hback : p.position.advanceOver p.back (p.close ++ p.below).head? =
      ⟨p.position.offset + Text.byteLength p.back, p.position.line,
        p.position.column + p.back.length⟩ := p.advanceOver_of_back (List.append_nil _).symm _
  rw [rest, Position.advanceOver_append, Option.or_none, hback, Position.advanceOver_append,
    Option.or_none, ← List.nil_append p.close,
    Position.advanceOver_of_closes _ (by simp) p.closes h]
  exact Position.line_le_advanceOver ⟨_, p.position.line + 1, 1⟩ p.below none

end Source.Place

/-- **A reader inside a line** is at a place of its unit. -/
theorem Reader.StandsIn.exists_place {r : Reader} {s : Source} (h : r.StandsIn s)
    (hin : r.InLine) : ∃ p : s.Place, r.position = p.position ∧ r.rest = p.rest := by
  obtain ⟨rfl, front, hread⟩ := h
  rw [hread.position]
  rcases Source.exists_place_or hread.text with hplace | ⟨hends, -⟩
  · exact hplace
  · -- the next character would be a line end
    obtain ⟨c, hc, hplain⟩ := hin
    simp [hends c hc] at hplain

/-- **The error begins at the place** and covers characters of its line, or all that is left of
the line and of the text. -/
inductive LexError.CoversFrom {s : Source} (e : LexError) (p : s.Place) : Prop
  /-- Characters of the line. -/
  | onLine {run more : List Char} (hback : p.back = run ++ more) (hne : run ≠ [])
      (hstart : e.span.start = p.position)
      (hstop : e.span.stop = ⟨p.position.offset + Text.byteLength run, p.position.line,
        p.position.column + run.length⟩)
  /-- All that is left, on lines behind it too. -/
  | toEnd (hstart : e.span.start = p.position)
      (hstop : e.span.stop.offset = p.position.offset + Text.byteLength p.rest)
      (hline : p.position.line < e.span.stop.line) (hquotes : Report.quotesText e.kind = false)

theorem LexError.CoversFrom.start {s : Source} {e : LexError} {p : s.Place}
    (h : e.CoversFrom p) : e.span.start = p.position := by
  cases h with
  | onLine _ _ hstart _ => exact hstart
  | toEnd hstart _ _ _ => exact hstart

/-- **Every error of a unit begins at a place inside a line.** -/
theorem Source.exists_coversFrom_of_mem_errors {s : Source} {e : LexError} (he : e ∈ s.errors) :
    ∃ p : s.Place, e.CoversFrom p := by
  rw [errors_eq] at he
  obtain ⟨l, r, hstep, he⟩ := Reader.mem_ahead.1 he
  have hr := (Reader.standsIn_ofSource s).of_mem_steps hstep
  obtain ⟨-, hl, -⟩ := Reader.of_mem_steps hstep
  obtain ⟨n, run, after, h⟩ := Lexeme.exists_covers_of_mem_errors hl he
  obtain ⟨p, hposition, hrest⟩ := (hr.advanceBy n).exists_place h.inLine
  have hstart : e.span.start = p.position := by rw [h.span, ← hposition]; rfl
  have hstop : e.span.stop = p.position.advanceOver run after.head? := by
    rw [h.span, ← hposition]
    exact congrArg Reader.position (Reader.advanceBy_length h.rest)
  have honLine : ∀ more, p.back = run ++ more → e.CoversFrom p := fun more hback =>
    .onLine hback h.nonempty hstart (hstop.trans (p.advanceOver_of_back hback _))
  refine ⟨p, ?_⟩
  rcases h.ends with hplain | ⟨rfl, hquotes⟩
  · obtain ⟨more, hback⟩ := p.exists_back_of_plain (hrest.symm.trans h.rest) hplain
    exact honLine more hback
  · obtain rfl : run = p.rest := by rw [← hrest, h.rest, List.append_nil]
    by_cases hclose : p.close = []
    · exact honLine [] (by rw [p.rest_of_close hclose, List.append_nil])
    · refine .toEnd hstart ?_ (hstop ▸ p.line_lt_of_rest hclose) hquotes
      rw [hstop, Position.offset_advanceOver]

end Lexis
