/-
# Lexemes with other line ends

A text whose lines end with line feeds may as well have its lines end with
carriage returns, or with pairs of a carriage return and a line feed
(`LineEnd.convert`).  Its lexemes are then the lexemes it had, with their line ends
converted (`Lexeme.exists_read?_convert`).

Most lexemes end on the line that they begin on and hold no line end.  They are
decided by that line alone, and the line feed after it is as good as another line end
(`Lexeme.read?_append`).  Blanks, block comments and multi-line literals go on over
line ends and are followed there character by character
(`Comment.blockRun_convert`, `QuoteForm.readUnits_convert`).
-/

import Lexis.Proofs.Lookahead.Lexeme

namespace Lexis

/-! ### Line ends -/

/-- What a line may end with in place of a line feed. -/
inductive LineEnd
  /-- A carriage return. -/
  | carriageReturn
  /-- A carriage return and a line feed. -/
  | pair
deriving DecidableEq, Repr

namespace LineEnd

/-- The characters of the line end. -/
def chars : LineEnd → List Char
  | .carriageReturn => ['\r']
  | .pair => ['\r', '\n']

/-- The text with the line end in place of each line feed. -/
def convert (e : LineEnd) (text : List Char) : List Char :=
  text.flatMap fun c => if c = '\n' then e.chars else [c]

variable (e : LineEnd)

@[simp] theorem convert_nil : e.convert [] = [] := rfl

@[simp] theorem convert_append (as bs : List Char) :
    e.convert (as ++ bs) = e.convert as ++ e.convert bs := List.flatMap_append

@[simp] theorem convert_singleton : e.convert ['\n'] = e.chars := List.append_nil _

theorem convert_lineFeed (cs : List Char) : e.convert ('\n' :: cs) = e.chars ++ e.convert cs := rfl

theorem convert_cons_of_ne {c : Char} (h : c ≠ '\n') (cs : List Char) :
    e.convert (c :: cs) = c :: e.convert cs := by
  rw [convert, List.flatMap_cons, if_neg h]
  rfl

/-- A text without line feeds stays as it is. -/
theorem convert_eq_self {text : List Char} (h : '\n' ∉ text) : e.convert text = text := by
  induction text with
  | nil => rfl
  | cons c cs ih =>
    have hc : c ≠ '\n' := fun hc => h (hc ▸ List.mem_cons_self)
    rw [convert_cons_of_ne e hc, ih fun hmem => h (List.mem_cons_of_mem c hmem)]

/-- After a carriage return in place of a line feed there is no line feed. -/
theorem head?_convert_ne (text : List Char) :
    (LineEnd.carriageReturn.convert text).head? ≠ some '\n' := by
  cases text with
  | nil => simp
  | cons c cs =>
    by_cases hc : c = '\n'
    · rw [hc, convert_lineFeed]
      simp [chars]
    · simp [convert_cons_of_ne _ hc, hc]

/-- No other character comes first than before. -/
theorem head?_convert_eq_some_iff {c : Char} (hc : isLineEnd c = false) (text : List Char) :
    (e.convert text).head? = some c ↔ text.head? = some c := by
  cases text with
  | nil => rfl
  | cons d ds =>
    by_cases hd : d = '\n'
    · have hcn : '\n' ≠ c := by rintro rfl; simp [isLineEnd] at hc
      have hcr : '\r' ≠ c := by rintro rfl; simp [isLineEnd] at hc
      rw [hd, convert_lineFeed]
      cases e <;> simp [chars, hcn, hcr]
    · rw [convert_cons_of_ne e hd]
      rfl

theorem atLineEnd_convert {text : List Char} (h : AtLineEnd text) : AtLineEnd (e.convert text) := by
  cases text with
  | nil => exact atLineEnd_nil
  | cons c cs =>
    by_cases hc : c = '\n'
    · rw [hc, convert_lineFeed]
      cases e <;> exact atLineEnd_cons.2 (Or.inr rfl)
    · rw [convert_cons_of_ne e hc]
      exact atLineEnd_cons.2 (atLineEnd_cons.1 h)

/-- A unit of a literal that is not multi-line cannot tell the texts apart. -/
theorem seenAlike_convert (text : List Char) : SeenAlike false text (e.convert text) := by
  cases text with
  | nil => exact Or.inl rfl
  | cons c cs =>
    by_cases hc : c = '\n'
    · have hline : AtLineEnd (c :: cs) := atLineEnd_cons.2 (Or.inl hc)
      exact Or.inr ⟨rfl, hline, e.atLineEnd_convert hline⟩
    · exact Or.inl (by rw [convert_cons_of_ne e hc]; rfl)

/-- A run of a class that has all line ends goes on over them. -/
theorem takeWhile_convert {p : Char → Bool} (hn : p '\n' = true) (hr : p '\r' = true)
    (text : List Char) : (e.convert text).takeWhile p = e.convert (text.takeWhile p) := by
  have hchars : ∀ c ∈ e.chars, p c = true := by cases e <;> simp [chars, hn, hr]
  induction text with
  | nil => rfl
  | cons c cs ih =>
    by_cases hc : c = '\n'
    · rw [hc, convert_lineFeed, List.takeWhile_append_of_pos hchars, ih,
        List.takeWhile_cons_of_pos hn, convert_lineFeed]
    · by_cases hp : p c = true
      · rw [convert_cons_of_ne e hc, List.takeWhile_cons_of_pos hp, ih,
          List.takeWhile_cons_of_pos hp, convert_cons_of_ne e hc]
      · rw [convert_cons_of_ne e hc, List.takeWhile_cons_of_neg hp,
          List.takeWhile_cons_of_neg hp, convert_nil]

/-- What holds no line end stands where it stood. -/
theorem isPrefixOf_convert {front : List Char} (h : ∀ c ∈ front, isLineEnd c = false)
    (text : List Char) : front.isPrefixOf (e.convert text) = front.isPrefixOf text := by
  induction text generalizing front with
  | nil => rfl
  | cons c cs ih =>
    by_cases hc : c = '\n'
    · -- before either line end it could only be empty
      have hline : AtLineEnd (c :: cs) := atLineEnd_cons.2 (Or.inl hc)
      have hfront := isPrefixOf_append_of_atLineEnd h hline []
      have hfront' := isPrefixOf_append_of_atLineEnd h (e.atLineEnd_convert hline) []
      exact hfront'.trans hfront.symm
    · rw [convert_cons_of_ne e hc]
      cases front with
      | nil => rfl
      | cons d ds =>
        rw [List.isPrefixOf, List.isPrefixOf, ih (List.forall_mem_cons.1 h).2]

end LineEnd

/-! ### Block comments -/

namespace Comment

theorem blockRun_convert_cons (e : LineEnd) {depth : Nat} {c : Char} {cs : List Char}
    (hd : depth ≠ 0) (hopen : ¬ (c = '/' ∧ cs.head? = some '*'))
    (hclose : ¬ (c = '*' ∧ cs.head? = some '/'))
    (ih : blockRun depth (e.convert cs) =
      (e.convert (blockRun depth cs).1, (blockRun depth cs).2)) :
    blockRun depth (e.convert (c :: cs)) =
      (e.convert (blockRun depth (c :: cs)).1, (blockRun depth (c :: cs)).2) := by
  rw [blockRun_cons hd hopen hclose]
  by_cases hc : c = '\n'
  · subst hc
    rw [e.convert_lineFeed, e.convert_lineFeed]
    cases e with
    | carriageReturn =>
      rw [LineEnd.chars, List.singleton_append, blockRun_cons hd (by simp) (by simp), ih]
      rfl
    | pair =>
      simp only [LineEnd.chars, List.cons_append, List.nil_append]
      rw [blockRun_cons hd (by simp) (by simp), blockRun_cons hd (by simp) (by simp), ih]
  · have hopen' : ¬ (c = '/' ∧ (e.convert cs).head? = some '*') := by
      rwa [e.head?_convert_eq_some_iff (by decide)]
    have hclose' : ¬ (c = '*' ∧ (e.convert cs).head? = some '/') := by
      rwa [e.head?_convert_eq_some_iff (by decide)]
    rw [e.convert_cons_of_ne hc, e.convert_cons_of_ne hc, blockRun_cons hd hopen' hclose', ih]

/-- **A block comment goes on over line ends** and ends with the mark that it ended with. -/
theorem blockRun_convert (e : LineEnd) (depth : Nat) (text : List Char) :
    blockRun depth (e.convert text) =
      (e.convert (blockRun depth text).1, (blockRun depth text).2) := by
  fun_induction blockRun depth text with
  | case1 => rfl
  | case2 => exact blockRun_zero _
  | case3 depth c hd =>
    have hcons : blockRun depth (e.convert [c]) = _ :=
      blockRun_convert_cons e hd (by simp) (by simp) rfl
    rwa [blockRun, if_neg hd] at hcons
  | case4 => exact blockRun_zero _
  | case5 depth c d cs hd hmark run closed hr ih =>
    obtain ⟨rfl, rfl⟩ := hmark
    rw [hr] at ih
    rw [e.convert_cons_of_ne (by decide), e.convert_cons_of_ne (by decide), blockRun, if_neg hd,
      if_pos ⟨rfl, rfl⟩, ih, e.convert_cons_of_ne (by decide), e.convert_cons_of_ne (by decide)]
  | case6 depth c d cs hd hopen hmark run closed hr ih =>
    obtain ⟨rfl, rfl⟩ := hmark
    rw [hr] at ih
    rw [e.convert_cons_of_ne (by decide), e.convert_cons_of_ne (by decide), blockRun, if_neg hd,
      if_neg hopen, if_pos ⟨rfl, rfl⟩, ih, e.convert_cons_of_ne (by decide),
      e.convert_cons_of_ne (by decide)]
  | case7 depth c d cs hd hopen hclose run closed hr ih =>
    have hcons : blockRun depth (e.convert (c :: d :: cs)) = _ :=
      blockRun_convert_cons e hd (by simpa using hopen) (by simpa using hclose) ih
    rwa [blockRun, if_neg hd, if_neg hopen, if_neg hclose, hr] at hcons

end Comment

/-! ### String literals -/

namespace QuoteUnit

/-- **The units of a content** and those of the content with its line ends converted. -/
inductive Converts (e : LineEnd) : List QuoteUnit → List QuoteUnit → Prop
  /-- There is no content. -/
  | nil : Converts e [] []
  /-- A unit without a line feed stays as it is. -/
  | same {u us us'} (hu : '\n' ∉ u.chars) (h : Converts e us us') : Converts e (u :: us) (u :: us')
  /-- A line feed becomes the characters of the line end. -/
  | lineFeed {us us'} (h : Converts e us us') :
    Converts e (.plain '\n' :: us) (e.chars.map .plain ++ us')
  /-- A backslash joins two lines whatever the first of them ends with. -/
  | continuation {us us'} (h : Converts e us us') :
    Converts e (.continuation ['\n'] :: us) (.continuation e.chars :: us')

theorem convert_chars_continuation (e : LineEnd) :
    e.convert (continuation ['\n']).chars = (continuation e.chars).chars := by
  rw [chars, chars, e.convert_cons_of_ne (by decide), e.convert_singleton]

theorem Converts.flatMap_chars {e : LineEnd} {us us' : List QuoteUnit} (h : Converts e us us') :
    us'.flatMap chars = e.convert (us.flatMap chars) := by
  induction h with
  | nil => rfl
  | same hu _ ih => rw [List.flatMap_cons, List.flatMap_cons, e.convert_append, ih,
      e.convert_eq_self hu]
  | lineFeed _ ih =>
    have hchars : (e.chars.map QuoteUnit.plain).flatMap chars = e.chars := by
      simp [List.flatMap_map, chars]
    rw [List.flatMap_append, List.flatMap_cons, e.convert_append, ih, hchars, chars,
      e.convert_singleton]
  | continuation _ ih =>
    rw [List.flatMap_cons, List.flatMap_cons, e.convert_append, ih, convert_chars_continuation]

/-- Units without line feeds stay as they are. -/
theorem converts_self (e : LineEnd) {us : List QuoteUnit} (h : '\n' ∉ us.flatMap chars) :
    Converts e us us := by
  induction us with
  | nil => exact .nil
  | cons u us ih =>
    rw [List.flatMap_cons, List.mem_append, not_or] at h
    exact .same h.1 (ih h.2)

/-- What a backslash begins in a multi-line literal is a line feed that is joined, or it is
read as it was when the line ends of the text after it are converted. -/
theorem readEscaped_convert (e : LineEnd) {cs after : List Char} (hcr : '\r' ∉ cs)
    (h : (readEscaped true cs).chars ++ after = '\\' :: cs) :
    readEscaped true cs = .continuation ['\n'] ∨ '\n' ∉ (readEscaped true cs).chars ∧
      ∃ cs', (readEscaped true cs).chars ++ e.convert after = '\\' :: cs' ∧
        readEscaped true cs' = readEscaped true cs := by
  cases cs with
  | nil =>
    obtain rfl : after = [] := by simpa [readEscaped, chars] using h
    exact Or.inr ⟨by simp [readEscaped, chars], [], rfl, rfl⟩
  | cons d ds =>
    cases hd : isLineEnd d with
    | true =>
      -- the text holds no carriage return, so this is a line feed
      obtain rfl : d = '\n' := (isLineEnd_iff.1 hd).resolve_right fun hd => hcr (by simp [hd])
      exact Or.inl (by simp [readEscaped, isLineEnd])
    | false =>
      have hescape (cs : List Char) : readEscaped true (d :: cs) = .escape (Escape.read d cs) := by
        rw [readEscaped, hd, if_neg Bool.false_ne_true]
      obtain ⟨run, hrun⟩ := Escape.exists_chars_read d ds
      rw [hescape, chars] at h ⊢
      obtain rfl : run ++ after = ds := by simpa [hrun] using h
      have hlf : '\n' ∉ (Escape.read d (run ++ after)).chars := fun hmem => by
        simpa [isLineEnd] using Escape.not_isLineEnd_of_mem_read hd hmem
      refine Or.inr ⟨hlf, d :: (run ++ e.convert after), by rw [hrun]; rfl, ?_⟩
      rw [hescape, Escape.read_congr hrun (e.seenAlike_convert after)]

end QuoteUnit

namespace QuoteForm

variable {f : QuoteForm} {u : QuoteUnit} {after : List Char} {us us' : List QuoteUnit}
  {closed : Bool}

theorem not_isLineEnd_of_mem_delimiter (f : QuoteForm) :
    ∀ c ∈ f.delimiter, isLineEnd c = false := by
  intro c hc
  rw [(List.mem_replicate.1 hc).2]
  exact not_isLineEnd_quote _

theorem convert_delimiter (f : QuoteForm) (e : LineEnd) : e.convert f.delimiter = f.delimiter :=
  e.convert_eq_self fun hmem => by
    simpa [isLineEnd] using f.not_isLineEnd_of_mem_delimiter _ hmem

theorem closesAt_convert (f : QuoteForm) (e : LineEnd) (text : List Char) :
    f.closesAt (e.convert text) = f.closesAt text :=
  e.isPrefixOf_convert f.not_isLineEnd_of_mem_delimiter text

/-- A line end is content of a multi-line literal. -/
theorem readUnits_lineEnd (hm : f.multiline = true) (e : LineEnd) (cs : List Char) :
    f.readUnits (e.chars ++ cs) =
      (e.chars.map .plain ++ (f.readUnits cs).1, (f.readUnits cs).2) := by
  have hcons {c : Char} (hc : isLineEnd c = true) (cs : List Char) :
      f.readUnits (c :: cs) = (.plain c :: (f.readUnits cs).1, (f.readUnits cs).2) := by
    have hclose : f.closesAt (c :: cs) = false :=
      closesAt_of_atLineEnd (atLineEnd_cons.2 (isLineEnd_iff.1 hc))
    have hback : c = '\\' → f.isRaw = true := by rintro rfl; simp [isLineEnd] at hc
    exact readUnits_of_unit? hclose (unit?_plain (fun _ => hm) hback cs)
  cases e with
  | carriageReturn => exact hcons (by decide) cs
  | pair =>
    rw [LineEnd.chars, List.cons_append, List.singleton_append, hcons (by decide),
      hcons (by decide)]
    rfl

/-- **A unit of a multi-line literal** is a line feed, or a backslash and a line feed, or
it is read as it was when the line ends of the text after it are converted. -/
theorem unit?_convert (hm : f.multiline = true) (e : LineEnd) (hcr : '\r' ∉ u.chars ++ after)
    (hunit : f.unit? (u.chars ++ after) = some u) :
    u = .plain '\n' ∨ (u = .continuation ['\n'] ∧ f.isRaw = false) ∨
      '\n' ∉ u.chars ∧ f.unit? (u.chars ++ e.convert after) = some u := by
  generalize htext : u.chars ++ after = text at hunit hcr
  cases text with
  | nil => simp [unit?] at hunit
  | cons c cs =>
    have hmulti {c : Char} : ¬ (isLineEnd c = true ∧ f.multiline = false) := by simp [hm]
    rw [unit?, if_neg hmulti] at hunit
    by_cases hback : c = '\\' ∧ f.isRaw = false
    · obtain ⟨rfl, hraw⟩ := hback
      rw [if_pos ⟨rfl, hraw⟩, hm] at hunit
      obtain rfl := Option.some.inj hunit
      rcases QuoteUnit.readEscaped_convert e (fun h => hcr (List.mem_cons_of_mem _ h)) htext with
        hu | ⟨hlf, cs', hcs', hread⟩
      · exact Or.inr (Or.inl ⟨hu, hraw⟩)
      · refine Or.inr (Or.inr ⟨hlf, ?_⟩)
        rw [hcs', unit?, if_neg hmulti, if_pos ⟨rfl, hraw⟩, hm, hread]
    · rw [if_neg hback] at hunit
      obtain rfl := Option.some.inj hunit
      obtain rfl : after = cs := by simpa [QuoteUnit.chars] using htext
      by_cases hc : c = '\n'
      · exact Or.inl (congrArg QuoteUnit.plain hc)
      · have hraw : c = '\\' → f.isRaw = true := fun h => by simpa [h] using hback
        exact Or.inr (Or.inr ⟨by simpa [QuoteUnit.chars] using Ne.symm hc,
          unit?_plain (fun _ => hm) hraw _⟩)

/-- A backslash joins two lines whatever the first of them ends with. -/
theorem unit?_continuation (hm : f.multiline = true) (hraw : f.isRaw = false) (e : LineEnd)
    (text : List Char) : f.unit? ((QuoteUnit.continuation e.chars).chars ++ e.convert text) =
      some (.continuation e.chars) := by
  have hmulti : ¬ (isLineEnd '\\' = true ∧ f.multiline = false) := by simp [hm]
  rw [QuoteUnit.chars, List.cons_append, unit?, if_neg hmulti, if_pos ⟨rfl, hraw⟩, hm]
  cases e with
  | carriageReturn =>
    simp [QuoteUnit.readEscaped, LineEnd.chars, isLineEnd, LineEnd.head?_convert_ne]
  | pair => simp [QuoteUnit.readEscaped, LineEnd.chars, isLineEnd]

/-- **The content of a multi-line literal** is read with its line ends converted, and
closes where it did. -/
theorem readUnits_convert (hm : f.multiline = true) (e : LineEnd) {text : List Char}
    (hcr : '\r' ∉ text) (h : f.readUnits text = (us, closed)) :
    ∃ us', f.readUnits (e.convert text) = (us', closed) ∧ QuoteUnit.Converts e us us' := by
  induction us generalizing text with
  | nil =>
    obtain ⟨hclose, hopen⟩ := of_readUnits_nil h
    refine ⟨[], ?_, .nil⟩
    cases closed with
    | true => exact readUnits_of_closesAt (by rw [f.closesAt_convert, hclose])
    | false =>
      have hend := unit?_eq_none_iff.1 (hopen rfl)
      obtain rfl : text = [] := by_contra fun hne => by simpa [hm] using hend.2 hne
      exact h
  | cons u us ih =>
    obtain ⟨hclose, hunit, hrest⟩ := of_readUnits_cons h
    obtain ⟨after, rfl⟩ := isPrefix_chars_unit? hunit
    rw [List.drop_left] at hrest
    obtain ⟨us', hread, hus⟩ := ih (fun hmem => hcr (List.mem_append_right _ hmem)) hrest
    rw [← f.closesAt_convert e, e.convert_append] at hclose
    rw [e.convert_append]
    rcases unit?_convert hm e hcr hunit with rfl | ⟨rfl, hraw⟩ | ⟨hlf, hunit'⟩
    · refine ⟨_, ?_, .lineFeed hus⟩
      rw [QuoteUnit.chars, e.convert_singleton, readUnits_lineEnd hm, hread]
    · refine ⟨_, ?_, .continuation hus⟩
      rw [QuoteUnit.convert_chars_continuation] at hclose ⊢
      rw [readUnits_of_unit? hclose (unit?_continuation hm hraw e after), List.drop_left, hread]
    · refine ⟨_, ?_, .same hlf hus⟩
      rw [e.convert_eq_self hlf] at hclose ⊢
      rw [readUnits_of_unit? hclose hunit', List.drop_left, hread]

end QuoteForm

/-- A literal with the units converted is the literal with its line ends converted. -/
theorem QuoteUnit.Converts.chars_quoted {e : LineEnd} {us us' : List QuoteUnit}
    (h : Converts e us us') (f : QuoteForm) (closed : Bool) :
    Quoted.chars ⟨f, us', closed⟩ = e.convert (Quoted.chars ⟨f, us, closed⟩) := by
  have hclose : e.convert (if closed then f.delimiter else []) =
      if closed then f.delimiter else [] := by cases closed <;> simp [f.convert_delimiter]
  simp only [Quoted.chars, QuoteForm.body, e.convert_append, h.flatMap_chars, f.convert_delimiter,
    hclose]

/-! ### Lexemes -/

/-- Every text has a first line, and there it ends or a line end comes. -/
theorem exists_firstLine (text : List Char) :
    ∃ line tail, text = line ++ tail ∧ '\n' ∉ line ∧ AtLineEnd tail := by
  induction text with
  | nil => exact ⟨[], [], rfl, List.not_mem_nil, atLineEnd_nil⟩
  | cons c cs ih =>
    by_cases hc : c = '\n'
    · exact ⟨[], c :: cs, rfl, List.not_mem_nil, atLineEnd_cons.2 (Or.inl hc)⟩
    · obtain ⟨line, tail, rfl, hline, htail⟩ := ih
      exact ⟨c :: line, tail, rfl, by simp [hline, Ne.symm hc], htail⟩

namespace Lexeme

/-- **A lexeme** and the lexeme with its line ends converted. -/
inductive Converts (e : LineEnd) : Lexeme → Lexeme → Prop
  /-- A lexeme without line feeds stays as it is. -/
  | same {l} (h : '\n' ∉ l.chars) : Converts e l l
  /-- A run of blanks. -/
  | blanks {run} : Converts e (.blanks run) (.blanks (e.convert run))
  /-- A block comment. -/
  | blockComment {run closed} :
    Converts e (.blockComment run closed) (.blockComment (e.convert run) closed)
  /-- A multi-line literal. -/
  | quoted {f us us' closed} (hm : f.multiline = true) (h : QuoteUnit.Converts e us us') :
    Converts e (.quoted ⟨f, us, closed⟩) (.quoted ⟨f, us', closed⟩)

variable {e : LineEnd} {l l' : Lexeme}

/-- The lexemes consume the same characters but for the line ends. -/
theorem Converts.chars (h : Converts e l l') : l'.chars = e.convert l.chars := by
  cases h with
  | same h => exact (e.convert_eq_self h).symm
  | blanks => rfl
  | blockComment => rfl
  | quoted _ h => exact h.chars_quoted _ _

/-- What begins at a place begins there as well when the line ends are converted. -/
theorem ofChars_convert (e : LineEnd) (c : Char) (cs : List Char) :
    Opening.ofChars (some c) (e.convert cs).head? = Opening.ofChars (some c) cs.head? :=
  Opening.ofChars_congr (e.head?_convert_eq_some_iff (by decide) cs)
    (e.head?_convert_eq_some_iff (by decide) cs) c

/-- A run of blanks goes on over line ends. -/
theorem read?_convert_of_isBlank (e : LineEnd) {c : Char} (hc : isBlank c = true)
    (cs : List Char) : read? (e.convert (c :: cs)) =
      some (.blanks (e.convert (c :: cs.takeWhile isBlank))) := by
  obtain ⟨d, ds, hconvert, hd⟩ : ∃ d ds, e.convert (c :: cs) = d :: ds ∧ isBlank d = true := by
    by_cases hlf : c = '\n'
    · rw [hlf, e.convert_lineFeed]
      cases e <;> exact ⟨'\r', _, rfl, by decide⟩
    · exact ⟨c, _, e.convert_cons_of_ne hlf cs, hc⟩
  rw [← List.takeWhile_cons_of_pos hc, ← e.takeWhile_convert (by decide) (by decide), hconvert,
    read?_of_isBlank hd, List.takeWhile_cons_of_pos hd]

/-- A lexeme that the first line leaves open goes on over the line ends. -/
theorem converts_of_isOpen (e : LineEnd) {kind : LexemeKind} {c : Char} {line tail : List Char}
    (hk : Opening.ofChars (some c) line.head? = .lexeme kind)
    (hopen : (ofKind kind c line).isOpen = true) (hcr : '\r' ∉ line ++ tail) :
    Converts e (ofKind kind c (line ++ tail)) (ofKind kind c (e.convert (line ++ tail))) := by
  cases kind with
  | string =>
    have hquote := Opening.isQuote_of_string hk
    have hc : c ≠ '\n' := by rcases hquote with rfl | rfl <;> decide
    have hm : [c, c].isPrefixOf line = true := (Bool.and_eq_true_iff.1 hopen).1
    obtain ⟨ds, rfl⟩ := List.isPrefixOf_iff_prefix.1 hm
    obtain ⟨us, closed, hread⟩ : ∃ us closed,
      QuoteForm.readUnits ⟨Quoted.quoteOf c, true⟩ (ds ++ tail) = (us, closed) := ⟨_, _, rfl⟩
    have hcr' : '\r' ∉ ds ++ tail := fun hmem => hcr (by
      rw [List.append_assoc]
      exact List.mem_append_right _ hmem)
    obtain ⟨us', hread', hus⟩ := QuoteForm.readUnits_convert rfl e hcr' hread
    have hpair (cs : List Char) : [c, c].isPrefixOf (c :: c :: cs) = true :=
      List.isPrefixOf_iff_prefix.2 (List.prefix_append [c, c] cs)
    simp only [ofKind, List.cons_append, List.nil_append, e.convert_cons_of_ne hc,
      Quoted.read_of_multiline (hpair _), List.drop_succ_cons, List.drop_zero, hread, hread']
    exact .quoted rfl hus
  | blockComment =>
    obtain ⟨rfl, hstar⟩ := Opening.marks_of_blockComment hk
    obtain ⟨ds, rfl⟩ := List.head?_eq_some_iff.1 hstar
    have hread (cs : List Char) : ofKind .blockComment '/' ('*' :: cs) =
        .blockComment ('/' :: '*' :: (Comment.blockRun 1 cs).1) (Comment.blockRun 1 cs).2 := rfl
    rw [List.cons_append, e.convert_cons_of_ne (by decide), hread, hread, Comment.blockRun_convert,
      ← e.convert_cons_of_ne (c := '*') (by decide), ← e.convert_cons_of_ne (c := '/') (by decide)]
    exact .blockComment
  | symbol =>
    rcases readSymbol_cases c line with ⟨o, h⟩ | ⟨p, h, -⟩ | h <;>
      · rw [ofKind, h] at hopen
        simp [isOpen] at hopen
  | _ => simp [ofKind, readNumber, isOpen] at hopen

/-- The lexeme of a sort is that lexeme with its line ends converted. -/
theorem converts_ofKind (e : LineEnd) {kind : LexemeKind} {c : Char} {cs : List Char}
    (hk : Opening.ofChars (some c) cs.head? = .lexeme kind) (hc : c ≠ '\n') (hcr : '\r' ∉ cs) :
    Converts e (ofKind kind c cs) (ofKind kind c (e.convert cs)) := by
  obtain ⟨line, tail, rfl, hline, htail⟩ := exists_firstLine cs
  rw [Opening.ofChars_append htail] at hk
  cases hopen : (ofKind kind c line).isOpen with
  | true => exact converts_of_isOpen e hk hopen hcr
  | false =>
    -- the lexeme ends on its first line, whatever that ends with
    rw [e.convert_append, e.convert_eq_self hline, ofKind_append hk hopen htail,
      ofKind_append hk hopen (e.atLineEnd_convert htail)]
    refine .same fun hmem => ?_
    rcases List.mem_cons.1 ((isPrefix_chars_ofKind hk).subset hmem) with h | h
    · exact hc h.symm
    · exact hline h

/-- **A lexeme is read with its line ends converted** where the line ends of the text
are converted. -/
theorem exists_read?_convert (e : LineEnd) {text : List Char} (hl : read? text = some l)
    (hcr : '\r' ∉ text) : ∃ l', read? (e.convert text) = some l' ∧ Converts e l l' := by
  obtain ⟨c, cs, rfl, ⟨hk, rfl⟩ | ⟨kind, hk, rfl⟩⟩ := exists_opening_of_read? hl
  · exact ⟨_, read?_convert_of_isBlank e (Opening.isBlank_of_blanks hk) cs, .blanks⟩
  · have hc : c ≠ '\n' := by
      rintro rfl
      exact absurd (Opening.not_isBlank hk) (by decide)
    refine ⟨_, ?_, converts_ofKind e hk hc fun h => hcr (List.mem_cons_of_mem _ h)⟩
    rw [e.convert_cons_of_ne hc, read?_of_opening (by rw [ofChars_convert, hk])]

end Lexeme

end Lexis
