/-
# How far a string literal looks ahead

A unit of a string literal is read with one character of lookahead: the
character after it decides whether a run of digits goes on, and whether a
carriage return is alone (`QuoteForm.unit?_congr`).  A literal is read with one
more at its start, since three delimiters are not an empty literal and a
delimiter.

So a literal is read as it was if the text after it is replaced by one that
begins with the same character or with a line end (`Quoted.read_congr`).  Only
a multi-line literal that is left open needs all of the text to stay as it is.
-/

import Lexis.Proofs.Lookahead.Numeral

namespace Lexis

/-- Two texts after a unit of a literal make no difference to it: they begin alike,
or the line ends at both and the literal is not multi-line. -/
def SeenAlike (multiline : Bool) (y y' : List Char) : Prop :=
  y'.head? = y.head? ∨ multiline = false ∧ AtLineEnd y ∧ AtLineEnd y'

/-- A class without line ends cannot tell the two texts apart. -/
theorem SeenAlike.head?_eq_of_mem {multiline : Bool} {y y' : List Char}
    (h : SeenAlike multiline y y') {p : Char → Bool} (hn : p '\n' = false) (hr : p '\r' = false) :
    ∀ c ∈ y'.head?, p c = true → y.head? = some c := by
  intro c hc hp
  rcases h with h | ⟨-, -, h⟩
  · exact h ▸ hc
  · rw [h.not_of_head? hn hr c hc] at hp
    simp at hp

/-- A run of at most `k` characters of a class ends where it did if the class
cannot tell the two texts after it apart. -/
theorem takeWhile_take_congr {p : Char → Bool} {k : Nat} {run y y' : List Char}
    (h : ((run ++ y).take k).takeWhile p = run)
    (hy : ∀ c ∈ y'.head?, p c = true → y.head? = some c) :
    ((run ++ y').take k).takeWhile p = run := by
  induction run generalizing k with
  | nil =>
    cases k with
    | zero => rfl
    | succ k =>
      cases y' with
      | nil => rfl
      | cons c cs =>
        by_cases hc : p c = true
        · obtain ⟨ds, rfl⟩ := List.head?_eq_some_iff.1 (hy c rfl hc)
          simp [hc] at h
        · simp [hc]
  | cons d ds ih =>
    cases k with
    | zero => simp at h
    | succ k =>
      by_cases hd : p d = true
      · simp only [List.cons_append, List.take_succ_cons, List.takeWhile_cons, hd, if_true,
          List.cons.injEq, true_and] at h ⊢
        exact ih h
      · simp [hd] at h

theorem takeWhile_congr {p : Char → Bool} {run y y' : List Char}
    (h : (run ++ y).takeWhile p = run) (hy : ∀ c ∈ y'.head?, p c = true → y.head? = some c) :
    (run ++ y').takeWhile p = run := by
  have hk : ((run ++ y).take ((run ++ y).length + (run ++ y').length)).takeWhile p = run := by
    rwa [List.take_of_length_le (by omega)]
  have hk' := takeWhile_take_congr hk hy
  rwa [List.take_of_length_le (by omega)] at hk'

/-- An escape is read as it was after the two texts are exchanged. -/
theorem Escape.read_congr {multiline : Bool} {c : Char} {run y y' : List Char}
    (h : (read c (run ++ y)).chars = '\\' :: c :: run) (hy : SeenAlike multiline y y') :
    read c (run ++ y') = read c (run ++ y) := by
  have hdigit := hy.head?_eq_of_mem (p := isDecimalDigit) (by decide) (by decide)
  have hhex := hy.head?_eq_of_mem (p := isHexDigit) (by decide) (by decide)
  unfold read at h ⊢
  split
  · rename_i hc
    rw [if_pos hc] at h
    have hrun : (run ++ y).takeWhile isDecimalDigit = run := by simpa [chars] using h
    rw [hrun, takeWhile_congr hrun hdigit]
  · rename_i hc
    rw [if_neg hc] at h
    split
    · rename_i hx
      rw [if_pos hx] at h
      have hrun : hexRun 2 (run ++ y) = run := by simpa [chars, hx] using h
      rw [hrun, hexRun, takeWhile_take_congr hrun hhex]
    · rename_i hx
      rw [if_neg hx] at h
      split
      · rename_i hu
        rw [if_pos hu] at h
        have hrun : hexRun 4 (run ++ y) = run := by simpa [chars, hu] using h
        rw [hrun, hexRun, takeWhile_take_congr hrun hhex]
      · rfl

/-- An escape consists of a backslash, the character after it and more. -/
theorem Escape.exists_chars_read (c : Char) (text : List Char) :
    ∃ run, (read c text).chars = '\\' :: c :: run := by
  unfold read
  split
  · exact ⟨_, rfl⟩
  · split
    · rename_i hc; exact ⟨_, by rw [hc]; rfl⟩
    · split
      · rename_i hc; exact ⟨_, by rw [hc]; rfl⟩
      · exact ⟨[], rfl⟩

namespace QuoteUnit

/-- Where nothing stands that a backslash could escape it is left dangling. -/
theorem readEscaped_of_atLineEnd {multiline : Bool} {y : List Char} (h : AtLineEnd y)
    (hm : y ≠ [] → multiline = false) : readEscaped multiline y = .dangling := by
  cases y with
  | nil => rfl
  | cons c cs =>
    have hc : isLineEnd c = true := h c rfl
    simp [readEscaped, hc, hm]

/-- What a backslash begins is read as it was after the two texts are exchanged. -/
theorem readEscaped_congr {multiline : Bool} {run y y' : List Char}
    (h : (readEscaped multiline (run ++ y)).chars = '\\' :: run) (hy : SeenAlike multiline y y') :
    readEscaped multiline (run ++ y') = readEscaped multiline (run ++ y) := by
  cases run with
  | nil =>
    -- nothing is escaped, so the literal is left open here
    have hend : AtLineEnd y ∧ (y ≠ [] → multiline = false) := by
      cases y with
      | nil => exact ⟨atLineEnd_nil, by simp⟩
      | cons c cs =>
        rw [List.nil_append, readEscaped] at h
        split at h
        · rename_i hc
          split at h
          · split at h <;> simp [chars] at h
          · rename_i hm
            refine ⟨fun d hd => ?_, fun _ => by simpa using hm⟩
            obtain rfl := Option.some.inj hd
            exact hc
        · obtain ⟨run, hrun⟩ := Escape.exists_chars_read c cs
          rw [chars, hrun] at h
          simp at h
    have hend' : AtLineEnd y' ∧ (y' ≠ [] → multiline = false) := by
      rcases hy with hy | ⟨hm, -, hy⟩
      · refine ⟨fun c hc => hend.1 c (hy ▸ hc), fun hne => hend.2 fun hnil => hne ?_⟩
        rw [hnil] at hy
        exact List.head?_eq_none_iff.1 hy
      · exact ⟨hy, fun _ => hm⟩
    rw [List.nil_append, List.nil_append, readEscaped_of_atLineEnd hend.1 hend.2,
      readEscaped_of_atLineEnd hend'.1 hend'.2]
  | cons c cs =>
    simp only [List.cons_append, readEscaped] at h ⊢
    split
    · rename_i hc
      rw [if_pos hc] at h
      split
      · rename_i hm
        have hhead : (cs ++ y').head? = (cs ++ y).head? := by
          rcases hy with hy | ⟨hf, -⟩
          · rw [List.head?_append, List.head?_append, hy]
          · simp [hm] at hf
        rw [hhead]
      · rfl
    · rename_i hc
      rw [if_neg hc] at h
      rw [Escape.read_congr h hy]

end QuoteUnit

namespace QuoteForm

variable {f : QuoteForm} {u : QuoteUnit} {y y' : List Char}

/-- **A unit sees one character ahead:** it is read as it was after two texts that
begin alike are exchanged. -/
theorem unit?_congr (h : f.unit? (u.chars ++ y) = some u) (hy : SeenAlike f.multiline y y') :
    f.unit? (u.chars ++ y') = some u := by
  obtain ⟨c, run, hrun⟩ := List.exists_cons_of_ne_nil u.chars_ne_nil
  rw [hrun, List.cons_append, unit?] at h ⊢
  split at h
  · simp at h
  · rename_i hend
    rw [if_neg hend]
    split at h
    · rename_i hc
      rw [if_pos hc]
      have hu := Option.some.inj h
      rw [QuoteUnit.readEscaped_congr (by rw [hu, hrun, hc.1]) hy, hu]
    · rename_i hc
      rw [if_neg hc]
      exact h

theorem delimiter_ne_nil (f : QuoteForm) : f.delimiter ≠ [] := by
  cases hf : f.multiline <;> simp [delimiter, hf]

theorem not_isLineEnd_quote (q : Quote) : isLineEnd q.char = false := by
  cases q <;> decide

theorem delimiter_eq_cons (f : QuoteForm) :
    f.delimiter = f.quote.char :: f.delimiter.tail := by
  cases hm : f.multiline <;> simp [delimiter, hm, List.replicate_succ]

/-- Where another character than the delimiter stands, no literal closes. -/
theorem closesAt_of_ne {c : Char} (h : c ≠ f.quote.char) (cs : List Char) :
    f.closesAt (c :: cs) = false := by
  rw [← Bool.not_eq_true, closesAt, List.isPrefixOf_iff_prefix, delimiter_eq_cons]
  rintro ⟨rest, hrest⟩
  exact h (List.cons.inj hrest).1.symm

/-- Whether a literal closes is seen from as many characters as its delimiter has. -/
theorem closesAt_append {x : List Char} (h : f.delimiter.length ≤ x.length) (y : List Char) :
    f.closesAt (x ++ y) = f.closesAt x := by
  rw [closesAt, closesAt, Bool.eq_iff_iff, List.isPrefixOf_iff_prefix, List.isPrefixOf_iff_prefix]
  exact ⟨fun hp => List.prefix_of_prefix_length_le hp (List.prefix_append x y) h,
    fun hp => hp.trans (List.prefix_append x y)⟩

theorem closesAt_delimiter (f : QuoteForm) (y : List Char) : f.closesAt (f.delimiter ++ y) = true :=
  List.isPrefixOf_iff_prefix.2 (List.prefix_append _ y)

/-- No literal closes at the end of a line. -/
theorem closesAt_of_atLineEnd (h : AtLineEnd y) : f.closesAt y = false := by
  rw [← Bool.not_eq_true, closesAt, List.isPrefixOf_iff_prefix]
  rintro ⟨rest, rfl⟩
  have hquote : isLineEnd f.quote.char = true := by
    apply h
    cases hf : f.multiline <;> simp [delimiter, hf, List.replicate_succ]
  simp [not_isLineEnd_quote] at hquote

/-- Where a literal is left open: at the end of the text, or of the line if it is
not multi-line. -/
theorem unit?_eq_none_iff :
    f.unit? y = none ↔ AtLineEnd y ∧ (y ≠ [] → f.multiline = false) := by
  cases y with
  | nil => simp [unit?, atLineEnd_nil]
  | cons c cs =>
    simp only [unit?]
    split
    · rename_i hc
      simp [AtLineEnd, hc]
    · rename_i hc
      have hnot : ¬ (AtLineEnd (c :: cs) ∧ (c :: cs ≠ [] → f.multiline = false)) := fun hend =>
        hc ⟨hend.1 c rfl, hend.2 (List.cons_ne_nil c cs)⟩
      simp only [hnot, iff_false]
      split <;> simp

/-- What a backslash begins is an escape, unless a line end comes after it. -/
theorem unit?_backslash (hraw : f.isRaw = false) {c : Char} (hc : isLineEnd c = false)
    (cs : List Char) : f.unit? ('\\' :: c :: cs) = some (.escape (Escape.read c cs)) := by
  have hend : ¬ (isLineEnd '\\' = true ∧ f.multiline = false) := by simp [isLineEnd]
  rw [unit?, if_neg hend, if_pos ⟨rfl, hraw⟩, QuoteUnit.readEscaped, hc]
  rfl

/-- Any other character stands for itself. -/
theorem unit?_plain {c : Char} (hend : isLineEnd c = true → f.multiline = true)
    (hback : c = '\\' → f.isRaw = true) (cs : List Char) :
    f.unit? (c :: cs) = some (.plain c) := by
  have hend' : ¬ (isLineEnd c = true ∧ f.multiline = false) := fun h => by
    simp [hend h.1] at h
  have hback' : ¬ (c = '\\' ∧ f.isRaw = false) := fun h => by
    simp [hback h.1] at h
  rw [unit?, if_neg hend', if_neg hback']

theorem readUnits_of_closesAt {text : List Char} (h : f.closesAt text = true) :
    f.readUnits text = ([], true) := by
  rw [readUnits, if_pos h]

theorem readUnits_of_unit?_eq_none {text : List Char} (h : f.closesAt text = false)
    (hu : f.unit? text = none) : f.readUnits text = ([], false) := by
  rw [readUnits, if_neg (by simp [h])]
  split
  · rfl
  · simp_all

theorem readUnits_of_unit? {text : List Char} (h : f.closesAt text = false)
    (hu : f.unit? text = some u) :
    f.readUnits text = (u :: (f.readUnits (text.drop u.chars.length)).1,
      (f.readUnits (text.drop u.chars.length)).2) := by
  rw [readUnits, if_neg (by simp [h])]
  split
  · simp_all
  · rename_i v hv
    obtain rfl : u = v := Option.some.inj (hu.symm.trans hv)
    rfl

/-- The first unit of a literal, the others, and why they are read. -/
theorem of_readUnits_cons {text : List Char} {us : List QuoteUnit} {closed : Bool}
    (h : f.readUnits text = (u :: us, closed)) :
    f.closesAt text = false ∧ f.unit? text = some u ∧
      f.readUnits (text.drop u.chars.length) = (us, closed) := by
  cases hc : f.closesAt text with
  | true => rw [readUnits_of_closesAt hc] at h; simp at h
  | false =>
    cases hu : f.unit? text with
    | none => rw [readUnits_of_unit?_eq_none hc hu] at h; simp at h
    | some v =>
      rw [readUnits_of_unit? hc hu, Prod.mk.injEq, List.cons.injEq] at h
      obtain ⟨⟨rfl, rfl⟩, rfl⟩ := h
      exact ⟨rfl, rfl, rfl⟩

/-- Without units a literal closes at once or is left open at once. -/
theorem of_readUnits_nil {text : List Char} {closed : Bool} (h : f.readUnits text = ([], closed)) :
    f.closesAt text = closed ∧ (closed = false → f.unit? text = none) := by
  cases hc : f.closesAt text with
  | true =>
    rw [readUnits_of_closesAt hc] at h
    obtain rfl := (Prod.mk.inj h).2
    exact ⟨rfl, by simp⟩
  | false =>
    cases hu : f.unit? text with
    | none =>
      rw [readUnits_of_unit?_eq_none hc hu] at h
      obtain rfl := (Prod.mk.inj h).2
      exact ⟨rfl, fun _ => rfl⟩
    | some v => rw [readUnits_of_unit? hc hu] at h; simp at h

theorem body_cons (f : QuoteForm) (u : QuoteUnit) (us : List QuoteUnit) (closed : Bool) :
    f.body (u :: us) closed = u.chars ++ f.body us closed := by
  simp [body]

/-- Only a literal that is left open at once has nothing after its delimiter. -/
theorem body_eq_nil_iff {us : List QuoteUnit} {closed : Bool} :
    f.body us closed = [] ↔ us = [] ∧ closed = false := by
  cases us with
  | nil => cases closed <;> simp [body, delimiter_ne_nil]
  | cons u us => simp [body_cons, u.chars_ne_nil]

/-- The units of a literal end where it is closed or left open. -/
theorem atLineEnd_of_readUnits {us : List QuoteUnit}
    (h : f.readUnits (f.body us false ++ y) = (us, false)) :
    AtLineEnd y ∧ (y ≠ [] → f.multiline = false) := by
  induction us with
  | nil => exact unit?_eq_none_iff.1 ((of_readUnits_nil h).2 rfl)
  | cons u us ih =>
    obtain ⟨-, -, hrest⟩ := of_readUnits_cons h
    rw [body_cons, List.append_assoc, List.drop_left] at hrest
    exact ih hrest

/-- **The content of a literal** is read as it was whatever follows the delimiter
that closes it, and whatever follows the end of the line that leaves it open. -/
theorem readUnits_congr {us : List QuoteUnit} {closed : Bool}
    (h : f.readUnits (f.body us closed ++ y) = (us, closed))
    (hy : closed = true ∨ f.multiline = false ∧ AtLineEnd y') :
    f.readUnits (f.body us closed ++ y') = (us, closed) := by
  induction us with
  | nil =>
    rcases hy with rfl | ⟨hm, hend⟩
    · rw [show f.body [] true = f.delimiter from rfl]
      exact readUnits_of_closesAt (closesAt_delimiter f y')
    · cases closed with
      | true =>
        rw [show f.body [] true = f.delimiter from rfl]
        exact readUnits_of_closesAt (closesAt_delimiter f y')
      | false =>
        exact readUnits_of_unit?_eq_none (closesAt_of_atLineEnd hend)
          (unit?_eq_none_iff.2 ⟨hend, fun _ => hm⟩)
  | cons u us ih =>
    obtain ⟨hclose, hunit, hrest⟩ := of_readUnits_cons h
    rw [body_cons, List.append_assoc] at hclose hunit hrest ⊢
    rw [List.drop_left] at hrest
    have hseen : SeenAlike f.multiline (f.body us closed ++ y) (f.body us closed ++ y') := by
      by_cases hnil : f.body us closed = []
      · obtain ⟨rfl, rfl⟩ := body_eq_nil_iff.1 hnil
        rcases hy with hy | ⟨hm, hend⟩
        · simp at hy
        · exact Or.inr ⟨hm, (atLineEnd_of_readUnits hrest).1, hend⟩
      · obtain ⟨c, cs, hbody⟩ := List.exists_cons_of_ne_nil hnil
        exact Or.inl (by rw [hbody]; rfl)
    have hlen : f.delimiter.length ≤ (u.chars ++ f.body us closed).length := by
      have hu := u.length_chars_pos
      rw [List.length_append]
      rcases hy with rfl | ⟨hm, -⟩
      · simp only [body, List.length_append, if_true]
        omega
      · simp only [delimiter, hm, Bool.false_eq_true, if_false, List.length_replicate]
        omega
    have hclose' : f.closesAt (u.chars ++ (f.body us closed ++ y')) = false := by
      rw [← List.append_assoc, closesAt_append hlen] at hclose ⊢
      exact hclose
    rw [readUnits_of_unit? hclose' (unit?_congr hunit hseen), List.drop_left, ih hrest]

end QuoteForm

namespace Quoted

/-- The delimiter that a character is. -/
def quoteOf (c : Char) : Quote := if c = '\x60' then .backtick else .double

theorem char_quoteOf {c : Char} (h : c = '\x22' ∨ c = '\x60') : (quoteOf c).char = c := by
  rcases h with rfl | rfl <;> rfl

theorem read_of_multiline {c : Char} {text : List Char} (h : [c, c].isPrefixOf text = true) :
    read c text = ⟨⟨quoteOf c, true⟩, (QuoteForm.readUnits ⟨quoteOf c, true⟩ (text.drop 2)).1,
      (QuoteForm.readUnits ⟨quoteOf c, true⟩ (text.drop 2)).2⟩ := by
  simp only [read, h, if_true]
  rfl

theorem read_of_singleLine {c : Char} {text : List Char} (h : [c, c].isPrefixOf text = false) :
    read c text = ⟨⟨quoteOf c, false⟩, (QuoteForm.readUnits ⟨quoteOf c, false⟩ text).1,
      (QuoteForm.readUnits ⟨quoteOf c, false⟩ text).2⟩ := by
  simp only [read, h, Bool.false_eq_true, if_false]
  rfl

/-- No further delimiters come to stand after a first one if the text after a literal
is exchanged for one that begins alike or with a line end. -/
theorem isPrefixOf_pair_congr {c : Char} (hc : isLineEnd c = false) {run y y' : List Char}
    (h : [c, c].isPrefixOf (run ++ y) = false) (hnil : run = [] → AtLineEnd y')
    (hy : y'.head? = y.head? ∨ AtLineEnd y') : [c, c].isPrefixOf (run ++ y') = false := by
  have hend : AtLineEnd y' → y'.head? ≠ some c := fun hend hhead => by
    rw [hend c hhead] at hc
    simp at hc
  match run with
  | [] =>
    cases y' with
    | nil => rfl
    | cons d ds =>
      have hd : c ≠ d := fun hcd => hend (hnil rfl) (by rw [hcd]; rfl)
      simp [List.isPrefixOf, hd]
  | [d] =>
    rw [← Bool.not_eq_true, List.isPrefixOf_iff_prefix] at h ⊢
    rintro ⟨rest, hrest⟩
    obtain ⟨rfl, rfl⟩ : c = d ∧ c :: rest = y' := List.cons.inj hrest
    rcases hy with hy | hy
    · obtain ⟨more, rfl⟩ := List.head?_eq_some_iff.1 hy.symm
      exact h ⟨more, rfl⟩
    · exact hend hy rfl
  | d :: e :: ds => exact h

/-- **A string literal is read as it was** if the text after it is exchanged for
one that begins alike or with a line end, unless it is a multi-line literal that
is left open. -/
theorem read_congr {c : Char} (hc : c = '\x22' ∨ c = '\x60') {run y y' : List Char}
    (h : (read c (run ++ y)).chars = c :: run) (hy : y'.head? = y.head? ∨ AtLineEnd y')
    (hopen : (read c (run ++ y)).closed = true ∨ (read c (run ++ y)).form.multiline = false) :
    read c (run ++ y') = read c (run ++ y) := by
  have hquote := char_quoteOf hc
  cases hm : [c, c].isPrefixOf (run ++ y) with
  | true =>
    rw [read_of_multiline hm] at h hopen ⊢
    obtain ⟨us, closed, hread⟩ : ∃ us closed,
      QuoteForm.readUnits ⟨quoteOf c, true⟩ ((run ++ y).drop 2) = (us, closed) := ⟨_, _, rfl⟩
    rw [hread] at h hopen ⊢
    have hclosed : closed = true := by simpa using hopen
    obtain rfl : run = c :: c :: QuoteForm.body ⟨quoteOf c, true⟩ us closed := by
      simpa [chars, QuoteForm.delimiter, hquote, List.replicate_succ] using h.symm
    have hm' : [c, c].isPrefixOf
        (c :: c :: QuoteForm.body ⟨quoteOf c, true⟩ us closed ++ y') = true := by
      simp
    have hcongr : QuoteForm.readUnits ⟨quoteOf c, true⟩
        (QuoteForm.body ⟨quoteOf c, true⟩ us closed ++ y') = (us, closed) :=
      QuoteForm.readUnits_congr hread (Or.inl hclosed)
    rw [read_of_multiline hm']
    exact congrArg (fun r : List QuoteUnit × Bool => Quoted.mk _ r.1 r.2) hcongr
  | false =>
    rw [read_of_singleLine hm] at h hopen ⊢
    obtain ⟨us, closed, hread⟩ : ∃ us closed,
      QuoteForm.readUnits ⟨quoteOf c, false⟩ (run ++ y) = (us, closed) := ⟨_, _, rfl⟩
    rw [hread] at h hopen ⊢
    obtain rfl : run = QuoteForm.body ⟨quoteOf c, false⟩ us closed := by
      simpa [chars, QuoteForm.delimiter, hquote] using h.symm
    have hend : closed = false → AtLineEnd y' := by
      rintro rfl
      have hend := (QuoteForm.atLineEnd_of_readUnits hread).1
      rcases hy with hy | hy
      · exact fun d hd => hend d (hy ▸ hd)
      · exact hy
    have hm' : [c, c].isPrefixOf (QuoteForm.body ⟨quoteOf c, false⟩ us closed ++ y') = false :=
      isPrefixOf_pair_congr (hquote ▸ QuoteForm.not_isLineEnd_quote _) hm
        (fun hnil => hend (QuoteForm.body_eq_nil_iff.1 hnil).2) hy
    have hclose : closed = true ∨ false = false ∧ AtLineEnd y' := by
      cases closed with
      | true => exact Or.inl rfl
      | false => exact Or.inr ⟨rfl, hend rfl⟩
    have hcongr : QuoteForm.readUnits ⟨quoteOf c, false⟩
        (QuoteForm.body ⟨quoteOf c, false⟩ us closed ++ y') = (us, closed) :=
      QuoteForm.readUnits_congr hread hclose
    rw [read_of_singleLine hm', hcongr]

/-- A multi-line literal that is left open takes all of the text. -/
theorem chars_read_of_open {c : Char} (hc : c = '\x22' ∨ c = '\x60') {text : List Char}
    (hm : (read c text).form.multiline = true) (hopen : (read c text).closed = false) :
    (read c text).chars = c :: text := by
  cases hpair : [c, c].isPrefixOf text with
  | false => simp [read_of_singleLine hpair] at hm
  | true =>
    obtain ⟨after, rfl⟩ := List.isPrefixOf_iff_prefix.1 hpair
    rw [read_of_multiline hpair] at hopen ⊢
    obtain ⟨y, hy⟩ := QuoteForm.isPrefix_body_readUnits ⟨quoteOf c, true⟩ after
    obtain ⟨us, closed, hread⟩ : ∃ us closed,
      QuoteForm.readUnits ⟨quoteOf c, true⟩ after = (us, closed) := ⟨_, _, rfl⟩
    rw [hread] at hy
    simp only [List.cons_append, List.nil_append, List.drop_succ_cons, List.drop_zero,
      hread] at hopen ⊢
    subst hopen
    -- after the units the text has ended, since lines may end inside the literal
    have hnil : y = [] := by
      have hend := (QuoteForm.atLineEnd_of_readUnits (hy.symm ▸ hread)).2
      cases y with
      | nil => rfl
      | cons d ds => simpa using hend (List.cons_ne_nil d ds)
    rw [hnil, List.append_nil] at hy
    simp only [chars, hy]
    simp [QuoteForm.delimiter, char_quoteOf hc, List.replicate_succ]

/-! ### What a literal holds and ends with -/

/-- A literal that is closed ends with its delimiter. -/
theorem getLast?_chars_of_closed {q : Quoted} (h : q.closed = true) :
    q.chars.getLast? = some q.form.quote.char := by
  have hdelim : q.form.delimiter.getLast? = some q.form.quote.char := by
    cases hm : q.form.multiline <;> simp [QuoteForm.delimiter, hm]
  simp only [chars, QuoteForm.body, h, if_true]
  rw [← List.append_assoc, List.getLast?_append, hdelim, Option.some_or]

end Quoted

/-- An escape holds no line end but the one that it escapes. -/
theorem Escape.not_isLineEnd_of_mem_read {c d : Char} {text : List Char}
    (hc : isLineEnd c = false) (hd : d ∈ (read c text).chars) : isLineEnd d = false := by
  have hhex : ∀ n, d ∈ hexRun n text → isLineEnd d = false := fun n hmem =>
    not_isLineEnd_of_mem_takeWhile (by decide) (by decide) hmem
  unfold read at hd
  split at hd
  · simp only [chars, List.mem_cons] at hd
    rcases hd with rfl | rfl | hd
    · decide
    · exact hc
    · exact not_isLineEnd_of_mem_takeWhile (by decide) (by decide) hd
  · split at hd
    · simp only [chars, List.mem_cons] at hd
      rcases hd with rfl | rfl | hd
      · decide
      · decide
      · exact hhex 2 hd
    · split at hd
      · simp only [chars, List.mem_cons] at hd
        rcases hd with rfl | rfl | hd
        · decide
        · decide
        · exact hhex 4 hd
      · simp only [chars, List.mem_cons, List.not_mem_nil, or_false] at hd
        rcases hd with rfl | rfl
        · decide
        · exact hc

/-- A unit of a literal that is not multi-line holds no line end. -/
theorem QuoteForm.not_isLineEnd_of_mem_unit? {f : QuoteForm} {text : List Char} {u : QuoteUnit}
    (hm : f.multiline = false) (h : f.unit? text = some u) {c : Char} (hc : c ∈ u.chars) :
    isLineEnd c = false := by
  cases text with
  | nil => simp [unit?] at h
  | cons x xs =>
    simp only [unit?, hm, and_true] at h
    split at h
    · simp at h
    · rename_i hx
      have hx' : isLineEnd x = false := by simpa using hx
      split at h
      · obtain rfl := Option.some.inj h
        cases xs with
        | nil =>
          obtain rfl : c = '\\' := by simpa [QuoteUnit.readEscaped, QuoteUnit.chars] using hc
          decide
        | cons d ds =>
          simp only [QuoteUnit.readEscaped, Bool.false_eq_true, if_false] at hc
          split at hc
          · obtain rfl : c = '\\' := by simpa [QuoteUnit.chars] using hc
            decide
          · rename_i hd
            exact Escape.not_isLineEnd_of_mem_read (by simpa using hd) hc
      · obtain rfl := Option.some.inj h
        obtain rfl : c = x := by simpa [QuoteUnit.chars] using hc
        exact hx'

theorem QuoteForm.not_isLineEnd_of_mem_readUnits {f : QuoteForm} (hm : f.multiline = false)
    {text : List Char} {u : QuoteUnit} (hu : u ∈ (f.readUnits text).1) {c : Char}
    (hc : c ∈ u.chars) : isLineEnd c = false := by
  fun_induction readUnits f text with
  | case1 => simp at hu
  | case2 => simp at hu
  | case3 text _ v hv units closed hread ih =>
    rcases List.mem_cons.1 hu with rfl | hu
    · exact not_isLineEnd_of_mem_unit? hm hv hc
    · exact ih (by rw [hread]; exact hu)

/-- A literal that is not multi-line holds no line end. -/
theorem Quoted.not_isLineEnd_of_mem_read {c : Char} {text : List Char}
    (hm : (read c text).form.multiline = false) {d : Char} (hd : d ∈ (read c text).chars) :
    isLineEnd d = false := by
  have hdelim : d ∈ (read c text).form.delimiter → isLineEnd d = false := fun hmem => by
    rw [QuoteForm.delimiter, List.mem_replicate] at hmem
    rw [hmem.2]
    exact QuoteForm.not_isLineEnd_quote _
  rw [chars, QuoteForm.body, List.mem_append, List.mem_append, List.mem_flatMap] at hd
  rcases hd with hd | ⟨u, hu, hd⟩ | hd
  · exact hdelim hd
  · exact QuoteForm.not_isLineEnd_of_mem_readUnits hm hu hd
  · split at hd
    · exact hdelim hd
    · simp at hd

end Lexis
