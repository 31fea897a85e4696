/-
# Scanning by lines

A unit may be scanned in parts that are put together with line feeds: the first
part leaves what it would leave alone, and the second part what it would leave
alone, moved down.

Over the first part two readers go the same steps, one of the part alone and one
of the whole (`Reader.ahead_append_line`).  A lexeme that ends with the part
cannot tell the line feed from the end of the text, and its last character is no
carriage return that the line feed would make half a line end.  The blanks at
the end of the part may be a longer run in the whole, or end at another place;
they leave nothing.

A comment or a multi-line literal that the first part leaves open would go on in
the second.  `Source.Settled` says by the errors and tokens of the first part
that there is none.
-/

import Lexis.Proofs.Blanks
import Lexis.Proofs.Relocation

namespace Lexis

/-! ### Parts that leave nothing open -/

/-- Whether the payload is that of a multi-line string. -/
def Payload.isMultiline : Payload → Bool
  | .string _ _ _ multiline => multiline
  | _ => false

/-- The errors of the unit tell of no comment and no multi-line string that is
left open. -/
structure Source.Settled (s : Source) : Prop where
  /-- No comment is left open. -/
  comments : ∀ e ∈ s.errors, e.kind ≠ .unterminatedBlockComment
  /-- No string that is left open is a multi-line one. -/
  strings : ∀ e ∈ s.errors, e.kind = .unterminatedString →
    ∀ t ∈ s.tokens, t.span = e.span → t.payload.isMultiline = false

/-- No lexeme of a settled unit is left open. -/
theorem Source.Settled.not_isOpen {s : Source} (h : s.Settled) :
    ∀ l ∈ lexemes s.text, l.isOpen = false := by
  intro l hl
  rw [show s.text = (Reader.ofSource s).rest from rfl, ← Reader.map_fst_steps, List.mem_map] at hl
  obtain ⟨⟨l, r⟩, hstep, rfl⟩ := hl
  have herrors : ∀ e ∈ l.errors r, e ∈ s.errors := fun e he => mem_errors_of_mem_steps hstep he
  have htokens : ∀ t ∈ l.tokens r, t ∈ s.tokens := fun t ht =>
    s.tokens_eq ▸ Reader.mem_ahead.2 ⟨l, r, hstep, ht⟩
  rw [← Bool.not_eq_true]
  intro hopen
  cases l with
  | quoted literal =>
    simp only [Lexeme.isOpen, Bool.and_eq_true, Bool.not_eq_true'] at hopen
    obtain ⟨hm, hclosed⟩ := hopen
    have herror := Lexeme.mem_errors_iff.2 (Lexeme.Malformed.literal (r := r) hclosed)
    have htoken : ⟨.string literal.chars literal.value literal.form.isRaw literal.form.multiline,
        r.spanOver literal.chars.length⟩ ∈ (Lexeme.quoted literal).tokens r := by
      rw [Lexeme.tokens_eq]
      exact List.mem_cons_self
    have hsingle := h.strings _ (herrors _ herror) rfl _ (htokens _ htoken) rfl
    rw [Payload.isMultiline, hm] at hsingle
    simp at hsingle
  | blockComment run closed =>
    obtain rfl : closed = false := by simpa [Lexeme.isOpen] using hopen
    have herror := Lexeme.mem_errors_iff.2
      (.comment : Lexeme.Malformed r (.blockComment run false) _)
    exact h.comments _ (herrors _ herror) rfl
  | _ => simp [Lexeme.isOpen] at hopen

/-! ### The first part -/

namespace Reader

variable {α : Type} {f : Lexeme → Reader → List α} {move : Relocation → α → α}

/-- A run of characters leads to the same position if it is the same character
that comes after it. -/
theorem position_advanceBy_congr {r r' : Reader} {run after after' : List Char}
    (hr : r.rest = run ++ after) (hr' : r'.rest = run ++ after') (hpos : r'.position = r.position)
    (hhead : after'.head? = after.head?) :
    (r'.advanceBy run.length).position = (r.advanceBy run.length).position := by
  rw [advanceBy_length hr, advanceBy_length hr', hpos, hhead]

/-- A lexeme leaves in the whole what it leaves in the part that it stands in. -/
theorem ahead_append_of_read? (hf : Movable f move) {r r' : Reader} {l : Lexeme}
    {after : List Char} (hl : Lexeme.read? r.rest = some l) (hopen : l.isOpen = false)
    (hrest : r'.rest = r.rest ++ '\n' :: after) (hpos : r'.position = r.position) :
    r'.ahead f = f l r ++ (r'.advanceBy l.chars.length).ahead f := by
  have hr := (Lexeme.chars_append_drop hl).symm
  have hr' : r'.rest = l.chars ++ (r.rest.drop l.chars.length ++ '\n' :: after) := by
    rw [← List.append_assoc, ← hr, hrest]
  cases hb : l.isBlanks with
  | true =>
    obtain ⟨run, rfl⟩ := Lexeme.isBlanks_iff.1 hb
    have hblank := (Lexeme.blanks_of_read? hl).2.holds
    rw [hf.blanks run r, List.nil_append, ahead_advanceBy_of_isBlank hf hr' hblank]
  | false =>
    have hl' : Lexeme.read? r'.rest = some l := by
      rw [hrest]
      exact Lexeme.read?_append hl hb hopen (atLineEnd_cons.2 (Or.inl rfl))
    have hfollows := follows_same hr hr' hpos (Lexeme.not_isLineEnd_getLast? hl hb hopen)
    have hsame : f l r' = f l r := by
      rw [hf.follows hfollows, List.map_congr_left fun x _ => hf.same x, List.map_id']
    rw [ahead_of_read? f hl', hsame]

/-- **A line feed separates.**  A reader of the whole finds what a reader of the
first part finds, and then what is found after the line feed. -/
theorem ahead_append_line (hf : Movable f move) {r r' : Reader} {after : List Char}
    (hrest : r'.rest = r.rest ++ '\n' :: after) (hpos : r.rest ≠ [] → r'.position = r.position)
    (hopen : ∀ l ∈ lexemes r.rest, l.isOpen = false) :
    r'.ahead f = r.ahead f ++ (r'.advanceBy (r.rest.length + 1)).ahead f := by
  induction r using byLexemes generalizing r' with
  | atEnd r hr =>
    have hline : r'.rest = '\n' :: after := by rw [hrest, hr]; rfl
    rw [ahead_of_rest_eq_nil f hr, hr, List.nil_append]
    exact (ahead_advance_of_isBlank hf hline (by decide)).symm
  | lexeme r l hl ih =>
    have hr := (Lexeme.chars_append_drop hl).symm
    have hpos' : r'.position = r.position := hpos fun hnil => by simp [hnil, Lexeme.read?] at hl
    rw [lexemes_of_read? hl] at hopen
    obtain ⟨hopenl, hopentail⟩ := List.forall_mem_cons.1 hopen
    rw [ahead_append_of_read? hf hl hopenl hrest hpos', ahead_of_read? f hl, List.append_assoc]
    congr 1
    -- the readers after the lexeme are related as those before it
    have hr' : r'.rest = l.chars ++ (r.rest.drop l.chars.length ++ '\n' :: after) := by
      rw [← List.append_assoc, ← hr, hrest]
    have hlen : r.rest.length + 1 =
        l.chars.length + ((r.advanceBy l.chars.length).rest.length + 1) := by
      rw [rest_advanceBy, ← Nat.add_assoc, ← List.length_append, ← hr]
    rw [hlen, advanceBy_add]
    apply ih
    · rw [rest_advanceBy, rest_advanceBy, hr', List.drop_left]
    · intro hne
      rw [rest_advanceBy] at hne
      refine position_advanceBy_congr hr hr' hpos' ?_
      obtain ⟨c, cs, hcs⟩ := List.exists_cons_of_ne_nil hne
      rw [hcs]
      rfl
    · rwa [rest_advanceBy]

end Reader

/-! ### The whole -/

namespace Source

/-- The unit of a part, a line feed and another part. -/
def followedBy (a b : Source) : Source := { a with text := a.text ++ '\n' :: b.text }

/-- The reader of the whole before the second part. -/
def belowFirst (a b : Source) : Reader :=
  (Reader.ofSource (a.followedBy b)).advanceBy (a.text.length + 1)

theorem belowFirst_eq (a b : Source) : a.belowFirst b =
    ⟨a.followedBy b, Position.start.advanceOver (a.text ++ ['\n']) b.text.head?, b.text⟩ := by
  have hrest : (Reader.ofSource (a.followedBy b)).rest = (a.text ++ ['\n']) ++ b.text := by
    simp [Reader.ofSource, followedBy]
  have hline := Reader.advanceBy_length hrest
  rwa [List.length_append, List.length_singleton] at hline

theorem rest_belowFirst (a b : Source) : (a.belowFirst b).rest = b.text := by
  rw [belowFirst_eq]

/-- The second part begins on a line of its own. -/
theorem exists_position_belowFirst (a b : Source) :
    ∃ line, (a.belowFirst b).position = ⟨a.size + 1, line + 1, 1⟩ := by
  refine ⟨(Position.start.advanceOver a.text (some '\n')).line, ?_⟩
  have hoffset : (Position.start.advanceOver a.text (some '\n')).offset = a.size := by
    rw [Position.offset_advanceOver]
    exact Nat.zero_add _
  have hline : ∀ next, endsLine '\n' next = true := fun _ => rfl
  rw [belowFirst_eq, Position.advanceOver_concat, Position.advance, if_pos (hline _), hoffset]
  rfl

theorem toEnd_belowFirst (a b : Source) :
    (a.belowFirst b).toEnd = (Reader.ofSource (a.followedBy b)).toEnd := by
  apply Reader.toEnd_advanceBy
  simp [Reader.ofSource, followedBy]

end Source

/-- **A line feed separates two parts.**  If the first part leaves no comment and
no multi-line string open, its tokens and its errors are found unchanged in the
whole.  After them come the tokens and the errors of the second part, moved down
by the bytes of the first part and the line feed and to the line `k` after it. -/
theorem scan_followedBy {a b : Source} (h : a.Settled) :
    ∃ k, (a.followedBy b).positionAt (a.size + 1) = .ok ⟨a.size + 1, k, 1⟩ ∧
      (a.followedBy b).scan.1 =
        a.tokens ++ b.scan.1.map (Relocation.down (a.size + 1) (k - 1)).token ∧
      (a.followedBy b).errors =
        a.errors ++ b.errors.map (Relocation.down (a.size + 1) (k - 1)).error := by
  obtain ⟨line, hline⟩ := a.exists_position_belowFirst b
  have hstart : (a.belowFirst b).position =
      (Relocation.down (a.size + 1) line).place (Reader.ofSource b).position := by
    rw [hline]
    simp [Relocation.down, Reader.ofSource, Position.start, Nat.add_comm]
  have hsplit {α : Type} {f : Lexeme → Reader → List α} {move : Relocation → α → α}
      (hf : Movable f move) : (Reader.ofSource (a.followedBy b)).ahead f =
        (Reader.ofSource a).ahead f ++
          ((Reader.ofSource b).ahead f).map (move (Relocation.down (a.size + 1) line)) := by
    have hfirst : (Reader.ofSource (a.followedBy b)).ahead f =
        (Reader.ofSource a).ahead f ++ (a.belowFirst b).ahead f :=
      Reader.ahead_append_line hf rfl (fun _ => rfl) h.not_isOpen
    rw [hfirst, Reader.ahead_of_follows hf (a.rest_belowFirst b)
      (Reader.follows_down (a.rest_belowFirst b) hstart _)]
  refine ⟨line + 1, ?_, ?_, ?_⟩
  · have hstands : (a.belowFirst b).StandsIn (a.followedBy b) :=
      (Reader.standsIn_ofSource _).advanceBy _
    have hat := hstands.positionAt
    rwa [hline] at hat
  · have hend : (Reader.ofSource (a.followedBy b)).toEnd.position =
        (Relocation.down (a.size + 1) line).place (Reader.ofSource b).toEnd.position := by
      rw [← a.toEnd_belowFirst b, Reader.toEnd, a.rest_belowFirst b]
      exact Reader.position_advanceBy_down (a.rest_belowFirst b) hstart _
    rw [Source.scan_fst, Source.scan_fst, Source.tokens_eq, Source.tokens_eq, Source.tokens_eq,
      hsplit Lexeme.movable_tokens, List.map_append, List.append_assoc, hend]
    rfl
  · rw [Source.errors_eq, Source.errors_eq, Source.errors_eq, hsplit Lexeme.movable_errors]
    rfl

/-- The first part ends with an open string and a carriage return, which together
with the line feed ends one line. -/
theorem scan_followedBy_carriageReturn :
    ((Source.ofString "a" "1_x \"\\q\r").followedBy (Source.ofString "b" "\"\"\"z")).scan.1 =
      (Source.ofString "a" "1_x \"\\q\r").tokens ++
        (Source.ofString "b" "\"\"\"z").scan.1.map (Relocation.down 9 1).token := by
  have hsettled : (Source.ofString "a" "1_x \"\\q\r").Settled :=
    ⟨by decide +kernel, by decide +kernel⟩
  obtain ⟨k, hk, hscan, -⟩ := scan_followedBy (b := Source.ofString "b" "\"\"\"z") hsettled
  have hline : ((Source.ofString "a" "1_x \"\\q\r").followedBy
      (Source.ofString "b" "\"\"\"z")).positionAt 9 = .ok ⟨9, 2, 1⟩ := rfl
  obtain rfl : k = 2 := congrArg Position.line (Except.ok.inj (hk.symm.trans hline))
  exact hscan

end Lexis
