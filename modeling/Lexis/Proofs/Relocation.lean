/-
# Lexemes at another place

What a lexeme leaves depends on the reader before it by nothing but the
positions that the reader takes over the lexeme.  If the positions of one reader
are those of another, moved by a relocation (`Reader.Follows`), then so are the
tokens, the errors (`Movable`) and the trivia (`Lexeme.trivia_of_follows`) that the
lexemes before it leave.

Two readers take related positions in two cases.  Over the same text they stay
related if positions can be moved before a character is read or after it
(`Relocation.Commutes`), as for a reader that starts further down, at the start of a
line (`Reader.follows_down`).  From the same position two readers go on alike over a
run that does not end with half a line end, whatever comes after it
(`Reader.follows_same`).
-/

import Lexis.Proofs.Lexemes

namespace Lexis

/-! ### Relocations -/

/-- A map of positions that keeps the order of their offsets. -/
structure Relocation where
  /-- Where a position is moved. -/
  place : Position → Position
  /-- What comes first still does. -/
  mono : ∀ {p q : Position}, p.offset ≤ q.offset → (place p).offset ≤ (place q).offset

namespace Relocation

/-- All positions stay where they are. -/
def same : Relocation := ⟨id, id⟩

/-- All positions are moved by a number of bytes and lines, and keep their column. -/
def down (bytes lines : Nat) : Relocation where
  place p := ⟨p.offset + bytes, p.line + lines, p.column⟩
  mono h := Nat.add_le_add_right h bytes

/-- A position that satisfies `P` can be moved before a character is read or after it,
and reading keeps `P`. -/
structure Commutes (m : Relocation) (P : Position → Prop) : Prop where
  /-- Reading keeps `P`. -/
  keeps : ∀ {q : Position}, P q → ∀ c next, P (q.advance c next)
  /-- Both ways lead to the same position. -/
  advance : ∀ {q : Position}, P q → ∀ c next,
    (m.place q).advance c next = m.place (q.advance c next)

theorem commutes_down (bytes lines : Nat) : (down bytes lines).Commutes fun _ => True where
  keeps _ _ _ := trivial
  advance _ c next := by
    simp only [down, Position.advance]
    split <;> simp only [Nat.add_right_comm]

/-- The span between the moved ends. -/
def span (m : Relocation) (s : Span) : Span := ⟨m.place s.start, m.place s.stop, m.mono s.ordered⟩

/-- The token with its span moved. -/
def token (m : Relocation) (t : Token) : Token := { t with span := m.span t.span }

/-- The error with its span moved. -/
def error (m : Relocation) (e : LexError) : LexError := { e with span := m.span e.span }

/-- The trivia with its span moved. -/
def trivia (m : Relocation) (t : Trivia) : Trivia := { t with span := m.span t.span }

end Relocation

/-! ### Readers that take related positions -/

namespace Reader

/-- Over `n` characters the positions of `r'` are those of `r` moved by `m`. -/
def Follows (m : Relocation) (n : Nat) (r r' : Reader) : Prop :=
  ∀ k ≤ n, (r'.advanceBy k).position = m.place (r.advanceBy k).position

variable {m : Relocation} {n k : Nat} {r r' : Reader}

theorem Follows.mono (h : Follows m n r r') (hk : k ≤ n) : Follows m k r r' :=
  fun i hi => h i (Nat.le_trans hi hk)

theorem Follows.advanceBy (h : Follows m (k + n) r r') :
    Follows m n (r.advanceBy k) (r'.advanceBy k) := by
  intro i hi
  rw [← advanceBy_add, ← advanceBy_add]
  exact h (k + i) (by omega)

theorem Follows.spanOver (h : Follows m n r r') (hk : k ≤ n) :
    r'.spanOver k = m.span (r.spanOver k) := by
  have hstart : r'.position = m.place r.position := h 0 (Nat.zero_le n)
  have hstop := h k hk
  simp only [Reader.spanOver, Relocation.span, hstart, hstop]

/-- **Over the same text** two readers stay related as they start. -/
theorem position_advanceBy_of_commutes {P : Position → Prop} (hm : m.Commutes P)
    (hrest : r'.rest = r.rest) (hP : P r.position) (hpos : r'.position = m.place r.position)
    (k : Nat) : (r'.advanceBy k).position = m.place (r.advanceBy k).position := by
  induction k generalizing r r' with
  | zero => exact hpos
  | succ k ih =>
    have hrest' : r'.advance.rest = r.advance.rest := by rw [rest_advance, rest_advance, hrest]
    cases hr : r.rest with
    | nil =>
      have hstay := advance_eq_self hr
      have hstay' := advance_eq_self (hrest.trans hr)
      exact ih hrest' (hstay.symm ▸ hP) (by rw [hstay, hstay', hpos])
    | cons c cs =>
      have hstep : r.advance.position = r.position.advance c cs.head? := by
        simp only [advance, hr]
      have hstep' : r'.advance.position = r'.position.advance c cs.head? := by
        simp only [advance, hrest.trans hr]
      refine ih hrest' (hstep ▸ hm.keeps hP c _) ?_
      rw [hstep, hstep', hpos, hm.advance hP]

/-- Over the same text a reader stays as far below another one as it starts. -/
theorem position_advanceBy_down {bytes lines : Nat} (hrest : r'.rest = r.rest)
    (hpos : r'.position = (Relocation.down bytes lines).place r.position) (k : Nat) :
    (r'.advanceBy k).position = (Relocation.down bytes lines).place (r.advanceBy k).position :=
  position_advanceBy_of_commutes (Relocation.commutes_down bytes lines) hrest trivial hpos k

theorem follows_down {bytes lines : Nat} (hrest : r'.rest = r.rest)
    (hpos : r'.position = (Relocation.down bytes lines).place r.position) (n : Nat) :
    Follows (Relocation.down bytes lines) n r r' :=
  fun k _ => position_advanceBy_down hrest hpos k

end Reader

/-- No character but a carriage return looks at the one after it. -/
theorem Position.advance_congr {c : Char} (h : isLineEnd c = false) (p : Position)
    (x y : Option Char) : p.advance c x = p.advance c y := by
  simp only [isLineEnd, Bool.or_eq_false_iff] at h
  simp only [advance, endsLine, h.2, Bool.false_and]

/-- From the same position two readers go on alike over a run that does not end
with a line end, whatever comes after it. -/
theorem Reader.follows_same {r r' : Reader} {run after after' : List Char}
    (hr : r.rest = run ++ after) (hr' : r'.rest = run ++ after') (hpos : r'.position = r.position)
    (hlast : ∀ c ∈ run.getLast?, isLineEnd c = false) :
    Follows .same run.length r r' := by
  induction run generalizing r r' with
  | nil =>
    intro k hk
    obtain rfl := Nat.le_zero.1 hk
    exact hpos
  | cons c cs ih =>
    have hstep : r'.advance.position = r.advance.position := by
      simp only [advance, hr, hr', List.cons_append, hpos]
      cases cs with
      | nil => exact Position.advance_congr (hlast c rfl) _ _ _
      | cons d ds => rfl
    have hcs : ∀ d ∈ cs.getLast?, isLineEnd d = false := by
      intro d hd
      refine hlast d ?_
      rw [List.getLast?_cons, Option.mem_def.1 hd]
      rfl
    have hnext : Follows .same cs.length r.advance r'.advance :=
      ih (by rw [rest_advance, hr]; rfl) (by rw [rest_advance, hr']; rfl) hstep hcs
    intro k hk
    cases k with
    | zero => exact hpos
    | succ k => exact hnext k (Nat.le_of_succ_le_succ hk)

/-! ### What lexemes leave -/

/-- What lexemes leave can be moved: it follows the reader before the lexeme, and
a run of blanks leaves nothing. -/
structure Movable {α : Type} (f : Lexeme → Reader → List α) (move : Relocation → α → α) : Prop where
  /-- A run of blanks leaves nothing. -/
  blanks : ∀ run r, f (.blanks run) r = []
  /-- What is left is moved as the positions over the lexeme are. -/
  follows : ∀ {m l r r'}, Reader.Follows m l.chars.length r r' → f l r' = (f l r).map (move m)
  /-- Where no position is moved, nothing is. -/
  same : ∀ x, move .same x = x

namespace Lexeme

variable {m : Relocation} {r r' : Reader}

/-- The token of a lexeme is moved as the positions over the lexeme are. -/
theorem token?_of_follows {l : Lexeme} (h : Reader.Follows m l.chars.length r r') :
    l.token? r' = (l.token? r).map m.token := by
  cases hp : l.payload? with
  | none => rw [token?, token?, hp]; rfl
  | some p =>
    have hle : p.text.length ≤ l.chars.length := by
      rw [chars_of_payload? hp, List.length_append]
      omega
    rw [token?, token?, hp, Option.map_some, Option.map_some, Reader.spanSince_advanceBy,
      Reader.spanSince_advanceBy, h.spanOver hle]
    rfl

theorem movable_tokens : Movable tokens Relocation.token where
  blanks _ _ := rfl
  same _ := rfl
  follows h := by rw [tokens, tokens, token?_of_follows h, Option.toList_map]

theorem escapeErrors_of_follows {units : List QuoteUnit}
    (h : Reader.Follows m (units.flatMap QuoteUnit.chars).length r r') :
    escapeErrors units r' = (escapeErrors units r).map m.error := by
  induction units generalizing r r' with
  | nil => rfl
  | cons u units ih =>
    rw [List.flatMap_cons, List.length_append] at h
    rw [escapeErrors_cons, escapeErrors_cons, List.map_append, ih h.advanceBy,
      h.spanOver (Nat.le_add_right _ _)]
    split <;> rfl

theorem movable_errors : Movable errors Relocation.error where
  blanks _ _ := rfl
  same _ := rfl
  follows := by
    intro m l r r' h
    cases l with
    | number numeral suffix =>
      rw [chars, List.length_append] at h
      rw [errors_number, errors_number, h.spanOver (Nat.le_add_right _ _),
        h.advanceBy.spanOver (Nat.le_refl _), List.map_append]
      congr 1 <;> split <;> rfl
    | quoted literal =>
      have hwhole := h.spanOver (Nat.le_refl _)
      simp only [chars, Quoted.chars, QuoteForm.body, List.length_append] at h
      have hunits := h.advanceBy.mono (Nat.le_add_right _ _)
      rw [errors_quoted, errors_quoted, escapeErrors_of_follows hunits, List.map_append]
      congr 1
      split
      · rfl
      · exact congrArg (fun span => [LexError.mk _ span _]) hwhole
    | blockComment run closed =>
      have hwhole : r'.spanOver run.length = m.span (r.spanOver run.length) :=
        h.spanOver (Nat.le_refl _)
      rw [errors_blockComment, errors_blockComment, hwhole]
      split <;> rfl
    | unexpected c =>
      have hwhole : r'.spanOver 1 = m.span (r.spanOver 1) := h.spanOver (Nat.le_refl _)
      rw [errors_unexpected, errors_unexpected, hwhole]
      rfl
    | _ => rfl

/-- The trivia of a lexeme are moved, those of a run of blanks included. -/
theorem trivia_of_follows {l : Lexeme} (h : Reader.Follows m l.chars.length r r') :
    l.trivia r' = (l.trivia r).map m.trivia := by
  cases hp : l.payload? with
  | none =>
    obtain ⟨kind, ht⟩ := trivia_of_payload?_eq_none hp
    rw [ht, ht, h.spanOver (Nat.le_refl _)]
    rfl
  | some p =>
    rw [chars_of_payload? hp, List.length_append] at h
    rw [trivia_of_payload? hp, trivia_of_payload? hp]
    split
    · rfl
    · rw [h.advanceBy.spanOver (Nat.le_refl _)]
      rfl

end Lexeme

namespace Reader

variable {α : Type} {f : Lexeme → Reader → List α} {move : Relocation → α → α}

/-- **Where the positions are moved, so is all that is ahead.** -/
theorem ahead_of_follows (hf : Movable f move) {m : Relocation} {r r' : Reader}
    (hrest : r'.rest = r.rest) (h : Follows m r.rest.length r r') :
    r'.ahead f = (r.ahead f).map (move m) := by
  induction r using byLexemes generalizing r' with
  | atEnd r hr => rw [ahead_of_rest_eq_nil f hr, ahead_of_rest_eq_nil f (hrest.trans hr)]; rfl
  | lexeme r l hl ih =>
    have hlen : r.rest.length = l.chars.length + (r.advanceBy l.chars.length).rest.length := by
      rw [rest_advanceBy, ← List.length_append, Lexeme.chars_append_drop hl]
    rw [ahead_of_read? f hl, ahead_of_read? f (hrest.symm ▸ hl), List.map_append]
    rw [hlen] at h
    rw [hf.follows (h.mono (Nat.le_add_right _ _)),
      ih (by rw [rest_advanceBy, rest_advanceBy, hrest]) h.advanceBy]

/-- Blanks can be skipped. -/
theorem ahead_advance_of_isBlank (hf : Movable f move) {r : Reader} {c : Char} {cs : List Char}
    (hr : r.rest = c :: cs) (hc : isBlank c = true) : r.advance.ahead f = r.ahead f := by
  have hread := hr.symm ▸ Lexeme.read?_of_isBlank hc cs
  have hrest : r.advance.rest = cs := by rw [rest_advance, hr]; rfl
  rw [ahead_of_read? f hread, hf.blanks, List.nil_append, Lexeme.chars, List.length_cons, advanceBy]
  -- `cs` goes on with the blanks of the same run, or there are no more of them
  cases cs with
  | nil => rfl
  | cons d ds =>
    by_cases hd : isBlank d = true
    · have hnext := hrest.symm ▸ Lexeme.read?_of_isBlank hd ds
      rw [ahead_of_read? f hnext, hf.blanks, List.nil_append, Lexeme.chars,
        List.takeWhile_cons_of_pos hd]
    · rw [List.takeWhile_cons_of_neg hd]
      rfl

theorem ahead_advanceBy_of_isBlank (hf : Movable f move) {r : Reader} {run after : List Char}
    (hr : r.rest = run ++ after) (hrun : ∀ c ∈ run, isBlank c = true) :
    (r.advanceBy run.length).ahead f = r.ahead f := by
  induction run generalizing r with
  | nil => rfl
  | cons c cs ih =>
    obtain ⟨hc, hcs⟩ := List.forall_mem_cons.1 hrun
    have hrest : r.advance.rest = cs ++ after := by rw [rest_advance, hr]; rfl
    rw [List.length_cons, advanceBy, ih hrest hcs]
    exact ahead_advance_of_isBlank hf hr hc

end Reader

end Lexis
