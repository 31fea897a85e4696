/-
# The normal form of a text

The normal form of a source unit is what its tokens say and nothing else: their
texts, one after the other, joined by line feeds (`Source.normalForm`).  It is
scanned into the same tokens.

The lexemes of the normal form are those that make a token, without the suffix
of a number, and a run of blanks for each line feed (`lexemes_normalForm`).
Each of them is what it was because its text stands for itself
(`Lexeme.read?_text`), and the line feed after it does not change that
(`Lexeme.read?_append`), unless it is left open.  One that is left open is the
last (`pairwise_lexemes`), so no line feed comes after it.
-/

import Lexis.Proofs.Lookahead.Lexeme

namespace Lexis

namespace Lexeme

/-- The lexeme makes a token of all that it consumes, and is read where its
characters stand alone. -/
structure StandsAlone (l : Lexeme) : Prop where
  /-- The characters are read as the lexeme. -/
  read : read? l.chars = some l
  /-- It makes a token. -/
  token : ∃ p, l.payload? = some p
  /-- Nothing is left out of the token. -/
  suffix : l.suffix = []

theorem StandsAlone.isBlanks {l : Lexeme} (h : l.StandsAlone) : l.isBlanks = false := by
  obtain ⟨p, hp⟩ := h.token
  exact isBlanks_of_payload? hp

/-- What makes a token stands alone once the suffix is left out. -/
theorem standsAlone_bare {text : List Char} {l : Lexeme} {p : Payload} (hl : read? text = some l)
    (hp : l.payload? = some p) : l.bare.StandsAlone where
  read := by rw [chars_bare hp, read?_text hl hp]
  token := ⟨p, by rw [payload?_bare, hp]⟩
  suffix := suffix_bare l

/-- The lexemes that make a token, without their suffixes. -/
def kept (ls : List Lexeme) : List Lexeme := ls.filterMap fun l => l.payload?.map fun _ => l.bare

/-- All that is kept of a text stands alone. -/
theorem standsAlone_of_mem_kept {text : List Char} {l : Lexeme} (h : l ∈ kept (lexemes text)) :
    l.StandsAlone := by
  obtain ⟨k, hk, hbare⟩ := List.mem_filterMap.1 h
  obtain ⟨p, hp, rfl⟩ := Option.map_eq_some_iff.1 hbare
  obtain ⟨after, hread⟩ := exists_read?_of_mem_lexemes hk
  exact standsAlone_bare hread hp

/-- The tokens of the lexemes that are kept are those of all. -/
theorem filterMap_payload?_kept (ls : List Lexeme) :
    (kept ls).filterMap payload? = ls.filterMap payload? := by
  rw [kept, List.filterMap_filterMap]
  congr 1
  funext l
  cases h : l.payload? with
  | none => rfl
  | some p => rw [Option.map_some, Option.bind_some, payload?_bare, h]

/-- The lexemes that are kept consume the texts of the tokens. -/
theorem map_chars_kept (ls : List Lexeme) :
    (kept ls).map chars = (ls.filterMap payload?).map Payload.text := by
  rw [kept, List.map_filterMap, List.map_filterMap]
  congr 1
  funext l
  cases h : l.payload? with
  | none => rfl
  | some p => rw [Option.map_some, Option.map_some, chars_bare h, Option.map_some]

/-- A line feed before what is no blank is a lexeme of its own. -/
theorem read?_lineFeed {text : List Char} {l : Lexeme} (hl : read? text = some l)
    (hb : l.isBlanks = false) : read? ('\n' :: text) = some (.blanks ['\n']) := by
  obtain ⟨c, cs, rfl, ⟨-, rfl⟩ | ⟨kind, hk, -⟩⟩ := exists_opening_of_read? hl
  · simp [isBlanks] at hb
  · have hrun : (c :: cs).takeWhile isBlank = [] :=
      List.takeWhile_cons_of_neg (by simp [Opening.not_isBlank hk])
    rw [read?_of_isBlank (by decide), hrun]

end Lexeme

/-- **A lexeme that is left open is the last one.** -/
theorem pairwise_lexemes (text : List Char) :
    (lexemes text).Pairwise fun l _ => l.isOpen = false := by
  fun_induction lexemes text with
  | case1 => exact List.Pairwise.nil
  | case2 text l hl ih =>
    refine List.pairwise_cons.2 ⟨fun k hk => ?_, ih⟩
    rw [← Bool.not_eq_true]
    intro hopen
    rw [Lexeme.chars_of_isOpen hl hopen, List.drop_length, lexemes_nil] at hk
    simp at hk

/-- What stands alone is found again between line feeds. -/
theorem lexemes_intercalate : ∀ {ls : List Lexeme}, (∀ l ∈ ls, l.StandsAlone) →
    ls.Pairwise (fun l _ => l.isOpen = false) →
    lexemes (['\n'].intercalate (ls.map Lexeme.chars)) = ls.intersperse (.blanks ['\n'])
  | [], _, _ => lexemes_nil
  | [l], h, _ => by
    have hl := (h l List.mem_cons_self).read
    rw [List.map_singleton, List.intercalate_singleton, lexemes_of_read? hl, List.drop_length,
      lexemes_nil]
    rfl
  | l :: k :: ls, h, hopen => by
    obtain ⟨hl, htail⟩ := List.forall_mem_cons.1 h
    obtain ⟨hopenl, hopentail⟩ := List.pairwise_cons.1 hopen
    have ih := lexemes_intercalate htail hopentail
    have hk : Lexeme.read? (['\n'].intercalate ((k :: ls).map Lexeme.chars)) = some k := by
      rw [← head?_lexemes, ih]
      cases ls <;> rfl
    have hline := Lexeme.read?_lineFeed hk (htail k List.mem_cons_self).isBlanks
    have hfirst : Lexeme.read?
        (l.chars ++ '\n' :: ['\n'].intercalate ((k :: ls).map Lexeme.chars)) = some l :=
      Lexeme.read?_append hl.read hl.isBlanks (hopenl k List.mem_cons_self)
        (atLineEnd_cons.2 (Or.inl rfl))
    rw [List.map_cons, List.map_cons, List.intercalate_cons_cons, ← List.map_cons,
      List.append_assoc, List.singleton_append, lexemes_of_read? hfirst, List.drop_left,
      lexemes_of_read? hline, List.intersperse_cons_cons]
    exact congrArg (fun ls => l :: Lexeme.blanks ['\n'] :: ls) ih

namespace Source

/-- **The normal form:** the texts of the tokens, joined by line feeds. -/
def normalForm (s : Source) : Source :=
  { s with text := ['\n'].intercalate (s.tokens.map Token.text) }

/-- The lexemes of the normal form are those that are kept, and the line feeds. -/
theorem lexemes_normalForm (s : Source) :
    lexemes s.normalForm.text = (Lexeme.kept (lexemes s.text)).intersperse (.blanks ['\n']) := by
  have htexts : s.tokens.map Token.text = (Lexeme.kept (lexemes s.text)).map Lexeme.chars := by
    rw [Lexeme.map_chars_kept, ← map_payload_tokens, List.map_map]
    rfl
  rw [normalForm, htexts]
  refine lexemes_intercalate (fun l hl => Lexeme.standsAlone_of_mem_kept hl) ?_
  refine List.Pairwise.filterMap _ ?_ (pairwise_lexemes s.text)
  intro l k hopen l' hl' k' hk'
  obtain ⟨p, -, rfl⟩ := Option.map_eq_some_iff.1 hl'
  rw [Lexeme.isOpen_bare, hopen]

end Source

theorem filterMap_intersperse {α β : Type} {f : α → Option β} {x : α} (hx : f x = none) :
    ∀ xs : List α, (xs.intersperse x).filterMap f = xs.filterMap f
  | [] => rfl
  | [_] => rfl
  | y :: z :: xs => by
    rw [List.intersperse_cons_cons, List.filterMap_cons, List.filterMap_cons_none hx,
      filterMap_intersperse hx (z :: xs), ← List.filterMap_cons]

theorem mem_intersperse {α : Type} {x y : α} : ∀ {xs : List α}, y ∈ xs.intersperse x →
    y ∈ xs ∨ y = x
  | [], h => Or.inl h
  | [_], h => Or.inl h
  | z :: z' :: xs, h => by
    rw [List.intersperse_cons_cons, List.mem_cons, List.mem_cons] at h
    rcases h with rfl | rfl | h
    · exact Or.inl List.mem_cons_self
    · exact Or.inr rfl
    · exact (mem_intersperse h).imp_left (List.mem_cons_of_mem _)

/-- What is wrong with a token is neither an unexpected character nor a comment. -/
theorem Lexeme.kind_of_mem_errors {l : Lexeme} {p : Payload} (hp : l.payload? = some p) {r : Reader}
    {e : LexError} (he : e ∈ l.errors r) :
    e.kind ≠ .unexpectedCharacter ∧ e.kind ≠ .unterminatedBlockComment := by
  cases mem_errors_iff.1 he with
  | comment => simp [payload?] at hp
  | character => simp [payload?] at hp
  | _ => simp

/-- **The normal form has the same tokens.**  Scanned again it leaves the tokens of
the unit, their spans apart, and then the end of the input; no character of it is
unexpected or skipped, and no comment in it is left open. -/
theorem scan_normalForm (s : Source) :
    s.normalForm.scan.1.map Token.payload = s.tokens.map Token.payload ++ [.endOfInput] ∧
      (∀ e ∈ s.normalForm.errors,
        e.kind ≠ .unexpectedCharacter ∧ e.kind ≠ .unterminatedBlockComment) ∧
      ∀ t ∈ s.normalForm.trivia, t.kind ≠ .skipped := by
  -- every lexeme of the normal form makes a token of itself or is a line feed
  have hlexemes : ∀ l ∈ lexemes s.normalForm.text, l.StandsAlone ∨ l = .blanks ['\n'] := by
    intro l hl
    rw [s.lexemes_normalForm] at hl
    exact (mem_intersperse hl).imp_left Lexeme.standsAlone_of_mem_kept
  refine ⟨?_, fun e he => ?_, fun t ht => ?_⟩
  · have htokens : s.normalForm.tokens.map Token.payload = s.tokens.map Token.payload := by
      rw [Source.map_payload_tokens, s.lexemes_normalForm, filterMap_intersperse rfl,
        Lexeme.filterMap_payload?_kept, ← Source.map_payload_tokens]
    rw [Source.scan_fst, List.map_append, htokens]
    rfl
  · rw [Source.errors_eq] at he
    obtain ⟨l, r, hstep, he⟩ := Reader.mem_ahead.1 he
    rcases hlexemes l (Reader.of_mem_steps hstep).1 with hl | rfl
    · obtain ⟨p, hp⟩ := hl.token
      exact Lexeme.kind_of_mem_errors hp he
    · simp [Lexeme.errors] at he
  · rw [Source.trivia_eq] at ht
    obtain ⟨l, r, hstep, ht⟩ := Reader.mem_ahead.1 ht
    rcases hlexemes l (Reader.of_mem_steps hstep).1 with hl | rfl
    · obtain ⟨p, hp⟩ := hl.token
      rw [Lexeme.trivia_of_payload? hp, if_pos hl.suffix] at ht
      simp at ht
    · have hkind : t.kind = .whitespace := by rw [List.mem_singleton.1 ht]
      rw [hkind]
      decide

end Lexis
