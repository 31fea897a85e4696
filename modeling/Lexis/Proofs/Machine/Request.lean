/-
# Requests answered by a machine

A machine answers the requests that are made to it as the scan of its unit does, and stands
where the scan stands with what this has met (`Machine.run_nexts`).  So every cut that it makes
on the way is at a boundary, and every loop comes to an end.

For each sort of lexemes there is a lemma that the machine reads the lexeme which begins the
text ahead (`Machine.run_readLexeme`).  A request is led by the lexemes that it passes
(`Machine.run_seek`), and a scan by its requests.
-/

import Lexis.Machine.Request
import Lexis.Proofs.Machine.Numeral
import Lexis.Proofs.Machine.Quoted
import Lexis.Proofs.Requests

namespace Lexis

/-- The machine that has found what a request finds, after these errors and trivia. -/
def Found.machine (f : Found) (errors : List LexError) (trivia : List Trivia) : Machine :=
  ⟨f.reader.cursor, f.mode, errors ++ f.errors, trivia ++ f.trivia,
    if f.token.isEnd then some f.token else none⟩

/-- The machine that has come as far as a scan. -/
def Scan.machine (scan : Scan) : Machine :=
  ⟨scan.reader.cursor, scan.mode, scan.errors, scan.trivia,
    if scan.finished then some (Token.endOfInput scan.position) else none⟩

/-- The token of a lexeme spans the text that it is made of. -/
theorem Lexeme.token?_of_payload? {l : Lexeme} {p : Payload} (h : l.payload? = some p)
    (r : Reader) : l.token? r = some ⟨p, r.spanOver p.text.length⟩ := by
  rw [token?, h, Option.map_some, Reader.spanSince_advanceBy]

/-- What a scan has recorded is what the machine has found. -/
theorem Scan.machine_record (scan : Scan) :
    (scan.record scan.reader.seek).machine = scan.reader.seek.machine scan.errors scan.trivia := by
  rw [machine, Found.machine, finished_record, position_record]
  cases hend : scan.reader.seek.token.isEnd with
  | false => rfl
  | true =>
    obtain ⟨htoken, hreader⟩ := Reader.seek_of_isEnd hend
    rw [htoken, ← hreader]
    rfl

namespace Machine

variable {r : Reader} {s : Source} {mode : Mode} {errors : List LexError} {trivia : List Trivia}

/-! ### Runs of a class -/

/-- **Blanks are passed** as they are read. -/
theorem run_readBlanks (h : r.StandsIn s) {run : List Char} (hrun : r.run isBlank = run) :
    readBlanks.run (r.machine mode errors trivia) =
      some ((), r.machineAfter (.blanks run) mode errors trivia) := by
  rw [readBlanks, run_bind_of_run run_position, run_bind_of_run (run_eatWhile h _),
    run_bind_of_run (run_spanSince _), Reader.skipWhile, hrun, run_recordTrivia,
    Reader.machineAfter, Lexeme.errors, List.append_nil]
  rfl

/-- **A word is read** as the text ahead has it. -/
theorem run_readWord (h : r.StandsIn s) {run : List Char} (hrun : r.run isWordChar = run) :
    readWord.run (r.machine mode errors trivia) =
      some (⟨.ofWord run, r.spanOver run.length⟩,
        r.machineAfter (.word run) mode errors trivia) := by
  have hfront : run <+: r.rest := hrun ▸ List.takeWhile_prefix _
  rw [readWord, run_bind_of_run run_position, run_bind_of_run (run_eatWhile h _),
    run_bind_of_run (run_spanSince _), Reader.skipWhile, hrun,
    run_bind_of_run (run_textSince h hfront), Reader.spanSince_advanceBy, Reader.machineAfter,
    Lexeme.errors, Lexeme.trivia, List.append_nil, List.append_nil]
  rfl

/-- **A line comment is passed** as it is read. -/
theorem run_readLineComment (h : r.StandsIn s) {run : List Char}
    (hrun : r.run (fun c => !isLineEnd c) = run) :
    readLineComment.run (r.machine mode errors trivia) =
      some ((), r.machineAfter (.lineComment run) mode errors trivia) := by
  rw [readLineComment, run_bind_of_run run_position, run_bind_of_run (run_eatWhile h _),
    run_bind_of_run (run_spanSince _), Reader.skipWhile, hrun, run_recordTrivia,
    Reader.machineAfter, Lexeme.errors, List.append_nil]
  rfl

/-! ### Comments between marks -/

/-- Where no comment is open the loop has ended. -/
theorem run_closeComments_zero (m : Machine) : (closeComments 0).run m = some (0, m) :=
  run_loop_of_done rfl

/-- At the end of the text the comments that are open stay so. -/
theorem run_closeComments_of_nil (h : r.StandsIn s) (hr : r.rest = []) (depth : Nat) :
    (closeComments depth).run (r.machine mode errors trivia) =
      some (depth, r.machine mode errors trivia) := by
  refine run_loop_of_done ?_
  rw [passMark]
  split
  · rename_i hzero
    rw [hzero]
    rfl
  · rw [run_bind_of_run (run_peek h 0), run_bind_of_run (run_peek h 1), Reader.peek_of_nil hr]
    rfl

/-- **A turn over comments** passes a mark or a character that belongs to none. -/
theorem run_passMark (h : r.StandsIn s) {c : Char} {cs : List Char} (hr : r.rest = c :: cs)
    {depth : Nat} (hdepth : depth ≠ 0) :
    (passMark depth).run (r.machine mode errors trivia) =
      if c = '/' ∧ cs.head? = some '*' then
        some (.again (depth + 1), (r.advanceBy 2).machine mode errors trivia)
      else if c = '*' ∧ cs.head? = some '/' then
        some (.again (depth - 1), (r.advanceBy 2).machine mode errors trivia)
      else some (.again depth, (r.advanceBy 1).machine mode errors trivia) := by
  rw [passMark, if_neg hdepth, run_bind_of_run (run_peek h 0), run_bind_of_run (run_peek h 1),
    Reader.peek_zero_of_cons hr, Reader.peek_one_of_cons hr]
  dsimp only
  split
  · rw [run_bind_of_run (run_advanceBy h 2)]
    rfl
  · split
    · rw [run_bind_of_run (run_advanceBy h 2)]
      rfl
    · rw [run_bind_of_run (run_advance h)]
      rfl

/-- **Open comments are passed** up to the mark that closes the last of them.  The number of
those that stay open is zero if they are closed. -/
theorem run_closeComments (h : r.StandsIn s) {depth : Nat} {text run : List Char} {closed : Bool}
    (hr : r.rest = text) (hread : Comment.blockRun depth text = (run, closed)) :
    ∃ left, (left == 0) = closed ∧
      (closeComments depth).run (r.machine mode errors trivia) =
        some (left, (r.advanceBy run.length).machine mode errors trivia) := by
  fun_induction Comment.blockRun depth text generalizing r run closed with
  | case1 depth =>
    obtain ⟨rfl, rfl⟩ := Prod.mk.inj hread
    exact ⟨depth, rfl, run_closeComments_of_nil h hr depth⟩
  | case2 c =>
    obtain ⟨rfl, rfl⟩ := Prod.mk.inj hread
    exact ⟨0, rfl, run_closeComments_zero _⟩
  | case3 depth c hdepth =>
    obtain ⟨rfl, rfl⟩ := Prod.mk.inj hread
    have hturn := @run_passMark r s mode errors trivia h c [] hr depth hdepth
    rw [if_neg (by simp), if_neg (by simp)] at hturn
    refine ⟨depth, beq_false_of_ne hdepth, ?_⟩
    exact (run_loop_advanceBy h (by simp [hr]) Nat.one_pos hturn).trans
      (run_closeComments_of_nil h.advance (Reader.rest_advance_of_cons hr) depth)
  | case4 c d cs =>
    obtain ⟨rfl, rfl⟩ := Prod.mk.inj hread
    exact ⟨0, rfl, run_closeComments_zero _⟩
  | case5 depth c d cs hdepth hopen run' closed' hr' ih =>
    obtain ⟨rfl, rfl⟩ := Prod.mk.inj hread
    have hturn := @run_passMark r s mode errors trivia h c (d :: cs) hr depth hdepth
    rw [if_pos ⟨hopen.1, congrArg some hopen.2⟩] at hturn
    obtain ⟨left, hleft, hrun⟩ := ih (h.advanceBy 2) (by rw [Reader.rest_advanceBy, hr]; rfl) hr'
    exact ⟨left, hleft, (run_loop_advanceBy h (by simp [hr]) Nat.two_pos hturn).trans hrun⟩
  | case6 depth c d cs hdepth hopen hclose run' closed' hr' ih =>
    obtain ⟨rfl, rfl⟩ := Prod.mk.inj hread
    have hturn := @run_passMark r s mode errors trivia h c (d :: cs) hr depth hdepth
    rw [if_neg (by simpa using hopen), if_pos ⟨hclose.1, congrArg some hclose.2⟩] at hturn
    obtain ⟨left, hleft, hrun⟩ := ih (h.advanceBy 2) (by rw [Reader.rest_advanceBy, hr]; rfl) hr'
    exact ⟨left, hleft, (run_loop_advanceBy h (by simp [hr]) Nat.two_pos hturn).trans hrun⟩
  | case7 depth c d cs hdepth hopen hclose run' closed' hr' ih =>
    obtain ⟨rfl, rfl⟩ := Prod.mk.inj hread
    have hturn := @run_passMark r s mode errors trivia h c (d :: cs) hr depth hdepth
    rw [if_neg (by simpa using hopen), if_neg (by simpa using hclose)] at hturn
    obtain ⟨left, hleft, hrun⟩ := ih h.advance (Reader.rest_advance_of_cons hr) hr'
    exact ⟨left, hleft, (run_loop_advanceBy h (by simp [hr]) Nat.one_pos hturn).trans hrun⟩

/-- **A comment between marks is passed** as it is read, with an error if it is left open. -/
theorem run_readBlockComment (h : r.StandsIn s) {c : Char} {cs : List Char}
    (hr : r.rest = c :: cs) (hstar : cs.head? = some '*') :
    readBlockComment.run (r.machine mode errors trivia) =
      some ((), r.machineAfter (Lexeme.readBlockComment c cs) mode errors trivia) := by
  obtain ⟨text, rfl⟩ := List.head?_eq_some_iff.1 hstar
  obtain ⟨run, closed, hread⟩ : ∃ run closed,
    Comment.blockRun 1 text = (run, closed) := ⟨_, _, rfl⟩
  have htext : (r.advanceBy 2).rest = text := by
    rw [Reader.rest_advanceBy, hr]
    rfl
  have hlexeme : Lexeme.readBlockComment c ('*' :: text) =
      .blockComment (c :: '*' :: run) closed := by
    rw [Lexeme.readBlockComment, List.drop_one, List.tail_cons, hread]
    rfl
  obtain ⟨left, rfl, hrun⟩ :=
    @run_closeComments (r.advanceBy 2) s mode errors trivia (h.advanceBy 2) 1 text run closed
      htext hread
  have hplace : (r.advanceBy 2).advanceBy run.length =
      r.advanceBy (c :: '*' :: run).length := rfl
  rw [hplace] at hrun
  rw [readBlockComment, run_bind_of_run run_position, run_bind_of_run (run_advanceBy h 2),
    run_bind_of_run hrun, run_bind_of_run (run_spanSince _),
    run_bind_of_run (run_recordUnless _ _), run_recordTrivia, hlexeme, Reader.machineAfter,
    Lexeme.errors_blockComment, Lexeme.trivia_blockComment, Reader.spanSince_advanceBy]
  rfl

/-! ### Lexemes -/

/-- **A symbol is read** as the text ahead has it. -/
theorem run_readSymbol (h : r.StandsIn s) {c : Char} {cs : List Char} (hr : r.rest = c :: cs) :
    readSymbol.run (r.machine mode errors trivia) =
      some ((Lexeme.readSymbol c cs).token? r,
        r.machineAfter (Lexeme.readSymbol c cs) mode errors trivia) := by
  rw [readSymbol, run_bind_of_run run_position, run_bind_of_run (run_rest h), hr,
    Lexeme.readSymbol]
  cases Operator.longest? (c :: cs) with
  | some o =>
    dsimp only
    rw [run_bind_of_run (run_advanceBy h _), run_bind_of_run (run_spanSince _),
      Reader.machineAfter, Lexeme.errors, Lexeme.trivia, List.append_nil, List.append_nil]
    rfl
  | none =>
    dsimp only
    rw [run_bind_of_run (run_advance h), Reader.peek_zero_of_cons hr]
    dsimp only
    rw [run_bind_of_run (run_spanSince _)]
    cases Punctuation.ofChar? c with
    | some p =>
      rw [Reader.machineAfter, Lexeme.errors, Lexeme.trivia, List.append_nil, List.append_nil]
      rfl
    | none =>
      dsimp only
      rw [run_bind_of_run (run_recordError _), run_bind_of_run (run_recordTrivia _),
        Reader.machineAfter]
      rfl

/-- **A machine reads the lexeme** that begins the text ahead, and makes its token. -/
theorem run_readLexeme (h : r.StandsIn s) {kind : LexemeKind} {c : Char} {cs : List Char}
    (hr : r.rest = c :: cs) (hopening : Opening.ofChars (some c) cs.head? = .lexeme kind) :
    (readLexeme kind).run (r.machine mode errors trivia) =
      some ((Lexeme.ofKind kind c cs).token? r,
        r.machineAfter (Lexeme.ofKind kind c cs) mode errors trivia) := by
  cases kind with
  | word =>
    have hc := isWordChar_of_isWordStart (Opening.isWordStart_of_word hopening)
    have hrun : r.run isWordChar = c :: cs.takeWhile isWordChar := by
      rw [Reader.run, hr, List.takeWhile_cons_of_pos hc]
    rw [readLexeme, StateT.run_map, run_readWord h hrun, Lexeme.ofKind,
      Lexeme.token?_of_payload? rfl, Payload.text_ofWord]
    rfl
  | number =>
    rw [readLexeme, StateT.run_map,
      run_readNumber h hr (Opening.isDecimalDigit_of_number hopening), Lexeme.ofKind,
      Lexeme.token?_of_payload? rfl, Payload.text_ofNumeral]
    rfl
  | string =>
    rw [readLexeme, StateT.run_map, run_readQuoted h hr (Opening.isQuote_of_string hopening) rfl,
      Lexeme.ofKind, Lexeme.token?_of_payload? rfl]
    rfl
  | lineComment =>
    obtain ⟨rfl, -⟩ := Opening.marks_of_lineComment hopening
    have hrun : r.run (fun c => !isLineEnd c) = '/' :: Comment.lineRun cs := by
      rw [Reader.run, hr, List.takeWhile_cons_of_pos (by decide), Comment.lineRun]
    rw [readLexeme, run_bind_of_run (run_readLineComment h hrun)]
    rfl
  | blockComment =>
    rw [readLexeme,
      run_bind_of_run (run_readBlockComment h hr (Opening.marks_of_blockComment hopening).2)]
    rfl
  | symbol =>
    rw [readLexeme]
    exact run_readSymbol h hr

/-! ### Requests -/

/-- At the end of the text a request is answered with it. -/
theorem run_seek_of_nil (h : r.StandsIn s) (hr : r.rest = []) :
    seek.run (r.machine mode errors trivia) =
      some (Token.endOfInput r.position,
        ⟨r.cursor, .between, errors, trivia, some (Token.endOfInput r.position)⟩) := by
  refine run_loop_of_done ?_
  rw [seekOne, run_bind_of_run (run_enter .between), run_bind_of_run (run_peek h 0),
    run_bind_of_run (run_peek h 1), Reader.peek_of_nil hr]
  rfl

/-- **A turn of a request** reads the lexeme before it, in the mode of its sort. -/
theorem run_seekOne (h : r.StandsIn s) {l : Lexeme} (hl : Lexeme.read? r.rest = some l) :
    seekOne.run (r.machine mode errors trivia) =
      some (match l.token? r with | some t => .done t | none => .again (),
        r.machineAfter l .between errors trivia) := by
  obtain ⟨c, cs, hr, hopening⟩ := Lexeme.exists_opening_of_read? hl
  rw [seekOne, run_bind_of_run (run_enter .between), run_bind_of_run (run_peek h 0),
    run_bind_of_run (run_peek h 1), Reader.peek_zero_of_cons hr, Reader.peek_one_of_cons hr]
  rcases hopening with ⟨hblanks, rfl⟩ | ⟨kind, hkind, rfl⟩
  · have hrun : r.run isBlank = c :: cs.takeWhile isBlank := by
      rw [Reader.run, hr, List.takeWhile_cons_of_pos (Opening.isBlank_of_blanks hblanks)]
    rw [hblanks]
    dsimp only
    rw [run_bind_of_run (run_readBlanks h hrun)]
    rfl
  · rw [hkind]
    dsimp only
    rw [run_bind_of_run (run_enter _), run_bind_of_run (run_readLexeme h hr hkind),
      Reader.machineAfter, run_bind_of_run (run_enter .between)]
    cases (Lexeme.ofKind kind c cs).token? r <;> rfl

/-- **A request** reads the lexeme before it, and goes on behind it unless it makes a token. -/
theorem run_seek_of_read? (h : r.StandsIn s) {l : Lexeme} (hl : Lexeme.read? r.rest = some l) :
    seek.run (r.machine mode errors trivia) =
      match l.token? r with
      | some t => some (t, r.machineAfter l .between errors trivia)
      | none => seek.run (r.machineAfter l .between errors trivia) := by
  have hturn := @run_seekOne r s mode errors trivia h l hl
  cases ht : l.token? r with
  | some t =>
    rw [ht] at hturn
    exact run_loop_of_done hturn
  | none =>
    rw [ht] at hturn
    exact run_loop_of_passed h (h.advanceBy _) (Lexeme.chars_ne_nil_of_read? hl)
      (by rw [Reader.rest_advanceBy, Lexeme.chars_append_drop hl]) hturn

/-- **A request is answered** with what the reader finds, and the machine has found it. -/
theorem run_seek (h : r.StandsIn s) :
    seek.run (r.machine mode errors trivia) =
      some (r.seek.token, r.seek.machine errors trivia) := by
  fun_induction Reader.seek r generalizing mode errors trivia with
  | case1 r hnone =>
    rw [run_seek_of_nil h (Lexeme.read?_eq_none_iff.1 hnone), Found.machine, List.append_nil,
      List.append_nil]
    rfl
  | case2 r l hl t ht =>
    rw [run_seek_of_read? h hl, ht, Found.machine, Lexeme.isEnd_of_token? ht]
    rfl
  | case3 r l hl ht ih =>
    rw [run_seek_of_read? h hl, ht, Reader.machineAfter, Found.machine, Found.after,
      ← List.append_assoc, ← List.append_assoc]
    exact ih (h.advanceBy _)

/-- **A machine answers a request as a scan does,** and goes on to where the scan is. -/
theorem run_next {scan : Scan} (h : scan.StandsIn s) :
    next.run scan.machine = some (scan.next.1, scan.next.2.machine) := by
  have hget : (get : Action Machine).run scan.machine = some (scan.machine, scan.machine) := rfl
  rw [next, run_bind_of_run hget, Scan.machine]
  cases hfinished : scan.finished with
  | true =>
    rw [Scan.next_of_finished hfinished, Scan.machine, hfinished]
    rfl
  | false =>
    rw [Scan.next_of_not_finished hfinished, Scan.machine_record]
    exact run_seek h.reader

/-- **A machine answers any number of requests** as a scan does. -/
theorem run_nexts {scan : Scan} (h : scan.StandsIn s) (k : Nat) :
    (nexts k).run scan.machine =
      some ((List.range k).map fun i => (scan.after i).next.1, (scan.after k).machine) := by
  induction k generalizing scan with
  | zero => rfl
  | succ k ih =>
    rw [nexts, run_bind_of_run (run_next h), run_bind_of_run (ih h.next), List.range_succ_eq_map,
      List.map_cons, List.map_map]
    rfl

end Machine

end Lexis
