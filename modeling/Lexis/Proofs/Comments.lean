/-
# Nested comments

The text of a comment is cut into units from the left, the marks `/*` and `*/` and single
characters (`Comment.units`), so that no character belongs to two marks.  A comment takes the
shortest front of these units in which as many comments are closed as are opened
(`Comment.ShortestBalanced`), and all of the text if there is no such front.

Reading keeps the number of open comments instead of the units that it has passed.  The two
agree since this number is what the marks passed so far leave open
(`Comment.exists_front_of_closed`, `Comment.staysOpen_of_open`): a comment ends where the
number is zero for the first time.

A tree of comments is printed with the inner comments between the texts of the outer one
(`CommentTree.print`).  Over such a print the number of open comments comes back to what it was
(`CommentTree.blockRun_print`), so that the whole print is the comment at its head.
-/

import Lexis.Proofs.Lookahead.Lexeme
import Lexis.Proofs.Places
import Mathlib.Data.List.Count

namespace Lexis

/-! ### Units -/

/-- A unit of the text of comments. -/
inductive CommentUnit
  /-- The mark that opens a comment. -/
  | opening
  /-- The mark that closes a comment. -/
  | closing
  /-- A character that belongs to no mark. -/
  | plain (c : Char)
deriving DecidableEq, Repr

/-- The unit as it is written. -/
def CommentUnit.chars : CommentUnit → List Char
  | .opening => ['/', '*']
  | .closing => ['*', '/']
  | .plain c => [c]

namespace Comment

/-- The units of a text, cut from the left. -/
def units : List Char → List CommentUnit
  | [] => []
  | [c] => [.plain c]
  | c :: d :: cs =>
    if c = '/' ∧ d = '*' then .opening :: units cs
    else if c = '*' ∧ d = '/' then .closing :: units cs
    else .plain c :: units (d :: cs)

/-- As many comments are closed as are opened. -/
def Balanced (us : List CommentUnit) : Prop := us.count .closing = us.count .opening

/-- **The shortest front** of the units that is balanced and not empty. -/
structure ShortestBalanced (us front : List CommentUnit) : Prop where
  /-- It has a unit. -/
  ne_nil : front ≠ []
  /-- It is a front of the units. -/
  begins : front <+: us
  /-- It is balanced. -/
  balanced : Balanced front
  /-- No other balanced front is shorter. -/
  shortest : ∀ other, other ≠ [] → other <+: us → Balanced other → front.length ≤ other.length

/-- Of `depth` comments that are open, and those that the units open, some stay open. -/
def StaysOpen (depth : Nat) (us : List CommentUnit) : Prop :=
  us.count .closing < us.count .opening + depth

/-- What holds of all fronts of a list holds of the empty one and of those with its head. -/
theorem forall_prefix_cons {α : Type} {P : List α → Prop} {x : α} {xs : List α} (hnil : P [])
    (hcons : ∀ ys, ys <+: xs → P (x :: ys)) : ∀ ys, ys <+: x :: xs → P ys := by
  intro ys hys
  rcases List.prefix_cons_iff.1 hys with rfl | ⟨zs, rfl, hzs⟩
  · exact hnil
  · exact hcons zs hzs

variable {depth : Nat} {us : List CommentUnit} {text : List Char}

theorem staysOpen_nil (hd : depth ≠ 0) : StaysOpen depth [] := by
  simp only [StaysOpen, List.count_nil]
  omega

theorem staysOpen_opening : StaysOpen depth (.opening :: us) ↔ StaysOpen (depth + 1) us := by
  have hne : CommentUnit.opening ≠ .closing := by decide
  simp only [StaysOpen, List.count_cons_self, List.count_cons_of_ne hne]
  omega

theorem staysOpen_closing : StaysOpen (depth + 1) (.closing :: us) ↔ StaysOpen depth us := by
  have hne : CommentUnit.closing ≠ .opening := by decide
  simp only [StaysOpen, List.count_cons_self, List.count_cons_of_ne hne]
  omega

theorem staysOpen_plain {c : Char} : StaysOpen depth (.plain c :: us) ↔ StaysOpen depth us := by
  simp [StaysOpen]

theorem Balanced.not_staysOpen (h : Balanced us) : ¬ StaysOpen 0 us := by
  rw [StaysOpen, h]
  omega

theorem units_opening {c d : Char} {cs : List Char} (h : c = '/' ∧ d = '*') :
    units (c :: d :: cs) = .opening :: units cs := by
  rw [units, if_pos h]

theorem units_closing {c d : Char} {cs : List Char} (hopen : ¬ (c = '/' ∧ d = '*'))
    (h : c = '*' ∧ d = '/') : units (c :: d :: cs) = .closing :: units cs := by
  rw [units, if_neg hopen, if_pos h]

theorem units_plain {c d : Char} {cs : List Char} (hopen : ¬ (c = '/' ∧ d = '*'))
    (hclose : ¬ (c = '*' ∧ d = '/')) : units (c :: d :: cs) = .plain c :: units (d :: cs) := by
  rw [units, if_neg hopen, if_neg hclose]

/-- The star belongs to the opening mark alone. -/
example : units ['/', '*', '/'] = [.opening, .plain '/'] := by decide

/-- A comment that is left open is not closed by any units of its text. -/
theorem staysOpen_of_open (hd : depth ≠ 0) (h : (blockRun depth text).2 = false) :
    ∀ other, other <+: units text → StaysOpen depth other := by
  fun_induction blockRun depth text with
  | case1 depth => exact fun other ho => List.prefix_nil.1 ho ▸ staysOpen_nil hd
  | case2 => exact absurd rfl hd
  | case3 depth c =>
    refine forall_prefix_cons (staysOpen_nil hd) fun other ho => staysOpen_plain.2 ?_
    exact List.prefix_nil.1 ho ▸ staysOpen_nil hd
  | case4 => exact absurd rfl hd
  | case5 depth c d cs _ hmark run closed hr ih =>
    rw [hr] at ih
    rw [units_opening hmark]
    exact forall_prefix_cons (staysOpen_nil hd) fun other ho =>
      staysOpen_opening.2 (ih (Nat.succ_ne_zero depth) h other ho)
  | case6 depth c d cs _ hopen hmark run closed hr ih =>
    rw [hr] at ih
    rw [units_closing hopen hmark]
    obtain ⟨depth, rfl⟩ := Nat.exists_eq_succ_of_ne_zero hd
    have hdepth : depth ≠ 0 := by
      rintro rfl
      rw [Nat.succ_sub_one, blockRun_zero] at hr
      obtain rfl := (Prod.mk.inj hr).2
      simp at h
    exact forall_prefix_cons (staysOpen_nil hd) fun other ho =>
      staysOpen_closing.2 (ih hdepth h other ho)
  | case7 depth c d cs _ hopen hclose run closed hr ih =>
    rw [hr] at ih
    rw [units_plain hopen hclose]
    exact forall_prefix_cons (staysOpen_nil hd) fun other ho => staysOpen_plain.2 (ih hd h other ho)

/-- **A front closes what is open:** as many comments as it opens and `depth` more, which no
shorter front does. -/
structure Closes (depth : Nat) (us front : List CommentUnit) : Prop where
  begins : front <+: us
  balanced : front.count .closing = front.count .opening + depth
  before : ∀ other, other <+: us → other.length < front.length → StaysOpen depth other

theorem Closes.cons {depth' : Nat} {u : CommentUnit} {front : List CommentUnit}
    (h : Closes depth' us front) (hd : depth ≠ 0)
    (hstay : ∀ vs, StaysOpen depth (u :: vs) ↔ StaysOpen depth' vs)
    (hcount : (u :: front).count .closing = (u :: front).count .opening + depth) :
    Closes depth (u :: us) (u :: front) where
  begins := (List.prefix_cons_inj u).2 h.begins
  balanced := hcount
  before := forall_prefix_cons (fun _ => staysOpen_nil hd) fun other ho hlt =>
    (hstay other).2 (h.before other ho (Nat.lt_of_succ_lt_succ hlt))

/-- A comment that is closed takes the front of the units that closes it. -/
theorem exists_closes (hd : depth ≠ 0) (h : (blockRun depth text).2 = true) :
    ∃ front, Closes depth (units text) front ∧
      front.flatMap CommentUnit.chars = (blockRun depth text).1 := by
  fun_induction blockRun depth text with
  | case1 depth => exact absurd (by simpa using h) hd
  | case2 => exact absurd rfl hd
  | case3 => simp at h
  | case4 => exact absurd rfl hd
  | case5 depth c d cs _ hmark run closed hr ih =>
    rw [hr] at ih
    rw [units_opening hmark]
    obtain ⟨front, hfront, hchars⟩ := ih (Nat.succ_ne_zero depth) h
    have hcount := hfront.balanced
    refine ⟨.opening :: front, hfront.cons hd (fun _ => staysOpen_opening) ?_, ?_⟩
    · simp
      omega
    · simp [CommentUnit.chars, hmark, hchars]
  | case6 depth c d cs _ hopen hmark run closed hr ih =>
    rw [hr] at ih
    rw [units_closing hopen hmark]
    obtain ⟨depth, rfl⟩ := Nat.exists_eq_succ_of_ne_zero hd
    cases depth with
    | zero =>
      -- the mark closes the outermost comment
      rw [Nat.succ_sub_one, blockRun_zero] at hr
      obtain rfl := (Prod.mk.inj hr).1
      refine ⟨[.closing], ⟨⟨_, rfl⟩, rfl, fun other _ hlt => ?_⟩, ?_⟩
      · rw [List.length_eq_zero_iff.1 (Nat.lt_one_iff.1 hlt)]
        exact staysOpen_nil hd
      · simp [CommentUnit.chars, hmark]
    | succ depth =>
      obtain ⟨front, hfront, hchars⟩ := ih (Nat.succ_ne_zero depth) h
      have hcount := hfront.balanced
      refine ⟨.closing :: front, hfront.cons hd (fun _ => staysOpen_closing) ?_, ?_⟩
      · simp at hcount ⊢
        omega
      · simp [CommentUnit.chars, hmark, hchars]
  | case7 depth c d cs _ hopen hclose run closed hr ih =>
    rw [hr] at ih
    rw [units_plain hopen hclose]
    obtain ⟨front, hfront, hchars⟩ := ih hd h
    refine ⟨.plain c :: front, hfront.cons hd (fun _ => staysOpen_plain) ?_, ?_⟩
    · simpa using hfront.balanced
    · simp [CommentUnit.chars, hchars]

/-! ### The comment at a mark -/

/-- **A comment that is closed** takes the shortest front that is balanced. -/
theorem exists_shortestBalanced {cs : List Char} (h : (blockRun 1 cs).2 = true) :
    ∃ front, ShortestBalanced (units ('/' :: '*' :: cs)) front ∧
      front.flatMap CommentUnit.chars = '/' :: '*' :: (blockRun 1 cs).1 := by
  obtain ⟨front, hfront, hchars⟩ := exists_closes Nat.one_ne_zero h
  rw [units_opening ⟨rfl, rfl⟩]
  refine ⟨.opening :: front, ⟨by simp, (List.prefix_cons_inj _).2 hfront.begins, ?_, ?_⟩, ?_⟩
  · simp [Balanced, hfront.balanced]
  · intro other hne hother hbalanced
    obtain ⟨inner, rfl, hinner⟩ := (List.prefix_cons_iff.1 hother).resolve_left hne
    by_contra hlt
    have hstays := hfront.before inner hinner (by simpa using hlt)
    exact hbalanced.not_staysOpen (staysOpen_opening.2 hstays)
  · simp [CommentUnit.chars, hchars]

/-- **A comment that is left open** is not balanced by any front. -/
theorem not_balanced_of_open {cs : List Char} (h : (blockRun 1 cs).2 = false) :
    ∀ front, front ≠ [] → front <+: units ('/' :: '*' :: cs) → ¬ Balanced front := by
  rw [units_opening ⟨rfl, rfl⟩]
  intro front hne hfront hbalanced
  obtain ⟨inner, rfl, hinner⟩ := (List.prefix_cons_iff.1 hfront).resolve_left hne
  have hstays := staysOpen_of_open Nat.one_ne_zero h inner hinner
  exact hbalanced.not_staysOpen (staysOpen_opening.2 hstays)

end Comment

/-! ### Trees of comments -/

/-- A comment with the comments inside it, each followed by more of its own text. -/
inductive CommentTree
  | node (text : List Char) (inner : List (CommentTree × List Char))

namespace CommentTree

mutual

/-- The comment as it is written. -/
def print : CommentTree → List Char
  | .node text inner => '/' :: '*' :: (text ++ (printInner inner ++ ['*', '/']))

/-- The comments inside one as they are written. -/
def printInner : List (CommentTree × List Char) → List Char
  | [] => []
  | (tree, text) :: inner => tree.print ++ (text ++ printInner inner)

end

/-- The text has no character of a mark. -/
def PlainText (text : List Char) : Prop := '/' ∉ text ∧ '*' ∉ text

mutual

/-- No text of the comment and of those inside it has a character of a mark. -/
def Plain : CommentTree → Prop
  | .node text inner => PlainText text ∧ PlainInner inner

/-- No text between the comments inside one and inside these has a character of a mark. -/
def PlainInner : List (CommentTree × List Char) → Prop
  | [] => True
  | (tree, text) :: inner => tree.Plain ∧ PlainText text ∧ PlainInner inner

end

end CommentTree

namespace Comment

/-- **A comment goes on over the run,** with `depth` comments open before it and `depth'` behind
it. -/
def Carries (depth : Nat) (run : List Char) (depth' : Nat) : Prop :=
  ∀ after, blockRun depth (run ++ after) =
    (run ++ (blockRun depth' after).1, (blockRun depth' after).2)

variable {depth : Nat}

theorem carries_nil : Carries depth [] depth := fun _ => rfl

theorem Carries.append {depth' depth'' : Nat} {run run' : List Char} (h : Carries depth run depth')
    (h' : Carries depth' run' depth'') : Carries depth (run ++ run') depth'' := fun after => by
  rw [List.append_assoc, h, h', List.append_assoc]

theorem carries_opening : Carries (depth + 1) ['/', '*'] (depth + 2) := fun after => by
  simp [blockRun]

theorem carries_closing : Carries (depth + 1) ['*', '/'] depth := fun after => by
  simp [blockRun]

/-- A character that belongs to no mark. -/
theorem carries_char {c : Char} (hslash : c ≠ '/') (hstar : c ≠ '*') :
    Carries (depth + 1) [c] (depth + 1) := fun _ =>
  blockRun_cons (Nat.succ_ne_zero depth) (fun h => hslash h.1) fun h => hstar h.1

theorem carries_plainText {text : List Char} (h : CommentTree.PlainText text) :
    Carries (depth + 1) text (depth + 1) := by
  obtain ⟨hslash, hstar⟩ := h
  induction text with
  | nil => exact carries_nil
  | cons c cs ih =>
    obtain ⟨hc, hcs⟩ := not_or.1 (mt List.mem_cons.2 hslash)
    obtain ⟨hc', hcs'⟩ := not_or.1 (mt List.mem_cons.2 hstar)
    exact (carries_char (Ne.symm hc) (Ne.symm hc')).append (ih hcs hcs')

/-- What stands behind the opening mark of a comment closes it if the comments inside it leave
open what they find open. -/
theorem carries_behindMark {text run : List Char} (htext : CommentTree.PlainText text)
    (hrun : Carries (depth + 1) run (depth + 1)) :
    Carries (depth + 1) (text ++ (run ++ ['*', '/'])) depth :=
  (carries_plainText htext).append (hrun.append carries_closing)

mutual

/-- **Over a tree the comments that are open stay the same.** -/
theorem carries_print : ∀ (tree : CommentTree) (depth : Nat), tree.Plain →
    Carries (depth + 1) tree.print (depth + 1)
  | .node text inner, depth, h => by
    rw [CommentTree.Plain] at h
    rw [CommentTree.print]
    exact carries_opening.append (carries_behindMark h.1 (carries_printInner inner (depth + 1) h.2))

/-- Over the comments inside one the comments that are open stay the same. -/
theorem carries_printInner : ∀ (inner : List (CommentTree × List Char)) (depth : Nat),
    CommentTree.PlainInner inner →
    Carries (depth + 1) (CommentTree.printInner inner) (depth + 1)
  | [], _, _ => carries_nil
  | (tree, text) :: inner, depth, h => by
    obtain ⟨htree, htext, hinner⟩ := h
    rw [CommentTree.printInner]
    exact (carries_print tree depth htree).append
      ((carries_plainText htext).append (carries_printInner inner depth hinner))

end

/-- **The comment at the head of a tree is the tree.** -/
theorem blockRun_behindMark {text : List Char} {inner : List (CommentTree × List Char)}
    (h : (CommentTree.node text inner).Plain) (after : List Char) :
    blockRun 1 (text ++ (CommentTree.printInner inner ++ ['*', '/']) ++ after) =
      (text ++ (CommentTree.printInner inner ++ ['*', '/']), true) := by
  rw [CommentTree.Plain] at h
  rw [carries_behindMark h.1 (carries_printInner inner 0 h.2) after, blockRun_zero, List.append_nil]

end Comment

/-- **A block comment of the unit** is the run before the reader: one piece of trivia and
nothing else, with one error if it is left open, and the scan gets behind it. -/
structure Source.HasBlockComment (s : Source) (r : Reader) (run : List Char) (closed : Bool) :
    Prop where
  begins : run <+: r.rest
  trivia : s.triviaWithin (r.spanOver run.length) = [⟨.blockComment, r.spanOver run.length⟩]
  tokens : s.tokensWithin (r.spanOver run.length) = []
  errors : s.errorsWithin (r.spanOver run.length) =
    if closed then [] else [⟨.unterminatedBlockComment, r.spanOver run.length, none⟩]
  behind : s.Reaches (r.advanceBy run.length)

/-- **At an opening mark** a unit has the block comment that is read there. -/
theorem Source.hasBlockComment {s : Source} {r : Reader} {cs : List Char} (h : s.Reaches r)
    (hr : r.rest = '/' :: '*' :: cs) :
    s.HasBlockComment r ('/' :: '*' :: (Comment.blockRun 1 cs).1) (Comment.blockRun 1 cs).2 := by
  have hne : r.rest ≠ [] := by simp [hr]
  obtain ⟨l, hl, hstep⟩ := h.exists_step hne
  obtain rfl : l = .blockComment ('/' :: '*' :: (Comment.blockRun 1 cs).1)
      (Comment.blockRun 1 cs).2 := by
    have hopening : Opening.ofChars (some '/') ('*' :: cs).head? = .lexeme .blockComment := rfl
    rw [hr, Lexeme.read?_of_opening hopening] at hl
    exact (Option.some.inj hl).symm
  refine ⟨Lexeme.isPrefix_chars_read? hl, ?_, ?_, ?_, ?_⟩
  · exact (triviaWithin_eq hstep).trans (Lexeme.trivia_blockComment _ _ r)
  · exact (tokensWithin_eq hstep).trans rfl
  · exact (errorsWithin_eq hstep).trans (Lexeme.errors_blockComment _ _ r)
  · obtain ⟨k, hk⟩ := h
    exact ⟨k, hk.behind hl rfl⟩

/-- **Block comments balance.**  Where a scan of the unit comes to an opening mark

* if the units of the text from there have a front that is balanced, the shortest one is a
  comment, and nothing is wrong with it;
* if they have none, the rest of the text is a comment that is left open;
* if the text from there begins with a tree of comments, printed with no character of a mark
  in the texts between them, the comment is the tree. -/
theorem block_comments_balance {s : Source} {r : Reader} (h : s.Reaches r)
    (hmark : ['/', '*'] <+: r.rest) :
    ((∃ front, Comment.ShortestBalanced (Comment.units r.rest) front ∧
        s.HasBlockComment r (front.flatMap CommentUnit.chars) true) ∨
      ((∀ front, front ≠ [] → front <+: Comment.units r.rest → ¬ Comment.Balanced front) ∧
        s.HasBlockComment r r.rest false)) ∧
      ∀ (tree : CommentTree) (after : List Char), tree.Plain → r.rest = tree.print ++ after →
        s.HasBlockComment r tree.print true := by
  obtain ⟨cs, hr⟩ : ∃ cs, r.rest = '/' :: '*' :: cs := hmark.imp fun _ => Eq.symm
  have hcomment := Source.hasBlockComment h hr
  rw [hr]
  constructor
  · cases hclosed : (Comment.blockRun 1 cs).2 with
    | true =>
      obtain ⟨front, hfront, hchars⟩ := Comment.exists_shortestBalanced hclosed
      refine Or.inl ⟨front, hfront, ?_⟩
      rwa [hchars, ← hclosed]
    | false =>
      refine Or.inr ⟨Comment.not_balanced_of_open hclosed, ?_⟩
      rwa [hclosed, Comment.blockRun_eq_of_open hclosed] at hcomment
  · rintro ⟨text, inner⟩ after htree hprint
    have hrun := Comment.blockRun_behindMark htree after
    rw [CommentTree.print] at hprint ⊢
    simp only [List.cons_append, List.cons.injEq, true_and] at hprint
    rwa [hprint, hrun] at hcomment

/-- The comment behind the word ends with the second mark that closes, since one comment stands
inside it; the third one is left for an operator. -/
theorem block_comments_balance_inner :
    (Source.ofString "a" "a/*b/*c*/*/*/").Reaches
        ((Source.ofString "a" "a/*b/*c*/*/*/").scanAfter 1).reader ∧
      ['/', '*'] <+: ((Source.ofString "a" "a/*b/*c*/*/*/").scanAfter 1).reader.rest ∧
      (Source.ofString "a" "a/*b/*c*/*/*/").HasBlockComment
        ((Source.ofString "a" "a/*b/*c*/*/*/").scanAfter 1).reader "/*b/*c*/*/".toList true := by
  have hreaches : (Source.ofString "a" "a/*b/*c*/*/*/").Reaches
      ((Source.ofString "a" "a/*b/*c*/*/*/").scanAfter 1).reader := ⟨1, .here⟩
  have hmark : ['/', '*'] <+: ((Source.ofString "a" "a/*b/*c*/*/*/").scanAfter 1).reader.rest := by
    decide +kernel
  have hprint : (CommentTree.node ['b'] [(.node ['c'] [], [])]).print = "/*b/*c*/*/".toList := by
    decide +kernel
  have htree := (block_comments_balance hreaches hmark).2
    (.node ['b'] [(.node ['c'] [], [])]) ['*', '/']
    (by simp [CommentTree.Plain, CommentTree.PlainInner, CommentTree.PlainText])
    (by decide +kernel)
  rw [hprint] at htree
  exact ⟨hreaches, hmark, htree⟩

end Lexis
