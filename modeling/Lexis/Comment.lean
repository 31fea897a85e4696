/-
# Comments

A line comment runs up to the end of its line.  Block comments nest: reading
keeps the number of comments that are open, each opening mark adding one and
each closing mark taking one away, and ends with the mark that closes the
outermost comment.  The two characters of a mark belong to that mark alone.
-/

import Lexis.Text.CharClass

namespace Lexis.Comment

/-- The characters up to the end of the line. -/
def lineRun (text : List Char) : List Char := text.takeWhile fun c => !isLineEnd c

/-- The characters after an opening mark up to the end of the comment, where
`depth` comments are open, and whether all of them are closed there. -/
def blockRun (depth : Nat) : List Char → List Char × Bool
  | [] => ([], depth == 0)
  | [c] => if depth = 0 then ([], true) else ([c], false)
  | c :: d :: cs =>
    if depth = 0 then ([], true)
    else if c = '/' ∧ d = '*' then
      let (run, closed) := blockRun (depth + 1) cs
      (c :: d :: run, closed)
    else if c = '*' ∧ d = '/' then
      let (run, closed) := blockRun (depth - 1) cs
      (c :: d :: run, closed)
    else
      let (run, closed) := blockRun depth (d :: cs)
      (c :: run, closed)

/-- A line comment is a front of the text. -/
theorem lineRun_append_dropWhile (text : List Char) :
    lineRun text ++ text.dropWhile (fun c => !isLineEnd c) = text :=
  List.takeWhile_append_dropWhile

/-- A block comment is a front of the text. -/
theorem blockRun_append_drop (depth : Nat) (text : List Char) :
    (blockRun depth text).1 ++ text.drop (blockRun depth text).1.length = text := by
  fun_induction blockRun depth text with
  | case1 => rfl
  | case2 => rfl
  | case3 => rfl
  | case4 => rfl
  | case5 depth c d cs _ _ run closed hr ih =>
    rw [hr] at ih
    simpa using ih
  | case6 depth c d cs _ _ _ run closed hr ih =>
    rw [hr] at ih
    simpa using ih
  | case7 depth c d cs _ _ _ run closed hr ih =>
    rw [hr] at ih
    simpa using ih

/-- A block comment that is left open takes all of the text. -/
theorem blockRun_eq_of_open {depth : Nat} {text : List Char}
    (h : (blockRun depth text).2 = false) : (blockRun depth text).1 = text := by
  fun_induction blockRun depth text with
  | case1 => rfl
  | case2 => simp at h
  | case3 => rfl
  | case4 => simp at h
  | case5 depth c d cs _ _ run closed hr ih =>
    rw [hr] at ih
    simpa using ih h
  | case6 depth c d cs _ _ _ run closed hr ih =>
    rw [hr] at ih
    simpa using ih h
  | case7 depth c d cs _ _ _ run closed hr ih =>
    rw [hr] at ih
    simpa using ih h

end Lexis.Comment
