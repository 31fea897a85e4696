/-
# Reporters

A reporter takes what is reported to it one item at a time, and all it does is
change what it remembers.  Three reporters are at hand: one that forgets, one
that keeps every item in order, and one for items that go straight to the
terminal, which remembers only whether there has been one.  The writing itself
is left to the outermost layer of a program.
-/

namespace Lexis

/-- A taker of items of type `α` that remembers a value of type `σ`. -/
structure Reporter (σ α : Type) where
  /-- What is remembered after an item. -/
  receive : σ → α → σ

namespace Reporter

/-- What is remembered after several items, the first of them received first. -/
def receiveAll {σ α : Type} (r : Reporter σ α) (memory : σ) (items : List α) : σ :=
  items.foldl r.receive memory

/-- The reporter that forgets every item. -/
def discard {α : Type} : Reporter Unit α := ⟨fun _ _ => ()⟩

/-- The reporter that keeps the items in the order in which they came. -/
def collect {α : Type} : Reporter (List α) α := ⟨fun items item => items ++ [item]⟩

/-- The reporter that remembers whether an item has come to be printed. -/
def print {α : Type} : Reporter Bool α := ⟨fun _ _ => true⟩

@[simp] theorem receiveAll_collect {α : Type} (memory items : List α) :
    collect.receiveAll memory items = memory ++ items := by
  unfold receiveAll
  induction items generalizing memory with
  | nil => simp
  | cons item items ih => rw [List.foldl_cons, ih]; simp [collect]

@[simp] theorem receiveAll_print {α : Type} (memory : Bool) (items : List α) :
    print.receiveAll memory items = (memory || !items.isEmpty) := by
  unfold receiveAll
  induction items generalizing memory with
  | nil => simp
  | cons item items ih => rw [List.foldl_cons, ih]; simp [print]

end Reporter

end Lexis
