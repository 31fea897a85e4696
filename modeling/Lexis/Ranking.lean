/-
# Rankings

The ranking of a list names its entries by their places, the least entry first.
Equal entries keep the order in which they stand.
-/

namespace Lexis

/-- The places of the entries of a list, counted from zero, in ascending order
of the entries. -/
def ranking {α : Type} [Ord α] (xs : List α) : List Nat :=
  (xs.zipIdx.mergeSort fun x y => (compare x.1 y.1).isLE).map Prod.snd

/-- A ranking names every place once. -/
theorem perm_ranking {α : Type} [Ord α] (xs : List α) :
    (ranking xs).Perm (List.range xs.length) := by
  have h := (List.mergeSort_perm xs.zipIdx fun x y => (compare x.1 y.1).isLE).map Prod.snd
  rwa [List.zipIdx_map_snd, ← List.range_eq_range'] at h

end Lexis
