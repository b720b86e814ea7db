import TwinShell.Sorting.Quick

/-!
# Sorting

Sorts a list by a test that need not be an order. Up to twenty items are sorted by insertion. More are sorted by merging runs, where short runs are sorted at once as long as there are few of them.
-/

namespace TwinShell.Sorting

/-- The length up to which a list is sorted by insertion. -/
def insertionLength : Nat := 20

/-- The most items of a list of `n` items that are sorted by splitting. -/
def splitCapacity (n : Nat) : Nat := max (n - n / 2) (min n 166666)

/-- Sorts a list upwards; items of which none is less than the other keep their places. There is no result if the comparisons are seen to contradict each other. -/
def sort? {α : Type} (less : α → α → Bool) (items : List α) : Option (List α) :=
  if items.length ≤ insertionLength then some (insertionSort less items)
  else if items.length ≤ 2 * pieceLength then mergeAtOnce? less items
  else mergeRuns? less .later ⟨finish? less, splitCapacity items.length⟩ items

end TwinShell.Sorting
