import TwinShell.Proofs.Sorting.Quick
import TwinShell.Sorting

/-!
# Sorting sorts

Where the test is an order on the items of a list, no contradiction is noticed: the list is sorted, and items of which none is less than the other keep their places.
-/

namespace TwinShell.Sorting

variable {α : Type} {less : α → α → Bool} {S : Set α} {items : List α}

/-- Every list of items on which the test is an order is sorted. -/
theorem exists_sort? (ho : IsOrder less S) (hitems : ∀ x ∈ items, x ∈ S) :
    ∃ out, sort? less items = some out ∧ Sorts less S items out := by
  unfold sort?
  split
  · exact ⟨_, rfl, sorts_insertionSort ho hitems⟩
  · split
    · exact exists_mergeAtOnce? ho hitems
    · exact exists_mergeRuns? ho (fun _ => sound_finish? ho _) hitems

end TwinShell.Sorting
