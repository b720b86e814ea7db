import TwinShell.Sorting.Run

/-!
# Sorting by splitting

A long list without order is split by one of its items into what is less than it and the rest, and each side is sorted in the same way. The number of splits inside each other is limited, and what is still long then is sorted by merging runs.
-/

namespace TwinShell.Sorting

variable {α : Type}

/-- The middle one of three places; `less` compares the items there. -/
def medianPlace (less : Nat → Nat → Bool) (a b c : Nat) : Nat :=
  let below := less a b
  if below = less a c then if less b c = below then b else c else a

/-- A place whose item is about in the middle: the median of three samples, each taken in the same way from `n` places from `a`, `b` and `c` on. -/
def samplePlace (less : Nat → Nat → Bool) (n a b c : Nat) : Nat :=
  if 8 ≤ n then
    let k := n / 8
    let sample (base : Nat) : Nat := samplePlace less k base (base + 4 * k) (base + 7 * k)
    medianPlace less (sample a) (sample b) (sample c)
  else medianPlace less a b c
termination_by n
decreasing_by omega

/-- The place of the item by which a list is split. -/
def pivotPlace (less : α → α → Bool) (items : Array α) : Nat :=
  let k := items.size / 8
  let lessAt (i j : Nat) : Bool :=
    match items[i]?, items[j]? with
    | some x, some y => less x y
    | _, _ => false
  samplePlace lessAt k 0 (4 * k) (7 * k)

/-- The items that go to the left and those that do not, in their order; the item at `place` goes where it is told. -/
def split (goesLeft : α → Bool) (place : Nat) (left : Bool) (items : List α) :
    List α × List α :=
  let (low, high) := items.zipIdx.partition fun (x, i) => if i = place then left else goesLeft x
  (low.map (·.1), high.map (·.1))

variable (less : α → α → Bool)

/-- Sorts by merging runs of which none is left unsorted. -/
def mergeAtOnce? (items : List α) : Option (List α) :=
  mergeRuns? less .atOnce ⟨some, items.length⟩ items

/-- Sorts by splitting, at most `limit` times inside each other. The item by which the list was last split off, if any, is `bound`: nothing in the list was less than it. An item that is not greater than the bound, or that nothing is less than, splits off the items that are not greater than it, which need no more sorting. -/
def quickSort? : Nat → Option α → List α → Option (List α)
  | limit, bound, items =>
    if items.length ≤ pieceLength then sortPiece? less items
    else
      match limit with
      | 0 => mergeAtOnce? less items
      | limit + 1 =>
        let place := pivotPlace less items.toArray
        match items[place]? with
        | none => some items
        | some pivot =>
          let repeated := bound.any fun b => !less b pivot
          let (low, high) :=
            if repeated then ([], items) else split (fun x => less x pivot) place false items
          if low.isEmpty then do
            let (same, others) := split (fun x => !less pivot x) place true items
            return same ++ (← quickSort? limit none others)
          else do
            let high ← quickSort? limit (some pivot) high
            let low ← quickSort? limit bound low
            return low ++ high

/-- How often a list of `n` items may be split. -/
def splitLimit (n : Nat) : Nat := 2 * Nat.log2 n

def finish? (items : List α) : Option (List α) :=
  quickSort? less (splitLimit items.length) none items

end TwinShell.Sorting
