/-!
# Sorting short lists

The lists here are sorted by a test `less` that need not be an order: the numbers and the words among the values of an attribute may well compare in circles. Where it is an order, the result is the sorted list in which equal items keep their places. Where it is not, the result depends on which items are compared with which, so every comparison below is part of what is promised. A contradiction may be noticed, and then there is no result.
-/

namespace TwinShell.Sorting

variable {α : Type} (less : α → α → Bool)

/-- Puts `x` into a list sorted downwards, before the first item that it is not less than. -/
def insertDown (x : α) : List α → List α
  | [] => [x]
  | y :: ys => if less x y then y :: insertDown x ys else x :: y :: ys

/-- Adds items one by one to a list sorted upwards, each after those that it is not less than. -/
def insertAll (sorted items : List α) : List α :=
  (items.foldl (fun down x => insertDown less x down) sorted.reverse).reverse

def insertionSort (items : List α) : List α := insertAll less [] items

/-- Sorts four items with five comparisons: the first two, the last two, the lesser of each, the greater of each, and the two that are left. -/
def sortFour : List α → List α
  | [p, q, r, s] =>
    let (a, b) := if less q p then (q, p) else (p, q)
    let (c, d) := if less s r then (s, r) else (r, s)
    let second := less c a
    let first := less d b
    let least := if second then c else a
    let greatest := if first then b else d
    let x := if second then a else if first then c else b
    let y := if first then d else if second then b else c
    if less y x then [least, y, x, greatest] else [least, x, y, greatest]
  | items => items

/-- The items that `n` steps of a merge of two lists take, and how many of them come from the first list. -/
def mergeSteps (takeFirst : α → α → Bool) : Nat → List α → List α → List α × Nat
  | n + 1, x :: xs, y :: ys =>
    if takeFirst x y then
      let (taken, count) := mergeSteps takeFirst n xs (y :: ys)
      (x :: taken, count + 1)
    else
      let (taken, count) := mergeSteps takeFirst n (x :: xs) ys
      (y :: taken, count)
  | _, _, _ => ([], 0)

/-- Merges the two sorted halves of a list from both ends at once, half of the items from each end. A side that runs out of its half goes on into the other one. The two sides took every item once if what they took from the first half adds up; in a list of odd length one item is left between them. -/
def mergeHalves? (items : List α) : Option (List α) :=
  let n := items.length / 2
  let (front, a) := mergeSteps (fun x y => !less y x) n items (items.drop n)
  let (back, b) := mergeSteps (fun x y => less y x) n (items.take n).reverse items.reverse
  if items.length % 2 = 0 then
    if a + b = n then some (front ++ back.reverse) else none
  else if a + b + 1 = n then some (front ++ (items.drop a).take 1 ++ back.reverse)
  else if a + b = n then some (front ++ (items.drop (2 * n - a)).take 1 ++ back.reverse)
  else none

/-- Sorts a short list: its halves by insertion, after a start of four items if the list has at least eight, and then both together. -/
def sortPiece? (items : List α) : Option (List α) :=
  if items.length < 2 then some items
  else
    let n := items.length / 2
    let lead := if 8 ≤ items.length then 4 else 1
    let half (part : List α) : List α :=
      insertAll less (sortFour less (part.take lead)) (part.drop lead)
    mergeHalves? less (half (items.take n) ++ half (items.drop n))

/-- The length up to which a list counts as short. -/
def pieceLength : Nat := 32

end TwinShell.Sorting
