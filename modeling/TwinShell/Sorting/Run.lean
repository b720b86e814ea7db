import TwinShell.Sorting.Piece

/-!
# Sorting by merging runs

A list is cut into runs: stretches that are in order already if they are long enough, and else pieces of a set length, which are sorted at once or left for later. Neighbouring runs are then merged. Which merges come first is read off a binary tree over the places in the list: a boundary between two runs belongs to the node of the tree that separates their middles, and deeper boundaries are merged first.
-/

namespace TwinShell.Sorting

variable {α : Type}

/-- A stretch of a list, with what is known of it. -/
structure Run (α : Type) where
  items : List α
  sorted : Bool

/-- How many items of a list go on from `x`, each in keeping with the one before it. -/
def followers (keeps : α → α → Bool) : α → List α → Nat
  | _, [] => 0
  | x, y :: rest => if keeps x y then followers keeps y rest + 1 else 0

variable (less : α → α → Bool)

/-- The stretch in order at the start of a list, upwards: one that goes strictly down is turned around. -/
def naturalRun : List α → List α
  | x :: y :: rest =>
    if less y x then
      ((x :: y :: rest).take (followers (fun a b => less b a) y rest + 2)).reverse
    else (x :: y :: rest).take (followers (fun a b => !less b a) y rest + 2)
  | items => items

/-- How short runs are made: sorted at once, or left unsorted. -/
inductive Mode where
  | atOnce
  | later
  deriving DecidableEq, Repr

/-- The run at the start of a list. Stretches shorter than `least` do not count as in order. -/
def firstRun? (mode : Mode) (least : Nat) (items : List α) : Option (Run α) :=
  let natural := naturalRun less items
  if least ≤ natural.length then some ⟨natural, true⟩
  else
    match mode with
    | .atOnce => (sortPiece? less (items.take pieceLength)).map fun piece => ⟨piece, true⟩
    | .later => some ⟨items.take least, false⟩

/-- Cuts a list into runs. -/
def runs? (mode : Mode) (least : Nat) (items : List α) : Option (List (Run α)) :=
  match items with
  | [] => some []
  | x :: xs => do
    let run ← firstRun? less mode least (x :: xs)
    let rest ← runs? mode least (xs.drop (run.items.length - 1))
    return run :: rest
termination_by items.length
decreasing_by
  simp only [List.length_drop, List.length_cons]
  omega

/-- Merges two sorted lists, from the front, or from the back if the second is shorter. -/
def mergeSorted (left right : List α) : List α :=
  if left.length ≤ right.length then left.merge right fun x y => !less y x
  else (left.reverse.merge right.reverse fun x y => less y x).reverse

/-- How runs that were left unsorted are sorted in the end. -/
structure Finisher (α : Type) where
  sort? : List α → Option (List α)
  /-- The most items that are left unsorted together. -/
  capacity : Nat

def Run.finish? (finisher : Finisher α) (run : Run α) : Option (List α) :=
  if run.sorted then some run.items else finisher.sort? run.items

/-- Joins two neighbouring runs: two unsorted ones become one, if it is not too long, and others are merged. -/
def joinRuns? (finisher : Finisher α) (left right : Run α) : Option (Run α) :=
  if !left.sorted && !right.sorted &&
      left.items.length + right.items.length ≤ finisher.capacity then
    some ⟨left.items ++ right.items, false⟩
  else do
    let first ← left.finish? finisher
    let second ← right.finish? finisher
    return ⟨mergeSorted less first second, true⟩

/-- The depth of the boundary at `mid` between the runs from `left` and up to `right` in a list of `total` items: the number of leading binary digits, of 64, that the middles of the two runs share as fractions of the list. -/
def boundaryDepth (total left mid right : Nat) : Nat :=
  let scale := (0x4000000000000000 + total - 1) / total
  63 - Nat.log2 (Nat.xor (scale * (left + mid)) (scale * (mid + right)))

/-- Joins a run with those waiting before it whose boundary is at least as deep as `depth`. -/
def collapse? (finisher : Finisher α) (depth : Nat) :
    List (Run α × Nat) → Run α → Option (List (Run α × Nat) × Run α)
  | [], run => some ([], run)
  | (left, deep) :: waiting, run =>
    if depth ≤ deep then do
      let joined ← joinRuns? less finisher left run
      collapse? finisher depth waiting joined
    else some ((left, deep) :: waiting, run)

/-- Joins all runs of a list of `total` items: those waiting, last first and each with the depth of the boundary after it, the run from `start` on, and those that follow it. -/
def joinAll? (finisher : Finisher α) (total start : Nat) (waiting : List (Run α × Nat))
    (run : Run α) : List (Run α) → Option (Run α)
  | [] => do
    let (_, joined) ← collapse? less finisher 0 waiting run
    return joined
  | next :: rest => do
    let mid := start + run.items.length
    let depth := boundaryDepth total start mid (mid + next.items.length)
    let (waiting, joined) ← collapse? less finisher depth waiting run
    joinAll? finisher total mid ((joined, depth) :: waiting) next rest

/-- The length from which on a stretch counts as in order in a list of `n` items: half of the list, but at most 64, and about the square root of `n` for a long list. -/
def leastRun (n : Nat) : Nat :=
  if n ≤ 4096 then min (n - n / 2) 64
  else
    let shift := (1 + Nat.log2 n) / 2
    (Nat.pow 2 shift + n / Nat.pow 2 shift) / 2

def mergeRuns? (mode : Mode) (finisher : Finisher α) (items : List α) : Option (List α) := do
  match ← runs? less mode (leastRun items.length) items with
  | [] => return []
  | first :: rest => (← joinAll? less finisher items.length 0 [] first rest).finish? finisher

end TwinShell.Sorting
