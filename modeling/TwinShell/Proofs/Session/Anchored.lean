import TwinShell.Proofs.Session.Careful

/-!
# Where a session can get lost

A session that starts at the root of an empty store stays anchored as long as nothing happens that the careful evaluator refuses. Deleting an object moves the session out of it, but linking and unlinking do not: a session inside a moved object is left behind at a path that is no longer there. The other ways to get lost are longer. A move to a place that is not there, or a template whose slug has a slash in it, leaves an object without a parent, and a session that goes there and deletes it moves up to nothing; and an object at the path `_` can be selected as one of several, although no canonical path leads to it.
-/

namespace TwinShell

namespace Session

variable {ν : Type} [Viewer ν]

/-- The session after a command line, whether it succeeds or not. -/
def afterLine (s : Session Store ν) (line : String) : Session Store ν :=
  match run line s with
  | .ok _ s' => s'
  | .error _ s' => s'

/-- The session after command lines, run one after another. -/
def afterLines (s : Session Store ν) (lines : List String) : Session Store ν := lines.foldl afterLine s

/-- Nothing is refused in a command line: the careful evaluator does what the evaluator does. -/
def Unrefused (s : Session Store ν) (line : String) : Prop :=
  ∀ node, Language.parse line = .ok node → eval node s = Command.executeCarefully defaultFuel node s

/-- Nothing is refused in command lines, run one after another. -/
def AllUnrefused (s : Session Store ν) : List String → Prop
  | [] => True
  | line :: rest => s.Unrefused line ∧ AllUnrefused (s.afterLine line) rest

theorem settled_afterLine {s : Session Store ν} {line : String} (hs : s.Settled)
    (hline : s.Unrefused line) : (s.afterLine line).Settled := by
  unfold afterLine run
  cases hparse : Language.parse line with
  | error e => exact hs
  | ok node =>
    have hpost := Command.keeps_executeCarefully defaultFuel node s hs
    simp only [hline node hparse]
    generalize Command.executeCarefully defaultFuel node s = result at hpost ⊢
    cases result with
    | ok value s' => exact hpost.1
    | error stop s' => exact hpost

theorem settled_afterLines {s : Session Store ν} {lines : List String} (hs : s.Settled)
    (hlines : s.AllUnrefused lines) (count : Nat) : (s.afterLines (lines.take count)).Settled := by
  induction lines generalizing s count with
  | nil =>
    rw [List.take_nil]
    exact hs
  | cons line rest ih =>
    cases count with
    | zero => exact hs
    | succ count => exact ih (settled_afterLine hs hlines.1) hlines.2 count

/-- Lines in which nothing is refused leave the session anchored, each of them; and what is refused is exactly what would unsettle a settled session, a move out of which the session is not taken included. -/
theorem anchored_afterLines (viewer : ν) (files : Files) (lines : List String) :
    (AllUnrefused (fresh viewer files) lines →
      ∀ count, (afterLines (fresh viewer files) (lines.take count)).Anchored) ∧
    ∀ s : Session Store ν, s.Settled →
      (∀ (m : Move) (store : Store), (∀ path ∈ m.paths, Path.Canonical path) →
        m.run s.hierarchy = .ok store →
        (Anchored { s with hierarchy := store } ↔
          ∀ path ∈ s.env.currentPath :: s.env.selection, m.Leaves s.hierarchy path) ∧
        (Settled { s with hierarchy := store } ↔ m.Spares s)) ∧
      (∀ (path : String) (kind : Kind) (payload object : Object) (store : Store),
        s.hierarchy.createObject path kind payload = .ok (object, store) →
        (Settled { s with hierarchy := store } ↔ path ≠ Path.selection)) ∧
      ∀ (template : Object) (store : Store), s.hierarchy.createTemplate template = .ok store →
        (Settled { s with hierarchy := store } ↔ s.hierarchy.HoldsParentOf template) := by
  refine ⟨fun hlines count => ?_, fun s hs => ⟨fun m store hpaths hrun => ?_, ?_, ?_⟩⟩
  · exact (settled_afterLines (settled_fresh viewer files) hlines count).toAnchored
  · exact ⟨Move.anchored_after_iff hs.toAnchored hrun, Move.settled_after_iff hs hpaths hrun⟩
  · exact fun path kind payload object store hcreate => hs.create_iff hcreate
  · exact fun template store hcreate => hs.template_iff hcreate

/-- A stray device is put into a rack while the session is at the root, which then goes to the device. -/
theorem anchored_after_linking :
    AllUnrefused (fresh ({} : Recorder) .empty)
      ["+site:/P/Stray/d", "+site:/P/r", "link:/P/Stray/d@/P/r", "cd /P/r/d"] ∧
    (∀ count, (afterLines (fresh ({} : Recorder) .empty)
      (["+site:/P/Stray/d", "+site:/P/r", "link:/P/Stray/d@/P/r", "cd /P/r/d"].take count)).Anchored) ∧
    ∃ (s : Session Store Recorder) (store : Store), s.Settled ∧
      Move.run s.hierarchy (.link "/Physical/Stray/d" "/Physical/r" none) = .ok store ∧
      (Settled { s with hierarchy := store } ↔
        Move.Spares (.link "/Physical/Stray/d" "/Physical/r" none) s) := by
  have hfirst : Language.parse "+site:/P/Stray/d" =
      .ok (.create (.site (.literalPath "/P/Stray/d"))) := by rfl
  have hsecond : Language.parse "+site:/P/r" = .ok (.create (.site (.literalPath "/P/r"))) := by rfl
  have hthird : Language.parse "link:/P/Stray/d@/P/r" =
      .ok (.link (.literalPath "/P/Stray/d") (.literalPath "/P/r") none) := by rfl
  have hfourth : Language.parse "cd /P/r/d" = .ok (.changeDir (.literalPath "/P/r/d")) := by rfl
  have hlines : AllUnrefused (fresh ({} : Recorder) .empty)
      ["+site:/P/Stray/d", "+site:/P/r", "link:/P/Stray/d@/P/r", "cd /P/r/d"] := by
    refine ⟨fun node h => ?_, fun node h => ?_, fun node h => ?_, fun node h => ?_, trivial⟩
    · cases hfirst.symm.trans h
      rfl
    · cases hsecond.symm.trans h
      rfl
    · cases hthird.symm.trans h
      rfl
    · cases hfourth.symm.trans h
      rfl
  have hmain := anchored_afterLines ({} : Recorder) .empty
    ["+site:/P/Stray/d", "+site:/P/r", "link:/P/Stray/d@/P/r", "cd /P/r/d"]
  have hsettled : Settled (⟨{}, (Store.empty.insert "/Physical/Stray/d" .empty).insert "/Physical/r" .empty,
      {}, .empty, [], #[], false, 0⟩ : Session Store Recorder) := by decide
  exact ⟨hlines, hmain.1 hlines, _, _, hsettled, rfl,
    ((hmain.2 _ hsettled).1 _ _ (by decide) rfl).2⟩

/-- A device is linked away from under a session that is inside it. -/
theorem not_anchored_after_link :
    ¬(afterLines (fresh ({} : Recorder) .empty)
      ["+site:/P/Stray/d", "+site:/P/r", "cd /P/Stray/d", "link:/P/Stray/d@/P/r"]).Anchored := by
  decide +kernel

end Session

end TwinShell
