import Mathlib.Data.List.Forall2
import TwinShell.Proofs.Path.Below
import TwinShell.Proofs.Session.Browsing

/-!
# Trees and recursive listings

A tree goes down from a path by the listings of direct children, level by level, and its depth bounds how far. A recursive listing goes through the paths of the store once and picks those below the path. In a store where every object hangs on a namespace or on another object, both meet the same paths: everything strictly below a path lies at or below exactly one of its direct children, one level further down. So a tree has one line for each path that is not too deep, and none comes after a path below it.
-/

namespace TwinShell

namespace Path

variable {path root : String}

/-- How many segments a path has. -/
def level (path : String) : Nat := (segments path).length

theorem level_le_of_isUnder (h : isUnder path root) : level root ≤ level path := by
  rw [level, level, segments_of_isUnder h, List.length_append]
  exact Nat.le_add_right _ _

theorem level_eq_of_parent (h : Canonical path) (hroot : path ≠ "/") : level path = level (parent path) + 1 := by
  obtain ⟨segs, segment, rfl, hsegs, hsegment⟩ := h.eq_child hroot
  have hall : ∀ t ∈ segs ++ [segment], IsSegment t :=
    List.forall_mem_append.2 ⟨hsegs, List.forall_mem_singleton.2 hsegment⟩
  rw [level, level, parent_ofSegments segs hsegment.no_slash, segments_of_isSegment hall,
    segments_of_isSegment hsegs, List.length_append, List.length_singleton]

end Path

namespace Store

variable {s : Store} {path : String}

/-- The paths in a tree of the given depth below a path, each followed by those below it. -/
def treePaths (s : Store) : Nat → String → List String
  | 0, _ => []
  | depth + 1, path => (s.childKeys path).flatMap fun child => child :: s.treePaths depth child

theorem mem_treePaths_succ {depth : Nat} {key : String} : key ∈ s.treePaths (depth + 1) path ↔
    ∃ child ∈ s.childKeys path, key = child ∨ key ∈ s.treePaths depth child := by
  simp only [treePaths, List.mem_flatMap, List.mem_cons]

section

variable (hcanonical : ∀ key, s.objects.contains key → Path.Canonical key) (hclosed : s.Closed)
include hcanonical

theorem level_of_mem_childKeys (hpath : ¬Path.isNamespace path) {key : String} (h : key ∈ s.childKeys path) :
    Path.level key = Path.level path + 1 := by
  obtain ⟨hstored, hparent⟩ := mem_childKeys.1 h
  rw [Path.level_eq_of_parent (hcanonical key hstored) (ne_root_of_mem_childKeys hpath h), hparent]

include hclosed

theorem level_lt_of_isUnder (hpath : ¬Path.isNamespace path) (hstored : s.objects.contains path) {key : String}
    (hkey : s.objects.contains key) (hunder : Path.isUnder key path) (hne : key ≠ path) :
    Path.level path < Path.level key := by
  obtain ⟨child, hchild, hbelow⟩ :=
    hclosed.exists_childKey hpath (hcanonical path hstored).ne_empty hkey hunder hne
  have hlevel := level_of_mem_childKeys hcanonical hpath hchild
  have hmono := Path.level_le_of_isUnder hbelow
  omega

/-- The paths of a tree are the stored ones strictly below and not too deep. -/
theorem mem_treePaths (hpath : ¬Path.isNamespace path) (hstored : s.objects.contains path) {depth : Nat}
    {key : String} : key ∈ s.treePaths depth path ↔ s.objects.contains key ∧ Path.isUnder key path ∧
      key ≠ path ∧ Path.level key ≤ Path.level path + depth := by
  induction depth generalizing path with
  | zero =>
    refine iff_of_false List.not_mem_nil ?_
    rintro ⟨hkey, hunder, hkeyne, hle⟩
    have hlt := level_lt_of_isUnder hcanonical hclosed hpath hstored hkey hunder hkeyne
    omega
  | succ depth ih =>
    have hbelow : ∀ child ∈ s.childKeys path, key ∈ s.treePaths depth child ↔
        s.objects.contains key ∧ Path.isUnder key child ∧ key ≠ child ∧
          Path.level key ≤ Path.level path + 1 + depth := by
      intro child hchild
      rw [ih (not_isNamespace_of_mem_childKeys hpath hchild) (mem_childKeys.1 hchild).1,
        level_of_mem_childKeys hcanonical hpath hchild]
    rw [mem_treePaths_succ]
    constructor
    · rintro ⟨child, hchild, hkey⟩
      obtain ⟨hchildunder, hchildne⟩ := isUnder_of_mem_childKeys hpath hchild
      have hlevel := level_of_mem_childKeys hcanonical hpath hchild
      rcases hkey with rfl | hkey
      · exact ⟨(mem_childKeys.1 hchild).1, hchildunder, hchildne, by omega⟩
      · obtain ⟨hkeystored, hunder, -, hle⟩ := (hbelow child hchild).1 hkey
        refine ⟨hkeystored, Path.isUnder_trans hunder hchildunder, ?_, by omega⟩
        rintro rfl
        exact hchildne (Path.isUnder_antisymm hchildunder hunder)
    · rintro ⟨hkey, hunder, hkeyne, hle⟩
      obtain ⟨child, hchild, hkeychild⟩ :=
        hclosed.exists_childKey hpath (hcanonical path hstored).ne_empty hkey hunder hkeyne
      refine ⟨child, hchild, Classical.or_iff_not_imp_left.2 fun hne => ?_⟩
      exact (hbelow child hchild).2 ⟨hkey, hkeychild, hne, by omega⟩

/-- No path of a tree comes after one at or below it. -/
theorem treePaths_pairwise (hpath : ¬Path.isNamespace path) (hstored : s.objects.contains path) (depth : Nat) :
    (s.treePaths depth path).Pairwise fun earlier later => ¬Path.isUnder earlier later := by
  induction depth generalizing path with
  | zero => exact .nil
  | succ depth ih =>
    have hunder : ∀ child ∈ s.childKeys path, ∀ key ∈ child :: s.treePaths depth child, Path.isUnder key child := by
      intro child hchild key hkey
      rcases List.mem_cons.1 hkey with rfl | hkey
      · exact Path.isUnder_refl key
      · exact ((mem_treePaths hcanonical hclosed (not_isNamespace_of_mem_childKeys hpath hchild)
          (mem_childKeys.1 hchild).1).1 hkey).2.1
    rw [treePaths, List.pairwise_flatMap]
    constructor
    · intro child hchild
      have hchildspace := not_isNamespace_of_mem_childKeys hpath hchild
      have hchildstored := (mem_childKeys.1 hchild).1
      refine List.pairwise_cons.2 ⟨fun key hkey hchildunder => ?_, ih hchildspace hchildstored⟩
      obtain ⟨-, hkeyunder, hne, -⟩ := (mem_treePaths hcanonical hclosed hchildspace hchildstored).1 hkey
      exact hne (Path.isUnder_antisymm hkeyunder hchildunder)
    · refine (nodup_childKeys s path).imp_of_mem fun ha hb hne x hx y hy hxy => hne ?_
      exact eq_of_isUnder_of_mem_childKeys hcanonical hpath ha hb (hunder _ ha x hx)
        (Path.isUnder_trans hxy (hunder _ hb y hy))

theorem nodup_treePaths (hpath : ¬Path.isNamespace path) (hstored : s.objects.contains path) (depth : Nat) :
    (s.treePaths depth path).Nodup := by
  refine (treePaths_pairwise hcanonical hclosed hpath hstored depth).imp fun hnot heq => hnot ?_
  exact heq ▸ Path.isUnder_refl _

/-- Every path of a tree hangs on the root of the tree or on another path of the tree. -/
theorem parent_mem_treePaths (hpath : ¬Path.isNamespace path) (hstored : s.objects.contains path) {depth : Nat}
    {key : String} (h : key ∈ s.treePaths depth path) :
    Path.parent key = path ∨ Path.parent key ∈ s.treePaths depth path := by
  refine Classical.or_iff_not_imp_left.2 fun hparent => ?_
  obtain ⟨hkey, hunder, hkeyne, hle⟩ := (mem_treePaths hcanonical hclosed hpath hstored).1 h
  have hne := (hcanonical path hstored).ne_empty
  have habove := Path.isUnder_parent hne hunder hkeyne
  have hspace : ¬Path.isNamespace (Path.parent key) := mt (Path.isNamespace_of_isUnder hne habove) hpath
  refine (mem_treePaths hcanonical hclosed hpath hstored).2 ⟨?_, habove, hparent, ?_⟩
  · exact (parentExists_iff.1 (hclosed key hkey)).resolve_left hspace
  · have hkeyroot : key ≠ "/" := by
      rintro rfl
      exact hspace (by decide)
    have hlevel := Path.level_eq_of_parent (hcanonical key hkey) hkeyroot
    omega

/-- Every path of a tree comes after the path that it hangs on. -/
theorem parent_mem_of_treePaths (hpath : ¬Path.isNamespace path) (hstored : s.objects.contains path)
    {depth : Nat} {before after : List String} {key : String}
    (h : s.treePaths depth path = before ++ key :: after) : Path.parent key ∈ path :: before := by
  have hmem : key ∈ s.treePaths depth path := h ▸ List.mem_append_right _ List.mem_cons_self
  rcases parent_mem_treePaths hcanonical hclosed hpath hstored hmem with hroot | hparent
  · exact List.mem_cons.2 (.inl hroot)
  have horder := treePaths_pairwise hcanonical hclosed hpath hstored depth
  have hparentne : Path.parent key ≠ "/" := by
    intro heq
    obtain ⟨-, hunder, -⟩ := (mem_treePaths hcanonical hclosed hpath hstored).1 hparent
    exact hpath (Path.isNamespace_of_isUnder (hcanonical path hstored).ne_empty hunder (heq ▸ by decide))
  rw [h] at hparent horder
  refine List.mem_cons_of_mem _ ((List.mem_append.1 hparent).resolve_right fun hlater => ?_)
  -- Neither the path itself nor one that comes after it can be its parent.
  have hself : Path.isUnder key (Path.parent key) := (Path.isUnder_self_parent key).resolve_left hparentne
  rcases List.mem_cons.1 hlater with heq | hafter
  · exact hparentne (heq.trans (Path.eq_root_of_parent_eq heq))
  · exact (List.pairwise_cons.1 (List.pairwise_append.1 horder).2.1).1 _ hafter hself

end

end Store

/-! ### Drawing -/

/-- How a tree shows a path below its root: the last name of the path, moved to the right by four columns for each level. -/
def DrawnAs (root path line : String) : Prop :=
  ∃ indent connector, line = indent ++ connector ++ Path.baseName path ∧ connector ∈ ["├── ", "└── "] ∧
    indent.length = 4 * (Path.level path - Path.level root - 1)

namespace Command

variable {ν : Type} {s : Session Store ν} {root target : String}

theorem listChildren_of_not_isNamespace (htarget : ¬Path.isNamespace target)
    (hstored : s.hierarchy.objects.contains target) :
    ∃ entries, listChildren target {} s = .ok entries s ∧
      entries.map Prod.fst = s.hierarchy.childKeys target := by
  obtain ⟨entries, hlist, hperm, hsorted⟩ := listChildren_eq_ok (.inr hstored)
  refine ⟨entries, hlist, ?_⟩
  rw [Store.listed, Path.namespacesBelow_eq_nil htarget, if_pos (Path.holdsObjects_of_not_isNamespace htarget),
    List.nil_append] at hperm
  exact hperm.eq_of_pairwise (fun a b _ _ => Std.le_antisymm) hsorted (Store.childKeys_sorted _ _)

/-- The lines for the children of an object, if the lines for what is below each child are known. -/
theorem treeChildren_eq_ok {below : String → String → Command Store ν (List String)}
    {paths : String → List String} {indent : String} {children : List (String × Object)}
    (hindent : ∀ child ∈ children.map Prod.fst, indent.length = 4 * (Path.level child - Path.level root - 1))
    (hbelow : ∀ child ∈ children.map Prod.fst, ∀ deeper : String, deeper.length = indent.length + 4 →
      ∃ lines, below child deeper s = .ok lines s ∧ List.Forall₂ (DrawnAs root) (paths child) lines) :
    ∃ lines, treeChildren below indent children s = .ok lines s ∧
      List.Forall₂ (DrawnAs root) ((children.map Prod.fst).flatMap fun child => child :: paths child) lines := by
  induction children with
  | nil => exact ⟨[], rfl, .nil⟩
  | cons child rest ih =>
    obtain ⟨hchild, hrest⟩ := List.forall_mem_cons.1 hbelow
    obtain ⟨hwidth, hwidths⟩ := List.forall_mem_cons.1 hindent
    obtain ⟨others, hothers, hothersdrawn⟩ := ih hwidths hrest
    obtain ⟨connector, continued, hrail, hconnector, hcontinued⟩ : ∃ connector continued : String,
        (if rest.isEmpty then ("└── ", "    ") else ("├── ", "│   ")) = (connector, continued) ∧
          connector ∈ ["├── ", "└── "] ∧ continued.length = 4 := by
      cases rest with
      | nil => exact ⟨_, _, rfl, by decide, by decide⟩
      | cons => exact ⟨_, _, rfl, by decide, by decide⟩
    obtain ⟨lines, hlines, hdrawn⟩ := hchild (indent ++ continued) (by rw [String.length_append, hcontinued])
    refine ⟨(indent ++ connector ++ Path.baseName child.1) :: lines ++ others, ?_, ?_⟩
    · simp only [treeChildren, hrail]
      rw [bind_of_ok hlines, bind_of_ok hothers]
      rfl
    · rw [List.map_cons, List.flatMap_cons]
      refine List.rel_append (.cons ?_ hdrawn) hothersdrawn
      exact ⟨indent, connector, rfl, hconnector, hwidth⟩

section

variable (hcanonical : ∀ key, s.hierarchy.objects.contains key → Path.Canonical key)
include hcanonical

/-- The lines of a tree below an object, at or below the root of the tree. -/
theorem treeLines_eq_ok (depth : Nat) {indent : String} (htarget : ¬Path.isNamespace target)
    (hstored : s.hierarchy.objects.contains target) (hroot : Path.level root ≤ Path.level target)
    (hindent : indent.length = 4 * (Path.level target - Path.level root)) :
    ∃ lines, treeLines depth target indent s = .ok lines s ∧
      List.Forall₂ (DrawnAs root) (s.hierarchy.treePaths depth target) lines := by
  induction depth generalizing target indent with
  | zero => exact ⟨[], rfl, .nil⟩
  | succ depth ih =>
    obtain ⟨entries, hlist, hkeys⟩ := listChildren_of_not_isNamespace htarget hstored
    rw [treeLines, bind_of_ok hlist, Store.treePaths, ← hkeys]
    refine treeChildren_eq_ok (fun child hchild => ?_) fun child hchild deeper hdeeper => ?_
    all_goals
      rw [hkeys] at hchild
      have hlevel := Store.level_of_mem_childKeys hcanonical htarget hchild
    · omega
    · refine ih (Store.not_isNamespace_of_mem_childKeys htarget hchild) (Store.mem_childKeys.1 hchild).1 ?_ ?_
      · omega
      · omega

end

end Command

namespace Session

variable {ν : Type} [Viewer ν] {s s₁ s₂ : Session Store ν} {path depth : Node} {root : String} {d : Int64}

/-- A tree below an object shows the object and then, each with a line of its own, the stored paths strictly below it that are not deeper than asked for, none of them before its parent. If nothing is deeper, these are the paths of the recursive listing. -/
theorem eval_tree_shows_listing (hpath : Command.evalTarget evalArgument path s = .ok root s₁)
    (hdepth : Command.evalInt evalArgument depth "depth" s₁ = .ok d s₂)
    (hcanonical : ∀ key, s₂.hierarchy.objects.contains key → Path.Canonical key)
    (hclosed : s₂.hierarchy.Closed) (hspace : ¬Path.isNamespace root)
    (hstored : s₂.hierarchy.objects.contains root) :
    ∃ paths lines, eval (.tree path (some depth)) s =
        .ok .null { s₂ with output := s₂.output ++ (root :: lines).toArray } ∧
      List.Forall₂ (DrawnAs root) paths lines ∧ paths.Nodup ∧
      (∀ key, key ∈ paths ↔ s₂.hierarchy.objects.contains key ∧ Path.isUnder key root ∧ key ≠ root ∧
        (Path.level key : Int) - Path.level root ≤ d.toInt) ∧
      (∀ before key after, paths = before ++ key :: after → Path.parent key ∈ root :: before) ∧
      ((∀ key, s₂.hierarchy.objects.contains key → Path.isUnder key root →
          (Path.level key : Int) - Path.level root ≤ d.toInt) →
        ∃ entries, s₂.hierarchy.getChildren root { recursive := true } = .ok entries ∧
          paths.Perm (entries.map Prod.fst)) := by
  obtain ⟨lines, hlines, hdrawn⟩ : ∃ lines, Command.treeLines d.toInt.toNat root "" s₂ = .ok lines s₂ ∧
      List.Forall₂ (DrawnAs root) (s₂.hierarchy.treePaths d.toInt.toNat root) lines := by
    refine Command.treeLines_eq_ok hcanonical _ hspace hstored (Nat.le_refl _) ?_
    rw [Nat.sub_self]
    rfl
  have hnodup := Store.nodup_treePaths hcanonical hclosed hspace hstored d.toInt.toNat
  have hmem : ∀ key, key ∈ s₂.hierarchy.treePaths d.toInt.toNat root ↔ s₂.hierarchy.objects.contains key ∧
      Path.isUnder key root ∧ key ≠ root ∧ (Path.level key : Int) - Path.level root ≤ d.toInt := by
    intro key
    rw [Store.mem_treePaths hcanonical hclosed hspace hstored]
    refine and_congr_right fun hkey => and_congr_right fun hunder => and_congr_right fun hne => ?_
    have hlt := Store.level_lt_of_isUnder hcanonical hclosed hspace hstored hkey hunder hne
    omega
  refine ⟨_, lines, ?_, hdrawn, hnodup, hmem, fun before key after =>
    Store.parent_mem_of_treePaths hcanonical hclosed hspace hstored, fun hshallow => ?_⟩
  · rw [eval_eq_step]
    refine (Command.bind_of_ok hpath).trans ((Command.bind_of_ok hdepth).trans ?_)
    exact (Command.bind_of_ok hlines).trans (Command.bind_of_ok (Command.emitAll_eq_ok _ _))
  · obtain ⟨entries, hentries, hkeys⟩ := Store.getChildren_eq_ok (.inr hstored) true
    refine ⟨entries, hentries, ?_⟩
    rw [hkeys, List.perm_ext_iff_of_nodup hnodup (s₂.hierarchy.objects.nodup_keys.filter _)]
    intro key
    rw [hmem, List.mem_filter, Dict.mem_keys, Store.isChild_iff]
    refine and_congr_right fun hkey => and_congr_right fun hunder => and_congr_right fun _ => ?_
    exact iff_of_true (hshallow key hkey hunder) (.inl rfl)

/-- A room with two racks, one of which holds a device: a tree of depth two reaches all three. -/
theorem eval_tree_shows_listing_racks : ∃ (s : Session Store Recorder) (paths lines : List String),
    Command.evalTarget evalArgument (.literalPath "/P/r") s = .ok "/Physical/r" s ∧
    Command.evalInt evalArgument (.literal (.int 2)) "depth" s = .ok 2 s ∧
    (∀ key, s.hierarchy.objects.contains key → Path.Canonical key) ∧ s.hierarchy.Closed ∧
    ¬Path.isNamespace "/Physical/r" ∧ s.hierarchy.objects.contains "/Physical/r" ∧
    eval (.tree (.literalPath "/P/r") (some (.literal (.int 2)))) s =
      .ok .null { s with output := s.output ++ ("/Physical/r" :: lines).toArray } ∧
    List.Forall₂ (DrawnAs "/Physical/r") paths lines ∧
    paths.Perm ["/Physical/r/a", "/Physical/r/a/d", "/Physical/r/b"] := by
  obtain ⟨s, hs⟩ : ∃ s : Session Store Recorder, s = {
      hierarchy := (((Store.empty.insert "/Physical/r" .empty).insert "/Physical/r/a" .empty).insert
        "/Physical/r/b" .empty).insert "/Physical/r/a/d" .empty, viewer := {} } := ⟨_, rfl⟩
  have hpath : Command.evalTarget evalArgument (.literalPath "/P/r") s = .ok "/Physical/r" s := by
    rw [hs]
    rfl
  have hdepth : Command.evalInt evalArgument (.literal (.int 2)) "depth" s = .ok 2 s := by rfl
  have hkeys : ∀ key ∈ s.hierarchy.objects.keys, Path.Canonical key ∧
      (Path.level key : Int) - Path.level "/Physical/r" ≤ Int64.toInt 2 := by
    rw [hs]
    decide
  have hcanonical : ∀ key, s.hierarchy.objects.contains key → Path.Canonical key :=
    fun key hkey => (hkeys key (Dict.mem_keys.2 hkey)).1
  have hclosed : s.hierarchy.Closed := by rw [hs]; decide
  have hspace : ¬Path.isNamespace "/Physical/r" := by decide
  have hstored : s.hierarchy.objects.contains "/Physical/r" := by rw [hs]; decide
  obtain ⟨paths, lines, heval, hdrawn, -, -, -, hall⟩ :=
    eval_tree_shows_listing hpath hdepth hcanonical hclosed hspace hstored
  obtain ⟨entries, hentries, hperm⟩ := hall fun key hkey _ => (hkeys key (Dict.mem_keys.2 hkey)).2
  have hlisted : entries.map Prod.fst = ["/Physical/r/a", "/Physical/r/a/d", "/Physical/r/b"] := by
    rw [hs] at hentries
    cases hentries
    decide
  exact ⟨s, paths, lines, hpath, hdepth, hcanonical, hclosed, hspace, hstored, heval, hdrawn, hlisted ▸ hperm⟩

end Session

end TwinShell
