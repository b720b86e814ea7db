import Mathlib.Data.List.Perm.Subperm
import TwinShell.Proofs.Hierarchy.Listing
import TwinShell.Proofs.Session.Atomic
import TwinShell.Proofs.Sorting.Piece

/-!
# Listing a directory and showing what matches

A listing holds the namespaces of a directory beside its objects, sorted together by path; for the root and the two places that only group namespaces the objects are left out. Where no namespace lies directly below the directory, the listing is just that of its objects. A pattern is matched against the listing, but what matches is then shown from the store. So it shows the objects that match exactly if the listing and the store agree on what matches: a namespace that matches but has no object behind it cannot be shown, and one that has is shown twice.
-/

namespace TwinShell

/-- Whether a listing of the path holds objects; else it holds namespaces only. -/
def Path.holdsObjects (path : String) : Bool := !(["/", logical, organisation].contains path)

/-- The namespaces directly below a path. -/
def Path.namespacesBelow (path : String) : List String :=
  namespaces.filter fun space => space ≠ "/" && parent space = path

/-- Whether the last name of a path matches the pattern that ends `target`. -/
def Path.matchesLast (target path : String) : Bool := Text.wildcardMatch (baseName target) (baseName path)

/-- The namespaces that match the pattern at the end of `target`, in its directory. -/
def Path.namespacesMatching (target : String) : List String :=
  (namespacesBelow (parent target)).filter (matchesLast target)

namespace Path

variable {path : String}

theorem mem_namespacesBelow {space : String} :
    space ∈ namespacesBelow path ↔ isNamespace space ∧ space ≠ "/" ∧ parent space = path := by
  simp [namespacesBelow, isNamespace_iff]

theorem nodup_namespacesBelow (path : String) : (namespacesBelow path).Nodup := by
  have hnodup : namespaces.Nodup := by decide
  exact hnodup.filter _

theorem nodup_namespacesMatching (target : String) : (namespacesMatching target).Nodup :=
  (nodup_namespacesBelow _).filter _

theorem namespacesBelow_eq_nil (hpath : ¬isNamespace path) : namespacesBelow path = [] := by
  refine List.eq_nil_iff_forall_not_mem.2 fun space hspace => ?_
  obtain ⟨hmem, -, rfl⟩ := mem_namespacesBelow.1 hspace
  exact hpath (isNamespace_parent hmem)

theorem holdsObjects_of_not_isNamespace (hpath : ¬isNamespace path) : holdsObjects path := by
  have hspaces : ∀ space ∈ ["/", logical, organisation], isNamespace space := by decide
  rw [holdsObjects, Bool.not_eq_true', ← Bool.not_eq_true, List.contains_iff_mem]
  exact mt (hspaces path) hpath

theorem ne_root_of_holdsObjects (hpath : holdsObjects path) : path ≠ "/" := by
  rintro rfl
  cases hpath

end Path

namespace Store

variable {s : Store} {target path : String}

/-- The paths in a listing of a directory, in some order. -/
def listed (s : Store) (dir : String) : List String :=
  Path.namespacesBelow dir ++ if Path.holdsObjects dir then s.childKeys dir else []

/-- What matches the pattern at the end of `target` in the listing of its directory, in some order. -/
def listedMatching (s : Store) (target : String) : List String :=
  (s.listed (Path.parent target)).filter (Path.matchesLast target)

/-- The objects directly below a directory whose name matches the pattern at the end of `target`, in the order of their paths. -/
def matching (s : Store) (target : String) : List (String × Object) :=
  s.objects.entries.filter fun e => Path.parent e.1 = Path.parent target && Path.matchesLast target e.1

/-- Where a listing holds objects, they are those directly below. -/
theorem isChild_iff_parent (hdir : path ≠ "/") {key : String} :
    isChild path false key ↔ Path.parent key = path := by
  rw [isChild_iff]
  constructor
  · rintro ⟨-, -, hparent⟩
    simpa using hparent
  · rintro rfl
    refine ⟨(Path.isUnder_self_parent key).resolve_left hdir, fun heq => hdir ?_, .inr rfl⟩
    rw [← heq]
    exact Path.eq_root_of_parent_eq heq.symm

theorem filter_isChild_keys (hdir : path ≠ "/") : s.objects.keys.filter (isChild path false) = s.childKeys path :=
  List.filter_congr fun key _ => by rw [Bool.eq_iff_iff, isChild_iff_parent hdir, decide_eq_true_iff]

theorem map_fst_matching (s : Store) (target : String) : (s.matching target).map Prod.fst =
    (s.childKeys (Path.parent target)).filter (Path.matchesLast target) := by
  rw [matching, childKeys, Dict.keys, List.filter_filter, List.filter_map]
  exact congrArg (List.map Prod.fst) (List.filter_congr fun e _ => Bool.and_comm _ _)

theorem get?_of_mem_matching {e : String × Object} (h : e ∈ s.matching target) :
    s.objects.get? e.1 = some e.2 :=
  Dict.mem_entries.1 (List.mem_filter.1 h).1

theorem childKeys_sorted (s : Store) (path : String) : (s.childKeys path).Pairwise (· ≤ ·) :=
  (s.objects.keys_sorted.filter _).imp fun h => Std.le_of_lt h

/-- What is shown of a stored object. -/
def shownAt (s : Store) (path : String) : Value := .object ((s.objects.get? path).getD .empty)

theorem map_shownAt_matching (s : Store) (target : String) :
    ((s.matching target).map Prod.fst).map s.shownAt = (s.matching target).map fun e => .object e.2 := by
  rw [List.map_map]
  refine List.map_congr_left fun e he => ?_
  rw [Function.comp_apply, shownAt, get?_of_mem_matching he, Option.getD_some]

end Store

namespace Command

variable {ν : Type} {s : Session Store ν} {target : String}

/-! ### Listing -/

/-- The order of a listing. -/
def listsBefore (a b : String × Object) : Bool := a.1 < b.1

theorem insertionSort_listsBefore (entries : List (String × Object)) :
    ((Sorting.insertionSort listsBefore entries).map Prod.fst).Pairwise (· ≤ ·) := by
  have horder : Sorting.IsOrder listsBefore Set.univ := by
    refine ⟨fun _ _ hab => ?_, fun _ _ _ hab hbc => ?_⟩
    · exact decide_eq_false (String.lt_asymm (of_decide_eq_true hab))
    · have hba := String.not_lt.1 (of_decide_eq_false hab)
      have hcb := String.not_lt.1 (of_decide_eq_false hbc)
      exact decide_eq_false (String.not_lt.2 (String.le_trans hcb hba))
  have hsorts := Sorting.sorts_insertionSort horder fun entry (_ : entry ∈ entries) => trivial
  exact List.pairwise_map.2 (hsorts.upward.imp fun h => String.not_lt.1 (of_decide_eq_false h))

/-- Listing a directory changes nothing and gives the paths directly below it, sorted. -/
theorem listChildren_eq_ok (hdir : s.hierarchy.Exists target) : ∃ entries,
    listChildren target {} s = .ok entries s ∧ (entries.map Prod.fst).Perm (s.hierarchy.listed target) ∧
      (entries.map Prod.fst).Pairwise (· ≤ ·) := by
  let namespaces := (Path.namespacesBelow target).map fun path => (path, namespaceObject path)
  have hnamespaces : namespaces.map Prod.fst = Path.namespacesBelow target := by
    rw [List.map_map]
    exact List.map_id _
  suffices h : ∃ children, listChildren target {} s =
      .ok (Sorting.insertionSort listsBefore (namespaces ++ children)) s ∧
      children.map Prod.fst = if Path.holdsObjects target then s.hierarchy.childKeys target else [] by
    obtain ⟨children, hlist, hchildren⟩ := h
    refine ⟨_, hlist, ((Sorting.insertionSort_perm _ _).map Prod.fst).trans ?_, insertionSort_listsBefore _⟩
    rw [List.map_append, hnamespaces, hchildren]
    exact .refl _
  unfold listChildren
  cases hgrouping : ["/", Path.logical, Path.organisation].contains target with
  | true =>
    have hobjects : Path.holdsObjects target = false := congrArg not hgrouping
    refine ⟨[], rfl, ?_⟩
    rw [hobjects]
    rfl
  | false =>
    have hobjects : Path.holdsObjects target = true := congrArg not hgrouping
    obtain ⟨children, hchildren, hkeys⟩ := Store.getChildren_eq_ok hdir false
    refine ⟨children, bind_of_ok (looking_eq_ok hchildren), ?_⟩
    rw [if_pos hobjects, hkeys, Store.filter_isChild_keys (Path.ne_root_of_holdsObjects hobjects)]

/-! ### Patterns -/

/-- A pattern stands for what matches it in the listing of its directory, sorted; if that is nothing, it designates nothing. -/
theorem wildcardTargets_eq (hdir : s.hierarchy.Exists (Path.parent target)) : ∃ found,
    found.Perm (s.hierarchy.listedMatching target) ∧
    found.Pairwise (· ≤ ·) ∧ wildcardTargets target s =
      if found = [] then .error (.failed (.path (.noMatch target))) s else .ok found s := by
  obtain ⟨entries, hlist, hperm, hsorted⟩ := listChildren_eq_ok hdir
  refine ⟨_, hperm.filter _, hsorted.filter _, ?_⟩
  unfold wildcardTargets
  rw [bind_of_ok hlist]
  show (if ((entries.map Prod.fst).filter (Path.matchesLast target)).isEmpty then failPath (.noMatch target)
    else pure _ : Command Store ν (List String)) s = _
  simp only [List.isEmpty_iff]
  split <;> rfl

/-- Showing objects gives them all, or fails at a path that names none. -/
theorem showObjects_cases (paths : List String) (s : Session Store ν) :
    (∀ path ∈ paths, s.hierarchy.objects.contains path) ∧ (∃ output,
      showObjects paths s = .ok (paths.map s.hierarchy.shownAt) { s with output }) ∨
    ∃ path ∈ paths, ¬s.hierarchy.objects.contains path ∧ ∃ output,
      showObjects paths s = .error (.failed (.hierarchy (.notFound path))) { s with output } := by
  induction paths generalizing s with
  | nil => exact .inl ⟨nofun, s.output, rfl⟩
  | cons path rest ih =>
    cases hstored : s.hierarchy.objects.get? path with
    | none =>
      have hmissing : ¬s.hierarchy.objects.contains path := by rw [Dict.contains, hstored]; exact Bool.false_ne_true
      exact .inr ⟨path, List.mem_cons_self, hmissing, s.output,
        bind_of_error (bind_of_error (getObject_eq_error hstored))⟩
    | some object =>
      have hcontains : s.hierarchy.objects.contains path := Dict.contains_iff.2 ⟨object, hstored⟩
      obtain ⟨output, hshow⟩ : ∃ output, showObject path s = .ok (s.hierarchy.shownAt path) { s with output } := by
        rw [Store.shownAt, hstored]
        exact ⟨_, bind_of_ok (getObject_eq_ok hstored)⟩
      rcases ih { s with output } with ⟨hall, output', hrest⟩ | ⟨other, hother, hmissing, output', hrest⟩
      · refine .inl ⟨List.forall_mem_cons.2 ⟨hcontains, hall⟩, output', ?_⟩
        rw [showObjects, bind_of_ok hshow, bind_of_ok hrest]
        rfl
      · refine .inr ⟨other, List.mem_cons_of_mem _ hother, hmissing, output', ?_⟩
        rw [showObjects, bind_of_ok hshow, bind_of_error hrest]

end Command

/-! ### Showing what matches -/

namespace Store

variable {s : Store} {target path : String}

/-- Of what matches the pattern at the end of `target` the listing shows just the objects. Where it holds objects, no namespace may match; where it holds namespaces only, those that match are to be the objects that match. -/
def ListsMatching (s : Store) (target : String) : Prop :=
  if Path.holdsObjects (Path.parent target) then Path.namespacesMatching target = []
  else ∀ path, path ∈ Path.namespacesMatching target ↔ path ∈ (s.matching target).map Prod.fst

theorem listedMatching_of_holdsObjects (hobjects : Path.holdsObjects (Path.parent target)) :
    s.listedMatching target = Path.namespacesMatching target ++ (s.matching target).map Prod.fst := by
  rw [listedMatching, listed, if_pos hobjects, List.filter_append, map_fst_matching, Path.namespacesMatching]

theorem listedMatching_of_not_holdsObjects (hobjects : ¬Path.holdsObjects (Path.parent target)) :
    s.listedMatching target = Path.namespacesMatching target := by
  rw [listedMatching, listed, if_neg hobjects, List.append_nil, Path.namespacesMatching]

theorem mem_map_fst_matching : path ∈ (s.matching target).map Prod.fst ↔
    (s.objects.contains path ∧ Path.parent path = Path.parent target) ∧ Path.matchesLast target path := by
  rw [map_fst_matching, List.mem_filter, mem_childKeys]

theorem nodup_map_fst_matching (s : Store) (target : String) : ((s.matching target).map Prod.fst).Nodup := by
  rw [map_fst_matching]
  exact (nodup_childKeys s _).filter _

theorem matching_sorted (s : Store) (target : String) :
    ((s.matching target).map Prod.fst).Pairwise (· ≤ ·) := by
  rw [map_fst_matching]
  exact (childKeys_sorted s _).filter _

theorem listedMatching_perm_iff :
    (s.listedMatching target).Perm ((s.matching target).map Prod.fst) ↔ s.ListsMatching target := by
  rw [ListsMatching]
  by_cases hobjects : Path.holdsObjects (Path.parent target)
  · rw [if_pos hobjects, listedMatching_of_holdsObjects hobjects]
    constructor
    · intro hperm
      have hlength := hperm.length_eq
      rw [List.length_append] at hlength
      exact List.eq_nil_of_length_eq_zero (by omega)
    · intro hnil
      rw [hnil, List.nil_append]
  · rw [if_neg hobjects, listedMatching_of_not_holdsObjects hobjects]
    exact List.perm_ext_iff_of_nodup (Path.nodup_namespacesMatching target) (s.nodup_map_fst_matching target)

/-- What matches in a listing, once it is sorted, is the objects that match only if the listing shows just these. -/
theorem eq_matching_iff {found : List String} (hperm : found.Perm (s.listedMatching target))
    (hsorted : found.Pairwise (· ≤ ·)) : found = (s.matching target).map Prod.fst ↔ s.ListsMatching target := by
  rw [← listedMatching_perm_iff]
  constructor
  · exact fun heq => heq ▸ hperm.symm
  · exact fun hlisted => (hperm.trans hlisted).eq_of_pairwise (fun a b _ _ => Std.le_antisymm) hsorted
      (matching_sorted s target)

theorem mem_listedMatching_of_not_contains (hmissing : ¬s.objects.contains path) :
    path ∈ s.listedMatching target ↔ path ∈ Path.namespacesMatching target := by
  by_cases hobjects : Path.holdsObjects (Path.parent target)
  · rw [listedMatching_of_holdsObjects hobjects, List.mem_append]
    exact or_iff_left fun hmem => hmissing (mem_map_fst_matching.1 hmem).1.1
  · rw [listedMatching_of_not_holdsObjects hobjects]

/-- If everything that matches in a listing is stored, it is as much as the objects that match only if it is the same. -/
theorem listedMatching_perm_of_length_eq
    (hstored : ∀ path ∈ s.listedMatching target, s.objects.contains path)
    (hlength : (s.listedMatching target).length = ((s.matching target).map Prod.fst).length) :
    (s.listedMatching target).Perm ((s.matching target).map Prod.fst) := by
  by_cases hobjects : Path.holdsObjects (Path.parent target)
  · rw [listedMatching_of_holdsObjects hobjects] at hlength ⊢
    rw [List.length_append] at hlength
    have hnone : Path.namespacesMatching target = [] := List.eq_nil_of_length_eq_zero (by omega)
    rw [hnone, List.nil_append]
  · rw [listedMatching_of_not_holdsObjects hobjects] at hstored hlength ⊢
    have hsub : Path.namespacesMatching target ⊆ (s.matching target).map Prod.fst := by
      intro path hpath
      obtain ⟨hspace, hmatches⟩ := List.mem_filter.1 hpath
      have hparent := (Path.mem_namespacesBelow.1 hspace).2.2
      exact mem_map_fst_matching.2 ⟨⟨hstored path hpath, hparent⟩, hmatches⟩
    have hsubperm := List.subperm_of_subset (Path.nodup_namespacesMatching target) hsub
    exact hsubperm.perm_of_length_le (Nat.le_of_eq hlength.symm)

end Store

namespace Session

variable {ν : Type} [Viewer ν] {s s₁ : Session Store ν} {path : Node} {target : String}

/-- The answer that a pattern asks for: the objects that match, in the order of their paths, or that nothing matches. -/
def ShowsMatching (s : Session Store ν) (target : String) : EStateM.Result Stop (Session Store ν) Value → Prop
  | .ok value _ => s.hierarchy.matching target ≠ [] ∧
    value = .list ((s.hierarchy.matching target).map fun e => .object e.2)
  | .error stop _ => s.hierarchy.matching target = [] ∧ stop = .failed (.path (.noMatch target))

theorem eval_get_of_pattern (hpath : Command.evalPath evalArgument path s = .ok target s₁)
    (hpattern : Text.hasChar (Path.baseName target) '*') : eval (.get path) s =
      (do return Value.list (← Command.showObjects (← Command.wildcardTargets target))) s₁ := by
  have hne : target ≠ Path.selection := by
    rintro rfl
    cases hpattern
  rw [eval_eq_step]
  refine (Command.bind_of_ok hpath).trans ?_
  rw [if_neg hne, if_pos hpattern]

/-- What a pattern below a directory comes to: nothing matches in the listing, everything that matches is shown, or something that matches is no object. -/
theorem eval_get_pattern_cases (hpath : Command.evalPath evalArgument path s = .ok target s₁)
    (hpattern : Text.hasChar (Path.baseName target) '*')
    (hdir : s₁.hierarchy.Exists (Path.parent target)) :
    ∃ found, found.Perm (s₁.hierarchy.listedMatching target) ∧ found.Pairwise (· ≤ ·) ∧
      (found = [] ∧ eval (.get path) s = .error (.failed (.path (.noMatch target))) s₁ ∨
      found ≠ [] ∧ (∀ other ∈ found, s₁.hierarchy.objects.contains other) ∧
        (∃ s', eval (.get path) s = .ok (.list (found.map s₁.hierarchy.shownAt)) s') ∨
      ∃ other ∈ found, ¬s₁.hierarchy.objects.contains other ∧
        ∃ s', eval (.get path) s = .error (.failed (.hierarchy (.notFound other))) s') := by
  obtain ⟨found, hperm, hsorted, hfound⟩ := Command.wildcardTargets_eq hdir
  rw [eval_get_of_pattern hpath hpattern]
  refine ⟨found, hperm, hsorted, ?_⟩
  by_cases hnil : found = []
  · rw [if_pos hnil] at hfound
    exact .inl ⟨hnil, Command.bind_of_error hfound⟩
  rw [if_neg hnil] at hfound
  rcases Command.showObjects_cases found s₁ with ⟨hstored, output, hshow⟩ | ⟨other, hother, hmissing, output, hshow⟩
  · exact .inr (.inl ⟨hnil, hstored, _, (Command.bind_of_ok hfound).trans (Command.bind_of_ok hshow)⟩)
  · exact .inr (.inr ⟨other, hother, hmissing, _, (Command.bind_of_ok hfound).trans (Command.bind_of_error hshow)⟩)

/-- A pattern below a directory that exists shows the objects that match, or says that there are none, exactly if of what matches the listing of the directory shows just the objects. If a namespace matches that has no object behind it, it fails at such a namespace. -/
theorem eval_get_pattern (hpath : Command.evalPath evalArgument path s = .ok target s₁)
    (hpattern : Text.hasChar (Path.baseName target) '*')
    (hdir : s₁.hierarchy.Exists (Path.parent target)) :
    (s₁.ShowsMatching target (eval (.get path) s) ↔ s₁.hierarchy.ListsMatching target) ∧
    ((∃ space ∈ Path.namespacesMatching target, ¬s₁.hierarchy.objects.contains space) →
      ∃ space ∈ Path.namespacesMatching target, ¬s₁.hierarchy.objects.contains space ∧
        ∃ s', eval (.get path) s = .error (.failed (.hierarchy (.notFound space))) s') := by
  obtain ⟨found, hperm, hsorted, hcases⟩ := eval_get_pattern_cases hpath hpattern hdir
  have hmem : ∀ {other}, ¬s₁.hierarchy.objects.contains other →
      (other ∈ found ↔ other ∈ Path.namespacesMatching target) := fun hmissing =>
    hperm.mem_iff.trans (Store.mem_listedMatching_of_not_contains hmissing)
  have hsame := Store.eq_matching_iff hperm hsorted
  rcases hcases with ⟨hnil, heval⟩ | ⟨hnil, hstored, s', heval⟩ | ⟨other, hother, hmissing, s', heval⟩
  · rw [heval, ← hsame, hnil]
    refine ⟨(and_iff_left rfl).trans ?_, fun ⟨space, hspace, hmissing⟩ => ?_⟩
    · exact ⟨fun hempty => (List.map_eq_nil_iff.2 hempty).symm, fun heq => List.map_eq_nil_iff.1 heq.symm⟩
    · exact absurd (hnil ▸ (hmem hmissing).2 hspace) List.not_mem_nil
  · rw [heval, ← hsame]
    refine ⟨⟨fun ⟨_, hvalue⟩ => ?_, fun heq => ⟨fun hempty => hnil ?_, ?_⟩⟩, fun ⟨space, hspace, hmissing⟩ => ?_⟩
    · -- As many values as objects that match leave no room for a namespace.
      have hlength := congrArg List.length (Value.list.inj hvalue)
      rw [List.length_map, List.length_map, hperm.length_eq] at hlength
      refine hsame.2 (Store.listedMatching_perm_iff.1 (Store.listedMatching_perm_of_length_eq ?_ ?_))
      · exact fun path hpath => hstored path (hperm.mem_iff.2 hpath)
      · rw [hlength, List.length_map]
    · rw [heq, hempty]
      rfl
    · rw [heq, Store.map_shownAt_matching]
    · exact absurd (hstored space ((hmem hmissing).2 hspace)) hmissing
  · refine ⟨?_, fun _ => ⟨other, (hmem hmissing).1 hother, hmissing, s', heval⟩⟩
    rw [heval, ← hsame]
    refine iff_of_false (fun h => nomatch h.2) fun heq => hmissing ?_
    exact (Store.mem_map_fst_matching.1 (heq ▸ hother)).1.1

/-- Of three sites the two that match are shown, and nothing of what is below one of them. -/
theorem eval_get_pattern_sites : ∃ s : Session Store Recorder,
    Command.evalPath evalArgument (.literalPath "/P/s*") s = .ok "/Physical/s*" s ∧
    Text.hasChar (Path.baseName "/Physical/s*") '*' ∧ s.hierarchy.Exists (Path.parent "/Physical/s*") ∧
    s.hierarchy.ListsMatching "/Physical/s*" ∧
    (s.hierarchy.matching "/Physical/s*").map Prod.fst = ["/Physical/sa", "/Physical/sb"] ∧
    s.ShowsMatching "/Physical/s*" (eval (.get (.literalPath "/P/s*")) s) := by
  obtain ⟨s, hs⟩ : ∃ s : Session Store Recorder, s = {
      hierarchy := (((Store.empty.insert "/Physical/sb" .empty).insert "/Physical/sa" .empty).insert
        "/Physical/t" .empty).insert "/Physical/sa/s" .empty, viewer := {} } := ⟨_, rfl⟩
  have hpath : Command.evalPath evalArgument (.literalPath "/P/s*") s = .ok "/Physical/s*" s := by
    rw [hs]
    rfl
  have hpattern : Text.hasChar (Path.baseName "/Physical/s*") '*' := by decide
  have hdir : s.hierarchy.Exists (Path.parent "/Physical/s*") := .inl (by decide)
  have hlists : s.hierarchy.ListsMatching "/Physical/s*" := by
    rw [Store.ListsMatching, if_pos (by decide)]
    decide
  have hmatching : (s.hierarchy.matching "/Physical/s*").map Prod.fst = ["/Physical/sa", "/Physical/sb"] := by
    rw [hs]
    decide
  have hshows := (eval_get_pattern hpath hpattern hdir).1.2 hlists
  exact ⟨s, hpath, hpattern, hdir, hlists, hmatching, hshows⟩

/-- What is in the physical namespace cannot be shown all together: its listing has the namespace of the stray objects too. -/
theorem get_pattern_fails_at_namespace : ∃ (node : Node) (s s' : Session Store Recorder),
    Language.parse "get /P/*" = .ok node ∧
    (s.hierarchy.matching "/Physical/*").map Prod.fst = ["/Physical/S"] ∧
    eval node s = .error (.failed (.hierarchy (.notFound "/Physical/Stray"))) s' := by
  let s : Session Store Recorder := { hierarchy := Store.empty.insert "/Physical/S" .empty, viewer := {} }
  have hpath : Command.evalPath evalArgument (.literalPath "/P/*") s = .ok "/Physical/*" s := by rfl
  have hfound : Command.wildcardTargets "/Physical/*" s = .ok ["/Physical/S", "/Physical/Stray"] s := by rfl
  obtain ⟨s', hshow⟩ : ∃ s', Command.showObjects ["/Physical/S", "/Physical/Stray"] s =
      .error (.failed (.hierarchy (.notFound "/Physical/Stray"))) s' := ⟨_, by rfl⟩
  refine ⟨.get (.literalPath "/P/*"), s, s', rfl, by decide, ?_⟩
  rw [eval_get_of_pattern hpath (by decide), Command.bind_of_ok hfound, Command.bind_of_error hshow]

end Session

end TwinShell
