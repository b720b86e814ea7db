import TwinShell.Hierarchy.Store
import TwinShell.Proofs.Dict
import TwinShell.Proofs.Path
import TwinShell.Proofs.Session.Steps

/-!
# Replaying creations

A script that creates sites may run over a store in which some of them exist. That an object exists already ends the statement in which it is found out, and is no failure of that statement: the script goes on with the next line. A line that creates several sites is one statement, so what stands behind a site that exists is never created, and nothing tells. Which sites are stored after a run is stated here exactly, by what one creation does, what a line does, and what the run does.
-/

namespace TwinShell

/-- A path in canonical form directly below `/Physical`. -/
structure Path.IsSite (path : String) : Prop where
  canonical : Canonical path
  parent_eq : parent path = physical

instance (path : String) : Decidable (Path.IsSite path) :=
  decidable_of_iff (Path.Canonical path ∧ Path.parent path = Path.physical)
    ⟨fun h => ⟨h.1, h.2⟩, fun h => ⟨h.canonical, h.parent_eq⟩⟩

theorem Path.IsSite.resolve_eq {path : String} (h : IsSite path) (current previous : String) :
    resolve path current previous = path := by
  have hroot : path ≠ "/" := by
    rintro rfl
    exact absurd h.parent_eq (by decide)
  obtain ⟨segs, s, rfl, hsegs, hs⟩ := h.canonical.eq_child hroot
  have hparent := h.parent_eq
  rw [parent_ofSegments segs hs.no_slash] at hparent
  obtain rfl : segs = ["Physical"] := by
    rw [← segments_of_isSegment hsegs, hparent]
    decide
  refine resolve_ofSegments (by simp) ?_ rfl current previous
  exact List.forall_mem_append.2 ⟨hsegs, List.forall_mem_singleton.2 hs⟩

namespace Store

variable {s : Store} {path first : String} {paths : List String}

def createSite (s : Store) (path : String) : Except HierarchyError (Object × Store) :=
  s.createObject path .site (withAttributes .empty)

/-- Creates sites one after the other, up to the first one that is refused. -/
def createSites (s : Store) : List String → Store
  | [] => s
  | path :: rest =>
    match s.createSite path with
    | .ok (_, s) => s.createSites rest
    | .error _ => s

theorem createSite_of_contains (h : s.objects.contains path) :
    s.createSite path = .error (.alreadyExists path) := by
  rw [createSite, createObject, if_pos h]

theorem createSite_of_new (hsite : Path.IsSite path) (h : ¬s.objects.contains path) :
    ∃ object, s.createSite path = .ok (object, ⟨s.objects.insert path object⟩) := by
  have hparent : s.parentExists path = true := by
    rw [parentExists, hsite.parent_eq]
    rfl
  refine ⟨newObject path .site (withAttributes .empty), ?_⟩
  rw [createSite, createObject, if_neg h, hparent]
  rfl

/-- Creating sites one after the other comes to `path`: the ones before it are new, each named once. -/
def ComesTo (s : Store) (paths : List String) (path : String) : Prop :=
  ∃ before after, paths = before ++ path :: after ∧ before.Nodup ∧
    ∀ p ∈ before, ¬s.objects.contains p

theorem comesTo_cons (object : Object) : s.ComesTo (first :: paths) path ↔
    path = first ∨ ¬s.objects.contains first ∧ ComesTo ⟨s.objects.insert first object⟩ paths path := by
  constructor
  · rintro ⟨before, after, heq, hnodup, hnew⟩
    cases before with
    | nil =>
      cases heq
      exact .inl rfl
    | cons p before =>
      cases heq
      obtain ⟨hp, hnodup⟩ := List.nodup_cons.1 hnodup
      obtain ⟨hfirst, hnew⟩ := List.forall_mem_cons.1 hnew
      refine .inr ⟨hfirst, before, after, rfl, hnodup, fun q hq hcontains => ?_⟩
      rcases (Dict.contains_insert _ _ _ _).1 hcontains with rfl | hold
      · exact hp hq
      · exact hnew q hq hold
  · rintro (rfl | ⟨hfirst, before, after, rfl, hnodup, hnew⟩)
    · exact ⟨[], paths, rfl, List.nodup_nil, nofun⟩
    · have hnot : first ∉ before := fun hmem =>
        hnew first hmem ((Dict.contains_insert _ _ _ _).2 (.inl rfl))
      refine ⟨first :: before, after, rfl, List.nodup_cons.2 ⟨hnot, hnodup⟩, ?_⟩
      refine List.forall_mem_cons.2 ⟨hfirst, fun q hq hold => hnew q hq ?_⟩
      exact (Dict.contains_insert _ _ _ _).2 (.inr hold)

/-- What a line of creations adds to a store. -/
theorem contains_createSites (hsites : ∀ p ∈ paths, Path.IsSite p) :
    (s.createSites paths).objects.contains path ↔ s.objects.contains path ∨ s.ComesTo paths path := by
  induction paths generalizing s with
  | nil =>
    refine (or_iff_left ?_).symm
    rintro ⟨before, after, heq, -⟩
    simp at heq
  | cons first paths ih =>
    obtain ⟨hfirst, hsites⟩ := List.forall_mem_cons.1 hsites
    rw [createSites]
    by_cases hcontains : s.objects.contains first
    · rw [createSite_of_contains hcontains, comesTo_cons .empty]
      constructor
      · exact .inl
      · rintro (hold | rfl | ⟨hnew, -⟩)
        · exact hold
        · exact hcontains
        · exact absurd hcontains hnew
    · obtain ⟨object, hcreate⟩ := createSite_of_new hfirst hcontains
      rw [hcreate, comesTo_cons object, and_iff_right hcontains]
      dsimp only
      rw [ih hsites, Dict.contains_insert, or_comm (a := path = first), or_assoc]

/-- Creations leave what is stored as it is. -/
theorem get?_createSites {object : Object} (hsites : ∀ p ∈ paths, Path.IsSite p)
    (h : s.objects.get? path = some object) :
    (s.createSites paths).objects.get? path = some object := by
  induction paths generalizing s with
  | nil => exact h
  | cons first paths ih =>
    obtain ⟨hfirst, hsites⟩ := List.forall_mem_cons.1 hsites
    rw [createSites]
    by_cases hcontains : s.objects.contains first
    · rw [createSite_of_contains hcontains]
      exact h
    · obtain ⟨created, hcreate⟩ := createSite_of_new hfirst hcontains
      rw [hcreate]
      refine ih hsites ?_
      have hne : path ≠ first := by
        rintro rfl
        exact hcontains (Dict.contains_iff.2 ⟨object, h⟩)
      rw [Dict.get?_insert, if_neg hne, h]

/-- What lines of creations add to a store. -/
theorem contains_foldl_createSites {lines : List (List String)}
    (hsites : ∀ line ∈ lines, ∀ p ∈ line, Path.IsSite p) :
    (lines.foldl createSites s).objects.contains path ↔ s.objects.contains path ∨
      ∃ earlier line later, lines = earlier ++ line :: later ∧
        (earlier.foldl createSites s).ComesTo line path := by
  induction lines generalizing s with
  | nil => simp
  | cons line lines ih =>
    obtain ⟨hline, hsites⟩ := List.forall_mem_cons.1 hsites
    rw [List.foldl_cons, ih hsites, contains_createSites hline]
    constructor
    · rintro ((hold | hcomes) | ⟨earlier, other, later, rfl, hcomes⟩)
      · exact .inl hold
      · exact .inr ⟨[], line, lines, rfl, hcomes⟩
      · exact .inr ⟨line :: earlier, other, later, rfl, hcomes⟩
    · rintro (hold | ⟨earlier, other, later, heq, hcomes⟩)
      · exact .inl (.inl hold)
      · cases earlier with
        | nil =>
          cases heq
          exact .inl (.inr hcomes)
        | cons first earlier =>
          cases heq
          exact .inr ⟨earlier, other, later, rfl, hcomes⟩

theorem get?_foldl_createSites {lines : List (List String)} {object : Object}
    (hsites : ∀ line ∈ lines, ∀ p ∈ line, Path.IsSite p) (h : s.objects.get? path = some object) :
    (lines.foldl createSites s).objects.get? path = some object := by
  induction lines generalizing s with
  | nil => exact h
  | cons line lines ih =>
    obtain ⟨hline, hsites⟩ := List.forall_mem_cons.1 hsites
    exact ih hsites (get?_createSites hline h)

end Store

/-! ### Statements -/

def Node.siteAt (path : String) : Node := .create (.site (.literalPath path))

/-- The node of a line that creates sites. -/
def Node.sitesAt (paths : List String) : Node := .ofStatements (paths.map siteAt)

namespace Command

variable {ν : Type} [Viewer ν] {path : String} {s : Session Store ν}

theorem draft_site (hsite : Path.IsSite path) (s : Session Store ν) (fuel : Nat) :
    draft (execute (fuel + 1)) (.site (.literalPath path)) s =
      .ok ⟨path, .site, withAttributes .empty⟩ s := by
  have hpath : evalPath (execute (fuel + 1)) (.literalPath path) s =
      .ok (Path.resolve path s.env.currentPath s.env.previousPath) s := rfl
  rw [hsite.resolve_eq] at hpath
  exact bind_of_ok hpath

theorem execute_siteAt_of_contains (hsite : Path.IsSite path) (h : s.hierarchy.objects.contains path)
    (fuel : Nat) : execute (fuel + 2) (.siteAt path) s =
      .error (.failed (.hierarchy (.alreadyExists path))) s := by
  have hcreate : (onHierarchy (Hierarchy.createObject path .site (withAttributes .empty)) :
      Command Store ν Object) s = .error (.failed (.hierarchy (.alreadyExists path))) s := by
    have hrefused := Store.createSite_of_contains h
    rw [Store.createSite] at hrefused
    simp only [onHierarchy, Hierarchy.createObject, Store.changing, hrefused]
  exact (bind_of_ok (draft_site hsite s fuel)).trans (bind_of_error hcreate)

/-- A draft that the store takes, whatever the viewer is told of it. -/
theorem create_eq_ok {ev : Node → Command Store ν Value} {creation : Creation Node} {d : Draft}
    {object : Object} {store : Store} (hdraft : draft ev creation s = .ok d s)
    (h : s.hierarchy.createObject d.path d.kind d.fields = .ok (object, store)) :
    ∃ s', create ev creation s = .ok (.object object) s' ∧ s'.hierarchy = store ∧
      s'.exitRequested = s.exitRequested := by
  have hcreate : (onHierarchy (Hierarchy.createObject d.path d.kind d.fields) :
      Command Store ν Object) s = .ok object { s with hierarchy := store } := by
    simp only [onHierarchy, Hierarchy.createObject, Store.changing, h]
  have hdrawn : ∃ drawn, isDrawn object { s with hierarchy := store } =
      .ok drawn { s with hierarchy := store } := ⟨_, rfl⟩
  obtain ⟨drawn, hdrawn⟩ := hdrawn
  obtain ⟨viewer, hnotify⟩ := notify_eq_ok (Message.create (forViewer d.path object))
    { s with hierarchy := store }
  cases drawn with
  | false =>
    refine ⟨{ s with hierarchy := store, output := s.output.push (d.path ++ " successfully created") },
      ?_, rfl, rfl⟩
    exact (bind_of_ok hdraft).trans ((bind_of_ok hcreate).trans (bind_of_ok hdrawn))
  | true =>
    refine ⟨{ s with hierarchy := store, viewer, output := s.output.push (d.path ++ " successfully created") },
      ?_, rfl, rfl⟩
    exact (bind_of_ok hdraft).trans ((bind_of_ok hcreate).trans
      ((bind_of_ok hdrawn).trans (bind_of_ok hnotify)))

theorem execute_siteAt_of_new (hsite : Path.IsSite path) {object : Object} {store : Store}
    (h : s.hierarchy.createSite path = .ok (object, store)) (fuel : Nat) :
    ∃ s', execute (fuel + 2) (.siteAt path) s = .ok (.object object) s' ∧ s'.hierarchy = store ∧
      s'.exitRequested = s.exitRequested :=
  create_eq_ok (draft_site hsite s fuel) h

/-- What the evaluation of a line of creations leads to: the sites up to the first one that exists are stored, and only its existence can stop the line. -/
def LeadsTo (store : Store) : EStateM.Result Stop (Session Store ν) Value → Prop
  | .ok _ s => s.hierarchy = store ∧ s.exitRequested = false
  | .error stop s => s.hierarchy = store ∧ s.exitRequested = false ∧
    ∃ path, stop = .failed (.hierarchy (.alreadyExists path))

theorem leadsTo_siteAt (hsite : Path.IsSite path) (hs : s.exitRequested = false) (fuel : Nat) :
    LeadsTo (s.hierarchy.createSites [path]) (execute (fuel + 2) (.siteAt path) s) := by
  by_cases hcontains : s.hierarchy.objects.contains path
  · rw [execute_siteAt_of_contains hsite hcontains, Store.createSites,
      Store.createSite_of_contains hcontains]
    exact ⟨rfl, hs, path, rfl⟩
  · obtain ⟨object, hcreate⟩ := Store.createSite_of_new hsite hcontains
    obtain ⟨s', hrun, hstore, hexit⟩ := execute_siteAt_of_new hsite hcreate fuel
    rw [hrun, Store.createSites, hcreate]
    exact ⟨hstore, hexit.trans hs⟩

theorem leadsTo_sequence {paths : List String} (hsites : ∀ p ∈ paths, Path.IsSite p)
    (hs : s.exitRequested = false) (fuel : Nat) (last : Value) :
    LeadsTo (s.hierarchy.createSites paths)
      (sequence (execute (fuel + 2)) last (paths.map Node.siteAt) s) := by
  induction paths generalizing s last with
  | nil => exact ⟨rfl, hs⟩
  | cons path paths ih =>
    obtain ⟨hsite, hsites⟩ := List.forall_mem_cons.1 hsites
    by_cases hcontains : s.hierarchy.objects.contains path
    · -- a site that exists ends the whole sequence, whatever stands behind it
      have hstop : sequence (execute (fuel + 2)) last ((path :: paths).map Node.siteAt) s = _ :=
        bind_of_error (execute_siteAt_of_contains hsite hcontains fuel)
      rw [hstop, Store.createSites, Store.createSite_of_contains hcontains]
      exact ⟨rfl, hs, path, rfl⟩
    · obtain ⟨object, hcreate⟩ := Store.createSite_of_new hsite hcontains
      obtain ⟨s', hrun, hstore, hexit⟩ := execute_siteAt_of_new hsite hcreate fuel
      have hexiting : exiting s' = .ok false s' := congrArg (EStateM.Result.ok · s') (hexit.trans hs)
      have hgoes : sequence (execute (fuel + 2)) last ((path :: paths).map Node.siteAt) s =
          sequence (execute (fuel + 2)) (.object object) (paths.map Node.siteAt) s' :=
        (bind_of_ok hrun).trans (bind_of_ok hexiting)
      rw [hgoes, Store.createSites, hcreate, ← hstore]
      exact ih hsites (hexit.trans hs) _

theorem leadsTo_sitesAt {paths : List String} (hsites : ∀ p ∈ paths, Path.IsSite p)
    (hs : s.exitRequested = false) (fuel : Nat) :
    LeadsTo (s.hierarchy.createSites paths) (execute (fuel + 3) (.sitesAt paths) s) := by
  match paths, hsites with
  | [], _ => exact ⟨rfl, hs⟩
  | [path], hsites => exact leadsTo_siteAt (hsites path List.mem_cons_self) hs (fuel + 1)
  | _ :: _ :: _, hsites => exact leadsTo_sequence hsites hs fuel .null

theorem runStatement_sites {statement : Statement Node} {paths : List String}
    (hcontent : statement.content = .sitesAt paths) (hsites : ∀ p ∈ paths, Path.IsSite p)
    (hs : s.exitRequested = false) (fuel : Nat) (file : String) :
    ∃ s', runStatement (execute (fuel + 3)) file statement s = .ok [] s' ∧
      s'.hierarchy = s.hierarchy.createSites paths ∧ s'.exitRequested = false := by
  have hleads := leadsTo_sitesAt hsites hs fuel
  rw [runStatement, hcontent]
  cases hrun : execute (fuel + 3) (.sitesAt paths) s with
  | ok value s' =>
    rw [hrun] at hleads
    exact ⟨s', rfl, hleads⟩
  | error stop s' =>
    -- only an object that exists stops the line, and `failuresOf` makes nothing of that
    rw [hrun] at hleads
    obtain ⟨hstore, hexit, path, rfl⟩ := hleads
    exact ⟨s', rfl, hstore, hexit⟩

theorem runStatements_sites {statements : List (Statement Node)} {lines : List (List String)}
    (hcontents : statements.map (·.content) = lines.map Node.sitesAt)
    (hsites : ∀ line ∈ lines, ∀ p ∈ line, Path.IsSite p) (hs : s.exitRequested = false) (fuel : Nat)
    (file : String) : ∃ s', runStatements (execute (fuel + 3)) file statements s = .ok [] s' ∧
      s'.hierarchy = lines.foldl Store.createSites s.hierarchy := by
  induction statements generalizing lines s with
  | nil =>
    obtain rfl : lines = [] := List.map_eq_nil_iff.1 hcontents.symm
    exact ⟨s, rfl, rfl⟩
  | cons statement statements ih =>
    cases lines with
    | nil => cases hcontents
    | cons line lines =>
      obtain ⟨hcontent, hcontents⟩ := List.cons.inj hcontents
      obtain ⟨hline, hsites⟩ := List.forall_mem_cons.1 hsites
      obtain ⟨s₁, hfirst, hstore, hexit⟩ := runStatement_sites hcontent hline hs fuel file
      obtain ⟨s₂, hrest, hstores⟩ := ih hcontents hsites hexit
      refine ⟨s₂, ?_, hstores.trans (hstore ▸ rfl)⟩
      have hget : (MonadState.get : Command Store ν (Session Store ν)) s₁ = .ok s₁ s₁ := rfl
      rw [runStatements, bind_of_ok hfirst, bind_of_ok hget, hexit]
      exact bind_of_ok hrest

end Command

/-! ### Scripts -/

/-- A script whose lines create sites below `/Physical`, with their paths given literally. -/
structure Script.CreatesSites (text : String) (lines : List (List String)) : Prop where
  readable : (read text).errors = []
  statements : (read text).statements.map (·.content) = lines.map Node.sitesAt
  sites : ∀ line ∈ lines, ∀ path ∈ line, Path.IsSite path

namespace Script

theorem Reading.add_of_parse {statement : Nat × String} {node : Node} (r : Reading)
    (h : Language.parse statement.2 = .ok node) (hnode : node ≠ .nop) :
    add statement r = { r with statements := ⟨statement.1, statement.2, node⟩ :: r.statements } := by
  unfold add
  split
  · rename_i heq
    cases h.symm.trans heq
    exact absurd rfl hnode
  · rename_i heq
    cases h.symm.trans heq
    rfl
  · rename_i heq
    cases h.symm.trans heq

theorem sitesAt_ne_nop {line : List String} (h : line ≠ []) : Node.sitesAt line ≠ .nop := by
  match line, h with
  | [_], _ => exact nofun
  | _ :: _ :: _, _ => exact nofun

theorem CreatesSites.of_parse {text : String} {lines : List (List String)}
    (hparse : (Script.statements text).map (fun statement => Language.parse statement.2) =
      lines.map fun line => .ok (.sitesAt line))
    (hnonempty : ∀ line ∈ lines, line ≠ []) (hsites : ∀ line ∈ lines, ∀ path ∈ line, Path.IsSite path) :
    CreatesSites text lines := by
  suffices hread : (read text).errors = [] ∧
      (read text).statements.map (·.content) = lines.map Node.sitesAt from
    ⟨hread.1, hread.2, hsites⟩
  rw [read]
  clear hsites
  generalize Script.statements text = statements at hparse ⊢
  induction statements generalizing lines with
  | nil =>
    obtain rfl : lines = [] := List.map_eq_nil_iff.1 hparse.symm
    exact ⟨rfl, rfl⟩
  | cons statement statements ih =>
    cases lines with
    | nil => cases hparse
    | cons line lines =>
      obtain ⟨hfirst, hparse⟩ := List.cons.inj hparse
      obtain ⟨hline, hnonempty⟩ := List.forall_mem_cons.1 hnonempty
      obtain ⟨herrors, hcontents⟩ := ih hnonempty hparse
      rw [List.foldr_cons, Reading.add_of_parse _ hfirst (sitesAt_ne_nop hline)]
      exact ⟨herrors, congrArg (Node.sitesAt line :: ·) hcontents⟩

end Script

namespace Session

variable {ν : Type} [Viewer ν] {text : String} {lines : List (List String)} {s : Session Store ν}

theorem runText_sites (h : Script.CreatesSites text lines) (hs : s.exitRequested = false)
    (file : String) : ∃ s', runText file text s = .ok () s' ∧
      s'.hierarchy = lines.foldl Store.createSites s.hierarchy := by
  have hfuel : defaultFuel = 0x3ffffffffffffffd + 3 := by decide
  obtain ⟨s', hrun, hstore⟩ :=
    Command.runStatements_sites h.statements h.sites hs 0x3ffffffffffffffd file
  have htext : Command.runText eval file text s = .ok () s' := by
    rw [← hfuel] at hrun
    rw [Command.runText, h.readable]
    exact Command.bind_of_ok hrun
  refine ⟨s', ?_, hstore⟩
  rw [runText, htext]

/-- Replaying creations never fails. A site is stored afterwards exactly if it was before, or some line comes to it: all that stands before it in that line was new, each site named once. What was stored stays as it was, and a script with one creation to a line stores all that it names. -/
theorem runText_stores_iff_comesTo (h : Script.CreatesSites text lines) (hs : s.exitRequested = false)
    (file : String) : ∃ s', runText file text s = .ok () s' ∧
      (∀ path, s'.hierarchy.objects.contains path ↔ s.hierarchy.objects.contains path ∨
        ∃ earlier line later, lines = earlier ++ line :: later ∧
          (earlier.foldl Store.createSites s.hierarchy).ComesTo line path) ∧
      (∀ path object, s.hierarchy.objects.get? path = some object →
        s'.hierarchy.objects.get? path = some object) ∧
      ((∀ line ∈ lines, line.length ≤ 1) → ∀ line ∈ lines, ∀ path ∈ line,
        s'.hierarchy.objects.contains path) := by
  obtain ⟨s', hrun, hstore⟩ := runText_sites h hs file
  have hcontains : ∀ path, s'.hierarchy.objects.contains path ↔
      s.hierarchy.objects.contains path ∨ ∃ earlier line later, lines = earlier ++ line :: later ∧
        (earlier.foldl Store.createSites s.hierarchy).ComesTo line path := by
    intro path
    rw [hstore]
    exact Store.contains_foldl_createSites h.sites
  refine ⟨s', hrun, hcontains, fun path object hget => ?_, fun hsingle line hline path hpath => ?_⟩
  · rw [hstore]
    exact Store.get?_foldl_createSites h.sites hget
  · obtain ⟨earlier, later, rfl⟩ := List.append_of_mem hline
    obtain ⟨before, after, rfl⟩ := List.append_of_mem hpath
    have hbefore : before = [] := by
      have hlength := hsingle _ hline
      rw [List.length_append, List.length_cons] at hlength
      exact List.length_eq_zero_iff.1 (by omega)
    refine (hcontains path).2 (.inr ⟨earlier, _, later, rfl, before, after, rfl, ?_, ?_⟩)
    · exact hbefore ▸ List.nodup_nil
    · exact hbefore ▸ nofun

/-- Two lines: the site of the first one exists, and the second one creates the other site. -/
theorem replay_goes_on_with_next_line :
    Script.CreatesSites "+site:/Physical/a\n+site:/Physical/b" [["/Physical/a"], ["/Physical/b"]] ∧
    ∃ s' : Session Store Recorder, runText "f" "+site:/Physical/a\n+site:/Physical/b"
      { hierarchy := Store.empty.insert "/Physical/a" .empty, viewer := {} } = .ok () s' ∧
      s'.hierarchy.objects.contains "/Physical/a" ∧ s'.hierarchy.objects.contains "/Physical/b" := by
  have hsites : ∀ line ∈ [["/Physical/a"], ["/Physical/b"]], ∀ path ∈ line, Path.IsSite path := by
    decide
  have hstatements : Script.statements "+site:/Physical/a\n+site:/Physical/b" =
      [(1, "+site:/Physical/a"), (2, "+site:/Physical/b")] := by decide +kernel
  have hfirst : Language.parse "+site:/Physical/a" = .ok (.sitesAt ["/Physical/a"]) := by rfl
  have hsecond : Language.parse "+site:/Physical/b" = .ok (.sitesAt ["/Physical/b"]) := by rfl
  have hscript : Script.CreatesSites "+site:/Physical/a\n+site:/Physical/b"
      [["/Physical/a"], ["/Physical/b"]] := by
    refine .of_parse ?_ (by decide) hsites
    rw [hstatements, List.map_cons, List.map_cons, hfirst, hsecond]
    rfl
  let s : Session Store Recorder :=
    { hierarchy := Store.empty.insert "/Physical/a" .empty, viewer := {} }
  obtain ⟨s', hrun, -, -, hall⟩ := runText_stores_iff_comesTo (s := s) hscript rfl "f"
  have hsingle : ∀ line ∈ [["/Physical/a"], ["/Physical/b"]], line.length ≤ 1 := by decide
  exact ⟨hscript, s', hrun, hall hsingle ["/Physical/a"] (by simp) _ (by simp),
    hall hsingle ["/Physical/b"] (by simp) _ (by simp)⟩

/-- The same creations on one line: the run succeeds, and the second site is not there. -/
theorem replay_drops_rest_of_line :
    Script.CreatesSites "+site:/Physical/a; +site:/Physical/b" [["/Physical/a", "/Physical/b"]] ∧
    ∃ s' : Session Store Recorder, runText "f" "+site:/Physical/a; +site:/Physical/b"
      { hierarchy := Store.empty.insert "/Physical/a" .empty, viewer := {} } = .ok () s' ∧
      ¬s'.hierarchy.objects.contains "/Physical/b" := by
  have hsites : ∀ line ∈ [["/Physical/a", "/Physical/b"]], ∀ path ∈ line, Path.IsSite path := by
    decide
  have hstatements : Script.statements "+site:/Physical/a; +site:/Physical/b" =
      [(1, "+site:/Physical/a; +site:/Physical/b")] := by decide +kernel
  have hline : Language.parse "+site:/Physical/a; +site:/Physical/b" =
      .ok (.sitesAt ["/Physical/a", "/Physical/b"]) := by rfl
  have hscript : Script.CreatesSites "+site:/Physical/a; +site:/Physical/b"
      [["/Physical/a", "/Physical/b"]] := by
    refine .of_parse ?_ (by decide) hsites
    rw [hstatements, List.map_cons, hline]
    rfl
  let s : Session Store Recorder :=
    { hierarchy := Store.empty.insert "/Physical/a" .empty, viewer := {} }
  obtain ⟨s', hrun, hstore⟩ := runText_sites (s := s) hscript rfl "f"
  refine ⟨hscript, s', hrun, ?_⟩
  rw [hstore]
  decide

end Session

end TwinShell
