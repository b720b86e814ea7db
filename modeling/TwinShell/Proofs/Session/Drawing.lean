import TwinShell.Proofs.Hierarchy.Listing
import TwinShell.Proofs.Path.Below
import TwinShell.Proofs.Session.Atomic

/-!
# What is drawn

An object is drawn with what lies below it, down to a depth. The depth of what is listed is counted in the text that is left of its path when the path of the object is cut off; in a store with canonical paths these are the names below the object. What is to be drawn is collected and counted before the first message is sent, so that a limit refuses everything or nothing, and each object of a drawable category has one message.
-/

namespace TwinShell

open Path (Canonical Below namesBelow)

variable {path root : String}

theorem relativeName_eq (h : Below path root) (hpath : Canonical path) (hroot : Canonical root) (hne : root ≠ "/") :
    relativeName path root = "/".intercalate (namesBelow root path) := by
  have hnames := Path.namesBelow_ne_nil hpath hroot h
  have hsegments := hpath.isSegment_namesBelow root
  obtain ⟨c, cs, htext, hc⟩ := Path.intercalate_eq_cons hnames hsegments
  have hcut : Text.dropStem? root path = some ("/" ++ "/".intercalate (namesBelow root path)) :=
    Text.dropStem?_eq_some_iff.2 ((h.eq_append hpath hroot hne).trans (String.append_assoc ..))
  have hslashes : ("/" ++ "/".intercalate (namesBelow root path)).toList.dropWhile (· == '/') =
      ("/".intercalate (namesBelow root path)).toList := by
    have hslash : "/".toList = ['/'] := rfl
    rw [String.toList_append, hslash, htext]
    simp [hc]
  simp only [relativeName, hcut, hslashes, String.ofList_toList, if_neg (Path.intercalate_ne_empty hnames hsegments)]

/-- The level at which something is listed is the number of names below the path. -/
theorem levelBelow_eq (h : Below path root) (hpath : Canonical path) (hroot : Canonical root) (hne : root ≠ "/") :
    Command.levelBelow path root = (namesBelow root path).length := by
  have hslash : "/".toList = ['/'] := rfl
  have hnames := Path.namesBelow_ne_nil hpath hroot h
  have hsegments : ∀ name ∈ namesBelow root path, '/' ∉ name.toList :=
    fun name hname => (hpath.isSegment_namesBelow root name hname).no_slash
  rw [Command.levelBelow, relativeName_eq h hpath hroot hne, Text.split, Text.pieces_eq_splitOn,
    Path.splitOn_intercalate hslash hnames hsegments, List.length_map, List.length_map]

namespace Store

/-- What is stored below a path and has at most `depth` names below it, in the order of the paths. -/
def levelsBelow (s : Store) (root : String) (depth : Int) : List (String × Object) :=
  s.objects.entries.filter fun e =>
    Path.isUnder e.1 root ∧ 1 ≤ (namesBelow root e.1).length ∧ ((namesBelow root e.1).length : Int) ≤ depth

variable {s : Store} {depth : Int}

theorem levelsBelow_sorted (s : Store) (root : String) (depth : Int) :
    ((s.levelsBelow root depth).map Prod.fst).Pairwise (· < ·) :=
  List.pairwise_map.2 (s.objects.sorted.filter _)

theorem levelsBelow_eq_nil (hdepth : depth ≤ 0) : s.levelsBelow root depth = [] := by
  refine List.filter_eq_nil_iff.2 fun e _ => ?_
  rw [decide_eq_true_iff]
  omega

/-- The recursive listing, without what is at a deeper level. -/
theorem filter_levelBelow (hcanonical : ∀ key, s.objects.contains key → Canonical key) (hroot : Canonical root)
    (hne : root ≠ "/") :
    (s.objects.entries.filter fun e => isChild root true e.1).filter
      (fun e => (Command.levelBelow e.1 root : Int) ≤ depth) = s.levelsBelow root depth := by
  -- What is listed has a name below the path, so the lower bound on the level costs nothing.
  rw [levelsBelow, List.filter_filter]
  refine List.filter_congr fun e he => ?_
  have hpath : Canonical e.1 := hcanonical e.1 (Dict.contains_iff.2 ⟨e.2, Dict.mem_entries.1 he⟩)
  rw [Bool.eq_iff_iff, Bool.and_eq_true, decide_eq_true_iff, decide_eq_true_iff, isChild_iff]
  constructor
  · rintro ⟨hlevel, hunder, hkey, -⟩
    rw [levelBelow_eq ⟨hunder, hkey⟩ hpath hroot hne] at hlevel
    exact ⟨hunder, List.length_pos_of_ne_nil (Path.namesBelow_ne_nil hpath hroot ⟨hunder, hkey⟩), hlevel⟩
  · rintro ⟨hunder, hsome, hlevel⟩
    have hkey : e.1 ≠ root := by
      intro heq
      rw [heq, namesBelow, List.drop_length] at hsome
      exact absurd hsome (by decide)
    rw [levelBelow_eq ⟨hunder, hkey⟩ hpath hroot hne]
    exact ⟨hlevel, hunder, hkey, .inl rfl⟩

end Store

/-- The message that draws an object; an id that it has is kept. -/
def drawingMessage (e : String × Object) : Json :=
  Message.create (Json.ofObject (e.2.insertNew "id" (.str (viewerId e.1))))

/-- What drawing an object to a depth is about: the object and then what is below it, as far as the categories are drawable. -/
def Session.drawn {ν : Type} (s : Session Store ν) (target : String) (depth : Int) : List (String × Object) :=
  ((s.hierarchy.objects.get? target).toList.map (target, ·) ++ s.hierarchy.levelsBelow target depth).filter
    fun e => (category? e.2).any s.env.settings.drawable.contains

def Session.sent {β : Type} (s : Session β Recorder) (messages : List Json) : Session β Recorder :=
  { s with viewer := { s.viewer with messages := s.viewer.messages ++ messages.toArray } }

namespace Command

section

variable {ν : Type} {s : Session Store ν} {target : String} {object : Object}

theorem drawnFrom_eq_ok (hcanonical : ∀ key, s.hierarchy.objects.contains key → Canonical key)
    (hne : target ≠ "/") (hstored : s.hierarchy.objects.get? target = some object) (depth : Int64) :
    drawnFrom depth target s = .ok ((target, object) :: s.hierarchy.levelsBelow target depth.toInt) s := by
  have hcontains : s.hierarchy.objects.contains target := Dict.contains_iff.2 ⟨object, hstored⟩
  rw [drawnFrom, bind_of_ok (getObject_eq_ok hstored)]
  by_cases hdepth : 0 < depth
  · have hchildren : onHierarchy (Hierarchy.getChildren target { recursive := true }) s =
        .ok (s.hierarchy.objects.entries.filter fun e => Store.isChild target true e.1) s :=
      looking_eq_ok (Store.getChildren_eq_filter (.inr hcontains) true)
    rw [if_pos hdepth, bind_of_ok hchildren,
      ← Store.filter_levelBelow hcanonical (hcanonical target hcontains) hne]
    rfl
  · rw [if_neg hdepth, Store.levelsBelow_eq_nil]
    · rfl
    · rw [Int64.lt_iff_toInt_lt] at hdepth
      exact Int.not_lt.1 hdepth

/-- The depth that is asked for; it is zero if none is. -/
def drawingDepth {β : Type} (ev : Node → Command β ν Value) : Option Node → Command β ν Int64
  | some depth => evalInt ev depth "depth"
  | none => pure 0

end

/-- Each object is sent with a message of its own, in order. -/
theorem drawEach_eq_ok (objects : List (String × Object)) {s : Session Store Recorder}
    (hconnected : s.viewer.connected) : drawEach objects s = .ok () (s.sent (objects.map drawingMessage)) := by
  induction objects generalizing s with
  | nil => rfl
  | cons e rest ih =>
    have hsend : send (drawingMessage e) s = .ok () (s.sent [drawingMessage e]) := by
      simp only [send, onViewer, Viewer.send, if_pos hconnected]
      rfl
    refine (bind_of_ok hsend).trans ((@ih (s.sent [drawingMessage e]) hconnected).trans ?_)
    simp [Session.sent]

/-- A limit is respected before anything is sent. -/
theorem drawEach_or_refuse (objects : List (String × Object)) (limit : Int64) (force : Bool)
    {s : Session Store Recorder} (hconnected : s.viewer.connected) :
    (if !force && limit.toInt < objects.length then failRuntime (.aboveDrawLimit objects.length limit)
      else do
        drawEach objects
        return .null : Command Store Recorder Value) s =
      if force ∨ objects.length ≤ limit.toInt then .ok .null (s.sent (objects.map drawingMessage))
      else .error (.failed (.runtime (.aboveDrawLimit objects.length limit))) s := by
  have hbeyond : (!force && decide (limit.toInt < objects.length)) = true ↔
      ¬(force ∨ objects.length ≤ limit.toInt) := by simp
  by_cases hwithin : force ∨ objects.length ≤ limit.toInt
  · rw [if_pos hwithin, if_neg (mt hbeyond.1 (not_not_intro hwithin))]
    exact (bind_of_ok (drawEach_eq_ok objects hconnected)).trans rfl
  · rw [if_neg hwithin, if_pos (hbeyond.2 hwithin)]
    rfl

end Command

namespace Session

variable {s s₁ s₂ : Session Store Recorder} {path : Node} {depth : Option Node} {target : String} {d : Int64}

/-- Drawing a stored object other than the root to a depth sends one message for each object that is drawn, first for the object itself and then in the order of the paths, and changes nothing else. Such a message creates the object, with its id. Without force it does so up to the limit; above it fails, and nothing is sent. Finding out the path and the depth changes nothing, if they are expressions. -/
theorem eval_draw_eq (hconnected : s.viewer.connected) (hstill : s₂.viewer.connected)
    (hdepth : Command.drawingDepth evalArgument depth s = .ok d s₁)
    (hpath : Command.evalTargets evalArgument path s₁ = .ok [target] s₂)
    (hcanonical : ∀ key, s₂.hierarchy.objects.contains key → Canonical key)
    (hstored : s₂.hierarchy.objects.contains target) (hne : target ≠ "/") (force : Bool) :
    eval (.draw path depth force) s =
        (if force ∨ (s₂.drawn target d.toInt).length ≤ s₂.env.settings.drawLimit.toInt then
          .ok .null (s₂.sent ((s₂.drawn target d.toInt).map drawingMessage))
        else
          .error (.failed (.runtime
            (.aboveDrawLimit (s₂.drawn target d.toInt).length s₂.env.settings.drawLimit))) s₂) ∧
      (∀ e ∈ s₂.drawn target d.toInt, (drawingMessage e).field? "type" = some (.str "create") ∧
        (drawingMessage e).field? "data" = some (Json.ofObject (e.2.insertNew "id" (.str (viewerId e.1))))) ∧
      ((s₂.hierarchy.levelsBelow target d.toInt).map Prod.fst).Pairwise (· < ·) ∧
      ((∀ part ∈ (Node.draw path depth force).parts, part.Plain) → s₂ = s) := by
  obtain ⟨object, hobject⟩ := Dict.contains_iff.1 hstored
  refine ⟨?_, fun e _ => Message.field?_typed "create" _, Store.levelsBelow_sorted _ _ _, fun hparts => ?_⟩
  · have hasked : Command.viewerConnected s = .ok true s := congrArg (EStateM.Result.ok · s) hconnected
    have hrequire : Command.requireViewer s = .ok () s := (Command.bind_of_ok hasked).trans rfl
    have hcollect : Command.drawnFromEach d [target] s₂ =
        .ok ((target, object) :: s₂.hierarchy.levelsBelow target d.toInt ++ []) s₂ :=
      (Command.bind_of_ok (Command.drawnFrom_eq_ok hcanonical hne hobject d)).trans rfl
    have hdrawn : ((target, object) :: s₂.hierarchy.levelsBelow target d.toInt ++ []).filter
        (fun e => (category? e.2).any s₂.env.settings.drawable.contains) = s₂.drawn target d.toInt := by
      rw [drawn, hobject, List.append_nil]
      rfl
    have hlast := Command.drawEach_or_refuse (s₂.drawn target d.toInt) s₂.env.settings.drawLimit force hstill
    rw [eval_eq_step, ← hlast, ← hdrawn]
    -- The cases differ only in whether there is a depth to find out.
    cases depth with
    | none =>
      cases hdepth
      exact (Command.bind_of_ok hrequire).trans ((Command.bind_of_ok hpath).trans (Command.bind_of_ok hcollect))
    | some depth =>
      refine (Command.bind_of_ok hrequire).trans ((Command.bind_of_ok hdepth).trans ?_)
      exact (Command.bind_of_ok hpath).trans (Command.bind_of_ok hcollect)
  · obtain ⟨hplain, hdepths⟩ := List.forall_mem_cons.1 hparts
    have hsame : s₁ = s := by
      cases depth with
      | none =>
        cases hdepth
        rfl
      | some depth =>
        have hkeeps : Command.Keeps (· = s) (Command.evalInt evalArgument depth "depth") :=
          Command.keeps_evalInt_of_plain _ (hdepths depth List.mem_cons_self) "depth"
        exact (hkeeps.of_ok rfl hdepth).1
    have hkeeps : Command.Keeps (· = s) (Command.evalTargets evalArgument path) :=
      Command.keeps_evalTargets_of_plain _ hplain
    exact (hkeeps.of_ok hsame hpath).1

/-- A room with a pillar and a rack, and a device in the rack: down to a depth of one the room and the rack are drawn, the rack under the id that it has. -/
theorem eval_draw_eq_racks : ∃ (s : Session Store Recorder),
    s.viewer.connected ∧ Command.drawingDepth evalArgument (some (.literal (.int 1))) s = .ok 1 s ∧
    Command.evalTargets evalArgument (.literalPath "/P/r") s = .ok ["/Physical/r"] s ∧
    (∀ key, s.hierarchy.objects.contains key → Canonical key) ∧ s.hierarchy.objects.contains "/Physical/r" ∧
    "/Physical/r" ≠ "/" ∧
    (∀ part ∈ (Node.draw (.literalPath "/P/r") (some (.literal (.int 1))) false).parts, part.Plain) ∧
    eval (.draw (.literalPath "/P/r") (some (.literal (.int 1))) false) s = .ok .null (s.sent [
      .obj [("data", .obj [("category", .str "room"), ("id", .str "r")]), ("type", .str "create")],
      .obj [("data", .obj [("category", .str "rack"), ("id", .str "seven")]), ("type", .str "create")]]) := by
  obtain ⟨s, hs⟩ : ∃ s : Session Store Recorder, s = {
      hierarchy := (((Store.empty.insert "/Physical/r" (Dict.ofList [("category", .str "room")])).insert
        "/Physical/r/b" (Dict.ofList [("category", .str "rack"), ("id", .str "seven")])).insert
        "/Physical/r/a" (Dict.ofList [("category", .str "pillar")])).insert
        "/Physical/r/b/d" (Dict.ofList [("category", .str "device")]),
      viewer := { connected := true } } := ⟨_, rfl⟩
  have hconnected : s.viewer.connected := by rw [hs]
  have hdepth : Command.drawingDepth evalArgument (some (.literal (.int 1))) s = .ok 1 s := by rfl
  have hpath : Command.evalTargets evalArgument (.literalPath "/P/r") s = .ok ["/Physical/r"] s := by
    rw [hs]
    rfl
  have hkeys : ∀ key ∈ s.hierarchy.objects.keys, Canonical key := by
    rw [hs]
    decide
  have hcanonical : ∀ key, s.hierarchy.objects.contains key → Canonical key :=
    fun key hkey => hkeys key (Dict.mem_keys.2 hkey)
  have hstored : s.hierarchy.objects.contains "/Physical/r" := by rw [hs]; decide
  have hparts : ∀ part ∈ (Node.draw (.literalPath "/P/r") (some (.literal (.int 1))) false).parts,
      part.Plain := by
    refine List.forall_mem_cons.2 ⟨(Node.parsed_literalPath "/P/r").plain rfl, ?_⟩
    exact List.forall_mem_singleton.2 (.intro rfl nofun)
  have hdrawn : s.drawn "/Physical/r" (Int64.toInt 1) =
      [("/Physical/r", Dict.ofList [("category", .str "room")]),
        ("/Physical/r/b", Dict.ofList [("category", .str "rack"), ("id", .str "seven")])] := by
    rw [hs]
    rfl
  have hroom : drawingMessage ("/Physical/r", Dict.ofList [("category", .str "room")]) =
      .obj [("data", .obj [("category", .str "room"), ("id", .str "r")]), ("type", .str "create")] :=
    Message.typed_eq ..
  have hrack : drawingMessage ("/Physical/r/b", Dict.ofList [("category", .str "rack"), ("id", .str "seven")]) =
      .obj [("data", .obj [("category", .str "rack"), ("id", .str "seven")]), ("type", .str "create")] :=
    Message.typed_eq ..
  have hlimit : (2 : Int) ≤ s.env.settings.drawLimit.toInt := by
    rw [hs]
    decide
  obtain ⟨heval, -⟩ := eval_draw_eq hconnected hconnected hdepth hpath hcanonical hstored (by decide) false
  rw [hdrawn, if_pos (.inr hlimit), List.map_cons, List.map_cons, List.map_nil, hroom, hrack] at heval
  exact ⟨s, hconnected, hdepth, hpath, hcanonical, hstored, by decide, hparts, heval⟩

end Session

end TwinShell
