import TwinShell.Hierarchy.Store
import TwinShell.Proofs.Dict
import TwinShell.Proofs.Session.Telling

/-!
# The viewer has no influence

What remains are the commands on the session itself: where it is, its variables, aliases and settings, and control flow. An alias is the one thing that a command leaves behind to be run later, and the scripts are the one thing that is run without having been typed. By induction on the fuel, then, every node that does without the viewer is evaluated alike for any two viewers: through loops, aliases and scripts, its value or error, the environment, the hierarchy and the output are the same whether the viewer is connected, fails or is not there.
-/

namespace TwinShell

namespace Command

variable {β ν μ : Type}

/-! ### Places, variables and settings -/

theorem agrees_changeDir [Hierarchy β] (target : String) : Agrees β ν μ (changeDir target) (changeDir target) := by
  unfold changeDir
  extract_lets rest rest'
  have hrest : ∀ target, Agrees β ν μ (rest target) (rest' target) := by
    intro target
    apply (agrees_requirePath target).bind
    intro _
    exact Agrees.bind (agrees_modifyEnv fun _ => rfl) fun _ => .pure _
  refine .ite (fun _ => agrees_getEnv.bind fun env => ?_) fun _ => hrest target
  match env.selection with
  | [] => exact Agrees.bind (.fail _) hrest
  | [only] => exact hrest only
  | _ :: _ :: _ => exact Agrees.bind (.fail _) hrest

theorem agrees_select [Hierarchy β] (targets : List String) : Agrees β ν μ (select targets) (select targets) := by
  apply (Agrees.forM agrees_requirePath targets).bind
  intro _
  extract_lets rest rest'
  have hrest : ∀ r, Agrees β ν μ (rest r) (rest' r) := by
    intro _
    refine Agrees.bind (agrees_modifyEnv fun _ => rfl) fun _ => ?_
    exact (agrees_emit _).bind fun _ => .pure _
  match targets with
  | [] => exact hrest ()
  | [only] => exact Agrees.bind (agrees_modifyEnv fun _ => rfl) hrest
  | _ :: _ :: _ => exact hrest ()

theorem agrees_printSelection : Agrees β ν μ printSelection printSelection :=
  agrees_getEnv.bind fun _ => (agrees_emitAll _).bind fun _ => .pure _

theorem agrees_setVariable (name : String) (value : Value) :
    Agrees β ν μ (modifyEnv (·.setVariable name value)) (modifyEnv (·.setVariable name value)) :=
  agrees_modifyEnv fun _ => rfl

theorem agrees_unsetVariable (name : String) :
    Agrees β ν μ (unsetVariable name) (unsetVariable name) := by
  apply agrees_getEnv.bind
  intro env
  refine .ite (fun _ => ?_) fun _ => .fail _
  exact Agrees.bind (agrees_modifyEnv fun _ => rfl) fun _ => .pure _

/-- An alias for a node that does without the viewer can be called later. -/
theorem agrees_defineAlias {body : Node} (h : body.Offline) (name : String) :
    Agrees β ν μ (modifyEnv fun env => { env with aliases := env.aliases.insert name body })
      (modifyEnv fun env => { env with aliases := env.aliases.insert name body }) := by
  intro s viewer hs
  refine .ok ⟨fun other found hfound => ?_, hs.scripts⟩
  rw [Dict.get?_insert] at hfound
  split at hfound
  · cases hfound
    exact h
  · exact hs.aliases other found hfound

theorem agrees_unsetAlias (name : String) : Agrees β ν μ (unsetAlias name) (unsetAlias name) := by
  apply agrees_getEnv.bind
  intro env
  refine .ite (fun _ => Agrees.bind ?_ fun _ => .pure _) fun _ => .fail _
  intro s viewer hs
  refine .ok ⟨fun other found hfound => ?_, hs.scripts⟩
  rw [Dict.get?_erase] at hfound
  split at hfound
  · cases hfound
  · exact hs.aliases other found hfound

theorem agrees_showLength (name : String) : Agrees β ν μ (showLength name) (showLength name) := by
  apply (agrees_lookUp name).bind
  intro value
  cases value.length? with
  | some n => exact (agrees_emit _).bind fun _ => .pure _
  | none => exact .fail _

theorem agrees_showSettings : Agrees β ν μ showSettings showSettings := by
  apply agrees_getEnv.bind
  intro env
  exact (agrees_emitAll _).bind fun _ => (agrees_emitAll _).bind fun _ => .pure _

theorem agrees_manual (topic : Option String) : Agrees β ν μ (manual topic) (manual topic) := by
  unfold manual
  extract_lets rest rest'
  have hrest : ∀ r, Agrees β ν μ (rest r) (rest' r) := fun _ => .pure _
  cases topic with
  | none => exact (agrees_emit _).bind hrest
  | some topic =>
    dsimp only
    cases Manual.page? topic with
    | some page => exact (agrees_emit page).bind hrest
    | none => exact Agrees.bind (.fail _) hrest

section Arguments

variable {ev : Node → Command β ν Value} {ev' : Node → Command β μ Value}
  (hev : ∀ node, node.Offline → Agrees β ν μ (ev node) (ev' node)) {node : Node} {nodes : List Node}
include hev

theorem agrees_assign (h : node.Offline) (name : String) :
    Agrees β ν μ (assign ev name node) (assign ev' name node) := by
  apply (hev node h).bind
  intro value
  refine .ite (fun _ => ?_) fun _ => .fail _
  exact (agrees_setVariable name value).bind fun _ => .pure _

theorem agrees_setSetting (h : node.Offline) (name : String) :
    Agrees β ν μ (setSetting ev name node) (setSetting ev' name node) := by
  apply (hev node h).bind
  intro value
  apply agrees_getEnv.bind
  intro env
  apply (Agrees.settle _).bind
  intro settings
  exact Agrees.bind (agrees_modifyEnv fun _ => rfl) fun _ => .pure _

theorem agrees_callAlias (name : String) : Agrees β ν μ (callAlias ev name) (callAlias ev' name) := by
  refine agrees_getEnv_bind fun env haliases => ?_
  cases h : env.aliases.get? name with
  | some body => exact hev body (haliases name body h)
  | none => exact .fail _

/-! ### Control flow -/

theorem agrees_sequence (h : ∀ node ∈ nodes, node.Offline) (last : Value) :
    Agrees β ν μ (sequence ev last nodes) (sequence ev' last nodes) := by
  induction nodes generalizing last with
  | nil => exact .pure _
  | cons node rest ih =>
    obtain ⟨hnode, hrest⟩ := List.forall_mem_cons.1 h
    apply (hev node hnode).bind
    intro value
    exact agrees_exiting.bind fun _ => .ite (fun _ => .pure _) fun _ => ih hrest value

theorem agrees_conditional {condition body : Node} {otherwise : Option Node}
    (hcondition : condition.Offline) (hbody : body.Offline)
    (hotherwise : ∀ node ∈ otherwise.toList, node.Offline) :
    Agrees β ν μ (conditional ev condition body otherwise) (conditional ev' condition body otherwise) := by
  apply (agrees_evalBool hev hcondition _).bind
  intro holds
  refine .ite (fun _ => hev body hbody) fun _ => ?_
  cases otherwise with
  | some otherwise => exact hev otherwise (hotherwise otherwise List.mem_cons_self)
  | none => exact .pure _

theorem agrees_loop {condition body : Node} {after : Option Node} (hcondition : condition.Offline)
    (hbody : body.Offline) (hafter : ∀ node ∈ after.toList, node.Offline) (fuel : Nat) :
    Agrees β ν μ (loop ev condition body after fuel) (loop ev' condition body after fuel) := by
  induction fuel with
  | zero => exact .throw _
  | succ fuel ih =>
    apply (agrees_evalBool hev hcondition _).bind
    intro holds
    refine .ite (fun _ => (hev body hbody).bind fun _ => agrees_exiting.bind fun _ => ?_) fun _ => .pure _
    refine .ite (fun _ => .pure _) fun _ => ?_
    cases after with
    | some after => exact (hev after (hafter after List.mem_cons_self)).bind fun _ => ih
    | none => exact ih

theorem agrees_countUp {body : Node} (h : body.Offline) (name : String) (count : Nat) (first : Int) :
    Agrees β ν μ (countUp ev name body count first) (countUp ev' name body count first) := by
  induction count generalizing first with
  | zero => exact .pure _
  | succ count ih =>
    apply (agrees_setVariable name _).bind
    intro _
    apply (hev body h).bind
    intro _
    exact agrees_exiting.bind fun _ => .ite (fun _ => .pure _) fun _ => ih _

theorem agrees_forRange {first last body : Node} (hfirst : first.Offline) (hlast : last.Offline)
    (hbody : body.Offline) (name : String) :
    Agrees β ν μ (forRange ev name first last body) (forRange ev' name first last body) := by
  apply (agrees_evalInt hev hfirst _).bind
  intro first
  apply (agrees_evalInt hev hlast _).bind
  intro last
  exact .ite (fun _ => .fail _) fun _ => agrees_countUp hev hbody name _ _

theorem agrees_forItems {body : Node} (h : body.Offline) (name : String) (items : List Value) :
    Agrees β ν μ (forItems ev name body items) (forItems ev' name body items) := by
  induction items with
  | nil => exact .pure _
  | cons value rest ih =>
    apply (agrees_setVariable name value).bind
    intro _
    apply (hev body h).bind
    intro _
    exact agrees_exiting.bind fun _ => .ite (fun _ => .pure _) fun _ => ih

theorem agrees_forEach {array body : Node} (harray : array.Offline) (hbody : body.Offline)
    (name : String) : Agrees β ν μ (forEach ev name array body) (forEach ev' name array body) := by
  apply (hev array harray).bind
  intro value
  cases value with
  | vector xs => exact agrees_forItems hev hbody name _
  | list items => exact agrees_forItems hev hbody name items
  | _ => exact .fail _

/-! ### Scripts -/

theorem agrees_runStatement {statement : Statement Node} (h : statement.content.Offline)
    (file : String) : Agrees β ν μ (runStatement ev file statement) (runStatement ev' file statement) := by
  intro s viewer hs
  have hrun := hev statement.content h s viewer hs
  simp only [runStatement]
  generalize ev statement.content s = r, ev' statement.content (s.withViewer viewer) = r' at hrun
  cases hrun with
  | ok hs => exact .ok hs
  | @error stop s' viewer' hs =>
    cases stop with
    | failed e => exact .ok hs
    | broken cause => exact .error hs
    | exhausted => exact .error hs

theorem agrees_runStatements {statements : List (Statement Node)}
    (h : ∀ statement ∈ statements, statement.content.Offline) (file : String) :
    Agrees β ν μ (runStatements ev file statements) (runStatements ev' file statements) := by
  induction statements with
  | nil => exact .pure _
  | cons statement rest ih =>
    obtain ⟨hstatement, hrest⟩ := List.forall_mem_cons.1 h
    apply (agrees_runStatement hev hstatement file).bind
    intro failures
    refine Agrees.get fun s viewer => ?_
    exact .ite (fun _ => .pure _) fun _ => (ih hrest).bind fun _ => .pure _

theorem agrees_runText {text : String}
    (h : ∀ statement ∈ (Script.read text).statements, statement.content.Offline) (file : String) :
    Agrees β ν μ (runText ev file text) (runText ev' file text) := by
  refine .ite (fun _ => .fail _) fun _ => (agrees_runStatements hev h file).bind fun failures => ?_
  exact .ite (fun _ => .fail _) fun _ => .pure _

theorem agrees_runFile (path : String) : Agrees β ν μ (runFile ev path) (runFile ev' path) :=
  agrees_readFile_bind path fun _ hstatements => agrees_runText hev hstatements _

omit hev in
theorem agrees_nested {α : Type} {x : Command β ν α} {y : Command β μ α} (h : Agrees β ν μ x y) :
    Agrees β ν μ (nested x) (nested y) := by
  intro s viewer hs
  have hrun := h { s with scriptDepth := s.scriptDepth + 1 } viewer ⟨hs.aliases, hs.scripts⟩
  have hback : ∀ {s : Session β ν} (depth : Nat), s.Offline →
      Session.Offline { s with scriptDepth := depth } := fun _ hs => ⟨hs.aliases, hs.scripts⟩
  simp only [nested, Session.withViewer] at hrun ⊢
  generalize x _ = r, y _ = r' at hrun
  cases hrun with
  | ok hs => exact .ok (hback _ hs)
  | error hs => exact .error (hback _ hs)

theorem agrees_runScript (h : node.Offline) : Agrees β ν μ (runScript ev node) (runScript ev' node) := by
  apply (agrees_evalText hev h).bind
  intro file
  refine Agrees.get fun s viewer => .ite (fun _ => .fail _) fun _ => ?_
  exact (agrees_nested (agrees_runFile hev file)).bind fun _ => .pure _

theorem agrees_checkScript (h : node.Offline) :
    Agrees β ν μ (checkScript ev node) (checkScript ev' node) := by
  apply (agrees_evalText hev h).bind
  intro file
  refine agrees_readFile_bind file fun text _ => ?_
  extract_lets errors
  clear_value errors
  apply (agrees_emit _).bind
  intro _
  apply (agrees_emit _).bind
  intro _
  exact (agrees_emitAll _).bind fun _ => .pure _

end Arguments

/-! ### Evaluation -/

variable [Hierarchy β] [Viewer ν] [Viewer μ]

theorem agrees_step {ev : Node → Command β ν Value} {ev' : Node → Command β μ Value}
    (hev : ∀ node, node.Offline → Agrees β ν μ (ev node) (ev' node)) (fuel : Nat) {node : Node}
    (h : node.Offline) : Agrees β ν μ (step ev fuel node) (step ev' fuel node) := by
  obtain ⟨halone, hparts⟩ := h
  -- One case for each sort of node, by the lemma of its command; `hparts` is about its arguments.
  cases node with
    simp only [Node.parts, List.forall_mem_cons] at hparts
  | draw | undraw | ui | camera | focus | connect | disconnect | showPeers => cases halone
  | nop | literal => exact .pure _
  | symbol name => exact agrees_lookUp name
  | element name index =>
    exact (agrees_lookUp name).bind fun _ => (agrees_evalInt hev hparts.1 _).bind fun _ => .settle _
  | array items => exact (agrees_evalAll hev hparts).bind fun _ => .pure _
  | interpolation template args => exact (agrees_evalAll hev hparts).bind fun _ => agrees_filled _ _
  | formatted template args =>
    apply (agrees_evalText hev hparts.1).bind
    intro template
    exact (agrees_evalAll hev hparts.2).bind fun _ => agrees_filled _ _
  | path raw =>
    have hpath : (Node.path raw).Offline := ⟨halone, List.forall_mem_cons.2 hparts⟩
    exact (agrees_evalPath hev hpath).bind fun _ => .pure _
  | binary op left right =>
    exact (hev left hparts.1).bind fun _ => (hev right hparts.2.1).bind fun _ => .settle _
  | negate operand => exact (hev operand hparts.1).bind fun _ => .settle _
  | not operand =>
    apply (hev operand hparts.1).bind
    intro value
    cases value.bool? with
    | some b => exact .pure _
    | none => exact .fail _
  | assign name value => exact agrees_assign hev hparts.1 name
  | defineAlias name body => exact (agrees_defineAlias hparts.1 name).bind fun _ => .pure _
  | callAlias name => exact agrees_callAlias hev name
  | unsetVariable name => exact agrees_unsetVariable name
  | unsetAlias name => exact agrees_unsetAlias name
  | unsetAttribute path key index => exact agrees_unsetAttribute hev hparts.1 hparts.2 key
  | length name => exact agrees_showLength name
  | print value => exact (hev value hparts.1).bind fun _ => (agrees_emit _).bind fun _ => .pure _
  | showSettings => exact agrees_showSettings
  | setSetting name value => exact agrees_setSetting hev hparts.1 name
  | sequence statements => exact agrees_sequence hev hparts .null
  | conditional condition body otherwise =>
    exact agrees_conditional hev hparts.1 hparts.2.1 hparts.2.2
  | whileLoop condition body =>
    have hafter : ∀ node ∈ (none : Option Node).toList, node.Offline := List.forall_mem_nil _
    exact agrees_loop hev hparts.1 hparts.2.1 hafter fuel
  | forLoop init condition after body =>
    obtain ⟨hinit, hcondition, hafter, hbody, -⟩ := hparts
    replace hafter : ∀ node ∈ (some after).toList, node.Offline := List.forall_mem_singleton.2 hafter
    exact (hev init hinit).bind fun _ => agrees_loop hev hcondition hbody hafter fuel
  | forRange name first last body => exact agrees_forRange hev hparts.1 hparts.2.1 hparts.2.2.1 name
  | forEach name array body => exact agrees_forEach hev hparts.1 hparts.2.1 name
  | changeDir path => exact (agrees_evalPath hev hparts.1).bind agrees_changeDir
  | printDir => exact agrees_getEnv.bind fun _ => (agrees_emit _).bind fun _ => .pure _
  | list listing => exact agrees_list hev hparts
  | tree path depth => exact agrees_tree hev hparts.1 hparts.2
  | get path => exact agrees_get hev hparts.1
  | getUnit path unit => exact agrees_getUnit hev hparts.1 hparts.2.1
  | getSlot path slot => exact agrees_getSlot hev hparts.1 hparts.2.1
  | select path => exact (agrees_evalTargets hev hparts.1).bind agrees_select
  | selectMany paths => exact (agrees_evalPaths hev hparts).bind agrees_select
  | clearSelection =>
    refine Agrees.bind (agrees_modifyEnv fun _ => rfl) fun _ => ?_
    exact (agrees_emit _).bind fun _ => .pure _
  | printSelection => exact agrees_printSelection
  | create creation => exact agrees_create hev hparts
  | update path key values sharp =>
    have hkey : key ∉ Node.shownKeys := by simpa [Node.needsViewer] using halone
    exact agrees_update hev hparts.1 hkey hparts.2 sharp
  | delete path => exact agrees_delete hev hparts.1
  | deleteSelection => exact agrees_deleteSelection
  | link source dest slot => exact agrees_link hev hparts.1 hparts.2.1 hparts.2.2
  | unlink source dest => exact agrees_unlink hev hparts.1 hparts.2
  | copy source dest => exact agrees_copy hev hparts.1 hparts.2.1
  | drawable path key => exact agrees_drawable hev hparts.1 key
  | runScript file => exact agrees_runScript hev hparts.1
  | checkScript file => exact agrees_checkScript hev hparts.1
  | loadTemplate file => exact agrees_loadTemplate hev hparts.1
  | manual topic => exact agrees_manual topic
  | clearScreen => exact (agrees_emit _).bind fun _ => .pure _
  | exit => exact Agrees.bind (fun _ _ hs => .ok ⟨hs.aliases, hs.scripts⟩) fun _ => .pure _

theorem agrees_execute (fuel : Nat) {node : Node} (h : node.Offline) :
    Agrees β ν μ (execute fuel node) (execute fuel node) := by
  induction fuel generalizing node with
  | zero => exact .throw _
  | succ fuel ih => exact agrees_step (fun _ hnode => ih hnode) fuel h

end Command

theorem Files.exists_of_read {files : Files} {path text : String} (h : files.read path = .ok text) :
    ∃ key, files.contents.get? key = some (some text) := by
  unfold read at h
  split at h
  · cases h
  split at h
  · cases h
  split at h
  · cases h
  cases hplace : files.follow (origin path) (components path) with
  | error e =>
    rw [hplace] at h
    cases h
  | ok place =>
    rw [hplace] at h
    simp only [Bind.bind, Except.bind] at h
    split at h
    · rename_i found hfound
      cases h
      exact ⟨place.path, hfound⟩
    · cases h
    · cases h

namespace Session

variable {β ν μ : Type} [Hierarchy β] [Viewer ν] [Viewer μ]

/-- A node that does without the viewer has the same value or error whatever the viewer is, and leaves sessions that again differ in nothing but the viewer. -/
theorem eval_withViewer {node : Node} (hnode : node.Offline) {s : Session β ν} (hs : s.Offline)
    (viewer : μ) :
    (∃ value s' viewer', s'.Offline ∧ eval node s = .ok value s' ∧
      eval node (s.withViewer viewer) = .ok value (s'.withViewer viewer')) ∨
    ∃ stop s' viewer', s'.Offline ∧ eval node s = .error stop s' ∧
      eval node (s.withViewer viewer) = .error stop (s'.withViewer viewer') := by
  have halike := Command.agrees_execute defaultFuel hnode s viewer hs
  rw [eval, eval]
  generalize Command.execute defaultFuel node s = r,
    Command.execute defaultFuel node (s.withViewer viewer) = r' at halike
  cases halike with
  | ok hs => exact .inl ⟨_, _, _, hs, rfl, rfl⟩
  | error hs => exact .inr ⟨_, _, _, hs, rfl, rfl⟩

/-- A site is created, and a script with an alias runs, once with a viewer that is told and once with one that is not connected. -/
theorem eval_without_connection :
    ∃ (node : Node) (s : Session Store Recorder), node.Offline ∧ s.Offline ∧
      node = .sequence [.create (.site (.literalPath "/P/a")), .runScript (.text "f")] ∧
      s.viewer.connected = true ∧ s.files.read "f" = .ok "here" ∧
      s.env.aliases.get? "here" = some .printDir ∧
      ((∃ value s' viewer', s'.Offline ∧ eval node s = .ok value s' ∧
        eval node (s.withViewer ({} : Recorder)) = .ok value (s'.withViewer viewer')) ∨
      ∃ stop s' viewer', s'.Offline ∧ eval node s = .error stop s' ∧
        eval node (s.withViewer ({} : Recorder)) = .error stop (s'.withViewer viewer')) := by
  have hnode : (Node.sequence
      [.create (.site (.literalPath "/P/a")), .runScript (.text "f")]).Offline := by
    have htext : ∀ text, (Node.text text).Offline := fun _ => ⟨rfl, nofun⟩
    have hpath : (Node.literalPath "/P/a").Offline := ⟨rfl, List.forall_mem_singleton.2 (htext _)⟩
    refine ⟨rfl, List.forall_mem_cons.2 ⟨⟨rfl, ?_⟩, List.forall_mem_singleton.2 ⟨rfl, ?_⟩⟩⟩
    · exact List.forall_mem_singleton.2 hpath
    · exact List.forall_mem_singleton.2 (htext _)
  have hdir : Node.printDir.Offline := ⟨rfl, nofun⟩
  let s : Session Store Recorder := {
    env := { aliases := Dict.empty.insert "here" .printDir }
    hierarchy := .empty
    viewer := { connected := true }
    files := ⟨Dict.empty.insert "f" (some "here")⟩ }
  have hs : s.Offline := by
    constructor
    · intro name body hbody
      rw [Dict.get?_insert] at hbody
      split at hbody
      · cases hbody
        exact hdir
      · cases hbody
    · intro path text htext statement hstatement
      obtain ⟨key, hkey⟩ := Files.exists_of_read htext
      rw [Dict.get?_insert] at hkey
      split at hkey
      · cases hkey
        have hread : (Script.read "here").statements = [⟨1, "here", .callAlias "here"⟩] := by rfl
        rw [hread] at hstatement
        cases List.mem_singleton.1 hstatement
        exact ⟨rfl, nofun⟩
      · cases hkey
  have hfile : s.files.read "f" = .ok "here" := by rfl
  have halias : s.env.aliases.get? "here" = some .printDir := rfl
  have hmain := eval_withViewer hnode hs ({} : Recorder)
  exact ⟨_, s, hnode, hs, rfl, rfl, hfile, halias, hmain⟩

end Session

end TwinShell
