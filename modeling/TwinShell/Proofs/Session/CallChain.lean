import TwinShell.Hierarchy.Store
import TwinShell.Proofs.Session.Composed
import TwinShell.Proofs.Session.Grouping

/-!
# The call chain of a failure

A script reports each failure with the places that led to it, from the script that was run to the statement that failed. A statement can run another script anywhere: in a loop, an alias, a sequence or a value. What such a script reports is an error like any other on its way out, no command adds to it or takes it for its own, and the statement at whose end it arrives puts its own place in front. So the places form a chain, each one a statement of a script that was run one deeper than the script before, and the bound on the depth bounds its length. The induction is on the fuel, for all depths at once: a script is run at the depth after that of the node that asks for it.
-/

namespace TwinShell

/-! ### Places -/

/-- A place that a script can report for itself: its file name, with the number and text of one of its statements. -/
def Files.HasPlace (files : Files) (path : String) (place : ScriptPlace) : Prop :=
  ∃ text statement, files.read path = .ok text ∧ statement ∈ (Script.read text).statements ∧
    place = ⟨Files.fileName path, statement.line, statement.text⟩

/-- The places that lead to a failure of a script that runs at a given depth: the place of a statement, and if the statement ran another script, the places that lead to the failure of that one. -/
inductive CallChain (files : Files) : Nat → String → List ScriptPlace → Prop
  | last {depth : Nat} {path : String} {place : ScriptPlace} (hplace : files.HasPlace path place) :
    CallChain files depth path [place]
  | into {depth : Nat} {path inner : String} {place : ScriptPlace} {places : List ScriptPlace}
    (hplace : files.HasPlace path place) (hdepth : depth < Script.maxDepth)
    (hinner : CallChain files (depth + 1) inner places) : CallChain files depth path (place :: places)

/-- The statements of a script are in the order of their lines. -/
theorem Script.pairwise_line_read (text : String) :
    ((Script.read text).statements.map (·.line)).Pairwise (· < ·) := by
  simp only [Script.read_eq_readingOf, Script.readingOf]
  exact Script.pairwise_line_of_headings Script.line_of_statementOf? (Script.pairwise_headings text)

namespace CallChain

variable {files : Files} {depth : Nat} {path : String} {places : List ScriptPlace}

theorem length_le (h : CallChain files depth path places) (hdepth : depth ≤ Script.maxDepth) :
    places.length ≤ Script.maxDepth + 1 - depth := by
  induction h with
  | last hplace => simp; omega
  | into hplace hlt _ ih =>
    have hrest := ih hlt
    simp only [List.length_cons]
    omega

theorem head (h : CallChain files depth path places) :
    ∃ place, places.head? = some place ∧ files.HasPlace path place := by
  cases h with
  | last hplace => exact ⟨_, rfl, hplace⟩
  | into hplace _ _ => exact ⟨_, rfl, hplace⟩

end CallChain

def Failure.line (f : Failure) : Nat := (f.places.head?.map (·.line)).getD 0

/-- What a script at a given depth reports: failures with their call chains, in the order of its lines. -/
structure Reported (files : Files) (depth : Nat) (path : String) (failures : List Failure) : Prop where
  chain : ∀ f ∈ failures, CallChain files depth path f.places
  ordered : (failures.map Failure.line).Pairwise (· ≤ ·)

/-- The session has these files and runs scripts at this depth. -/
def Session.At {β ν : Type} (files : Files) (depth : Nat) (s : Session β ν) : Prop :=
  s.files = files ∧ s.scriptDepth = depth

/-- If the stop is the report of a script, it is one of a script that was run one deeper. -/
def Stop.FromInner (files : Files) (depth : Nat) (stop : Stop) : Prop :=
  ∀ failures, stop = .failed (.script (.failed failures)) →
    depth < Script.maxDepth ∧ ∃ inner, Reported files (depth + 1) inner failures

/-- If the stop is the report of a script, it is the report of this one. -/
def Stop.FromFile (files : Files) (depth : Nat) (path : String) (stop : Stop) : Prop :=
  ∀ failures, stop = .failed (.script (.failed failures)) → Reported files depth path failures

/-- A stop that no statement records: it ends the script. -/
def Stop.IsFinal (stop : Stop) : Prop := ∀ e, stop ≠ .failed e

theorem Stop.FromInner.of_isOwn {files : Files} {depth : Nat} {stop : Stop} (h : stop.isOwn) :
    stop.FromInner files depth := by
  rintro failures rfl
  cases h

namespace Command

open Session (At)

variable {β ν α : Type} {ev : Node → Command β ν Value} {files : Files} {depth : Nat} {path text : String}

/-! ### Statements -/

/-- What the failures of a statement are, given the error it ends with. -/
theorem mem_failuresOf {place : ScriptPlace} {e : EvalError} (hplace : files.HasPlace path place)
    (he : (Stop.failed e).FromInner files depth) {f : Failure} (hf : f ∈ failuresOf place e) :
    CallChain files depth path f.places ∧ f.line = place.line := by
  unfold failuresOf at hf
  split at hf
  · cases hf
  · obtain ⟨g, hg, rfl⟩ := List.mem_map.1 hf
    obtain ⟨hlt, file, hreported⟩ := he _ rfl
    exact ⟨.into hplace hlt (hreported.chain g hg), rfl⟩
  · cases List.mem_singleton.1 hf
    exact ⟨.last hplace, rfl⟩

section Statements

variable (hev : ∀ node, Ends (At files depth) (ev node) (fun _ => True) (Stop.FromInner files depth))
  (hread : files.read path = .ok text)
include hev hread

theorem ends_runStatement {statement : Statement Node} (hmem : statement ∈ (Script.read text).statements) :
    Ends (At files depth) (runStatement ev (Files.fileName path) statement)
      (fun failures => ∀ f ∈ failures, CallChain files depth path f.places ∧ f.line = statement.line)
      Stop.IsFinal := by
  intro s hs
  have hpost := hev statement.content s hs
  simp only [runStatement]
  cases h : ev statement.content s with
  | ok value s' =>
    rw [h] at hpost
    exact ⟨hpost.1, by simp⟩
  | error stop s' =>
    rw [h] at hpost
    cases stop with
    | failed e => exact ⟨hpost.1, fun f hf => mem_failuresOf ⟨text, statement, hread, hmem, rfl⟩ hpost.2 hf⟩
    | broken cause => exact ⟨hpost.1, fun _ => Stop.noConfusion⟩
    | exhausted => exact ⟨hpost.1, fun _ => Stop.noConfusion⟩

theorem ends_runStatements {statements : List (Statement Node)}
    (hsub : ∀ statement ∈ statements, statement ∈ (Script.read text).statements)
    (hlines : (statements.map (·.line)).Pairwise (· < ·)) :
    Ends (At files depth) (runStatements ev (Files.fileName path) statements)
      (fun failures => Reported files depth path failures ∧
        ∀ f ∈ failures, ∃ statement ∈ statements, f.line = statement.line)
      Stop.IsFinal := by
  induction statements with
  | nil => exact .pure ⟨⟨nofun, .nil⟩, nofun⟩
  | cons statement rest ih =>
    rw [List.forall_mem_cons] at hsub
    rw [List.map_cons, List.pairwise_cons] at hlines
    apply (ends_runStatement hev hread hsub.1).bind
    intro failures hfailures
    have hsame : (failures.map Failure.line).Pairwise (· ≤ ·) := by
      rw [List.pairwise_map]
      refine List.pairwise_of_forall_mem_list fun f hf g hg => ?_
      rw [(hfailures f hf).2, (hfailures g hg).2]
    have hfirst : ∀ f ∈ failures, ∃ other ∈ statement :: rest, f.line = other.line := fun f hf =>
      ⟨statement, List.mem_cons_self, (hfailures f hf).2⟩
    apply Ends.get.bind
    intro s _
    split
    · exact .pure ⟨⟨fun f hf => (hfailures f hf).1, hsame⟩, hfirst⟩
    · apply (ih hsub.2 hlines.2).bind
      intro more hmore
      -- What fails later stands on a later line.
      have hlater : ∀ f ∈ failures, ∀ g ∈ more, f.line ≤ g.line := by
        intro f hf g hg
        obtain ⟨other, hother, hline⟩ := hmore.2 g hg
        rw [(hfailures f hf).2, hline]
        exact (hlines.1 other.line (List.mem_map_of_mem hother)).le
      refine .pure ⟨⟨?_, ?_⟩, ?_⟩
      · intro f hf
        exact (List.mem_append.1 hf).elim (fun hf => (hfailures f hf).1) (hmore.1.chain f)
      · rw [List.map_append, List.pairwise_append]
        refine ⟨hsame, hmore.1.ordered, ?_⟩
        simpa using hlater
      · intro f hf
        rcases List.mem_append.1 hf with hf | hf
        · exact hfirst f hf
        · obtain ⟨other, hother, hline⟩ := hmore.2 f hf
          exact ⟨other, List.mem_cons_of_mem _ hother, hline⟩

end Statements

/-! ### Scripts -/

theorem ends_readFile : Ends (At files depth) (readFile path : Command β ν String)
    (fun text => files.read path = .ok text) fun stop => stop.isOwn := by
  rintro s ⟨rfl, hdepth⟩
  simp only [readFile]
  cases h : s.files.read path with
  | ok text => exact ⟨⟨rfl, hdepth⟩, rfl⟩
  | error e => exact ⟨⟨rfl, hdepth⟩, rfl⟩

theorem ends_runFile
    (hev : ∀ node, Ends (At files depth) (ev node) (fun _ => True) (Stop.FromInner files depth))
    (path : String) :
    Ends (At files depth) (runFile ev path) (fun _ => True) (Stop.FromFile files depth path) := by
  have hown : ∀ stop : Stop, stop.isOwn → stop.FromFile files depth path := by
    rintro stop hstop failures rfl
    cases hstop
  have hfinal : ∀ stop : Stop, stop.IsFinal → stop.FromFile files depth path :=
    fun stop hstop failures h => absurd h (hstop _)
  apply (ends_readFile.imp (fun _ => id) hown).bind
  intro text hread
  have hall := ends_runStatements hev hread (fun _ => id) (Script.pairwise_line_read text)
  have hstatements : Ends (At files depth)
      (runStatements ev (Files.fileName path) (Script.read text).statements)
      (Reported files depth path) (Stop.FromFile files depth path) := hall.imp (fun _ h => h.1) hfinal
  unfold runText
  dsimp only
  split
  · exact .fail nofun
  · refine hstatements.bind fun failures hfailures => ?_
    split
    · refine .fail ?_
      rintro _ ⟨⟩
      exact hfailures
    · exact .pure trivial

theorem ends_nested {Q : α → Prop} {E : Stop → Prop} {c : Command β ν α}
    (h : Ends (At files (depth + 1)) c Q E) : Ends (At files depth) (nested c) Q E := by
  rintro s ⟨hfiles, hdepth⟩
  have hpost := h { s with scriptDepth := s.scriptDepth + 1 } ⟨hfiles, by rw [← hdepth]⟩
  have hback {s' : Session β ν} (hs' : At files (depth + 1) s') :
      At files depth { s' with scriptDepth := s'.scriptDepth - 1 } := by
    obtain ⟨hfiles', hdepth'⟩ := hs'
    exact ⟨hfiles', by simp [hdepth']⟩
  simp only [nested]
  cases hresult : c { s with scriptDepth := s.scriptDepth + 1 } with
  | ok a s' =>
    rw [hresult] at hpost
    exact ⟨hback hpost.1, hpost.2⟩
  | error stop s' =>
    rw [hresult] at hpost
    exact ⟨hback hpost.1, hpost.2⟩

theorem at_of_leads {s s' : Session β ν} (h : s.Leads s') (hs : At files depth s) : At files depth s' :=
  ⟨h.files.trans hs.1, h.scriptDepth.trans hs.2⟩

/-- A script is only run where it is not too deep, and what it reports is then the error of the node. -/
theorem ends_runScript
    (hev : ∀ depth node, Ends (At files depth) (ev node) (fun _ => True) (Stop.FromInner files depth))
    (file : Node) :
    Ends (At files depth) (runScript ev file) (fun _ => True) (Stop.FromInner files depth) := by
  have hfile := (composed_evalText file).ends (fun _ _ => at_of_leads) (fun _ => .of_isOwn) (hev depth)
  apply hfile.bind
  intro file _
  apply Ends.get.bind
  intro s hs
  split
  · exact .fail nofun
  · rename_i hshallow
    have hlt : depth < Script.maxDepth := by
      rw [← hs.2]
      exact Nat.lt_of_not_le hshallow
    have hinner : ∀ stop : Stop, stop.FromFile files (depth + 1) file → stop.FromInner files depth :=
      fun stop hstop failures h => ⟨hlt, file, hstop failures h⟩
    apply (ends_nested ((ends_runFile (hev (depth + 1)) file).imp (fun _ => id) hinner)).bind
    exact fun _ _ => .pure trivial

theorem ends_execute [Hierarchy β] [Viewer ν] (fuel depth : Nat) (node : Node) :
    Ends (At files depth) (execute fuel node : Command β ν Value) (fun _ => True)
      (Stop.FromInner files depth) := by
  induction fuel generalizing depth node with
  | zero => exact fun s hs => ⟨hs, .of_isOwn rfl⟩
  | succ fuel ih =>
    by_cases hscript : ∃ file, node = .runScript file
    · obtain ⟨file, rfl⟩ := hscript
      exact ends_runScript ih file
    · have hnode : ∀ file, node ≠ .runScript file := fun file hfile => hscript ⟨file, hfile⟩
      exact (composed_step fuel hnode).ends (fun _ _ => at_of_leads) (fun _ => .of_isOwn) (ih depth)

end Command

namespace Session

variable {β ν : Type} [Hierarchy β] [Viewer ν]

/-- Running a file leaves the depth of scripts as it was. If it ends with the report of failed statements, each failure has a call chain that starts with a statement of that file and is no longer than the depth allows, and the failures are in the order of their first lines. -/
theorem runFile_callChain (path : String) {s : Session β ν} (hdepth : s.scriptDepth ≤ Script.maxDepth) :
    (∀ s', runFile path s = .ok () s' → s'.scriptDepth = s.scriptDepth) ∧
    (∀ e s', runFile path s = .error e s' → s'.scriptDepth = s.scriptDepth) ∧
    ∀ failures s', runFile path s = .error (.failed (.script (.failed failures))) s' →
      (∀ f ∈ failures, CallChain s.files s.scriptDepth path f.places ∧
        1 ≤ f.places.length ∧ f.places.length ≤ Script.maxDepth + 1 - s.scriptDepth ∧
        ∃ place, f.places.head? = some place ∧ s.files.HasPlace path place) ∧
      (failures.map Failure.line).Pairwise (· ≤ ·) := by
  have hends : Command.Ends (At s.files s.scriptDepth) (Command.runFile eval path : Command β ν Unit)
      (fun _ => True) (Stop.FromFile s.files s.scriptDepth path) :=
    Command.ends_runFile (Command.ends_execute defaultFuel s.scriptDepth) path
  have hpost := hends s ⟨rfl, rfl⟩
  cases hresult : Command.runFile eval path s with
  | ok value s' =>
    rw [hresult] at hpost
    have hrun : runFile path s = .ok () s' := by simp only [runFile, hresult]
    refine ⟨fun t h => ?_, fun e t h => ?_, fun failures t h => ?_⟩
    · cases hrun.symm.trans h
      exact hpost.1.2
    · cases hrun.symm.trans h
    · cases hrun.symm.trans h
  | error stop s' =>
    rw [hresult] at hpost
    have hrun : runFile path s = .error (.ofStop stop) s' := by simp only [runFile, hresult]
    refine ⟨fun t h => ?_, fun e t h => ?_, fun failures t h => ?_⟩
    · cases hrun.symm.trans h
    · cases hrun.symm.trans h
      exact hpost.1.2
    · have hreport : stop = .failed (.script (.failed failures)) := by
        injection hrun.symm.trans h with hstop
        cases stop with
        | failed e =>
          cases hstop
          rfl
        | broken cause => cases hstop
        | exhausted => cases hstop
      have hreported := hpost.2 failures hreport
      refine ⟨fun f hf => ?_, hreported.ordered⟩
      have hchain := hreported.chain f hf
      obtain ⟨place, hplace, hfirst⟩ := hchain.head
      have hlength : 1 ≤ f.places.length :=
        List.length_pos_of_ne_nil fun hnil => by simp [hnil] at hplace
      exact ⟨hchain, hlength, hchain.length_le hdepth, place, hplace, hfirst⟩

/-- The script `f` runs the script `g`, whose second line fails. -/
theorem runFile_callChain_nested :
    ∃ (s s' : Session Store Recorder) (f : Failure), s.scriptDepth ≤ Script.maxDepth ∧
      s.files.read "f" = .ok ".cmds:g" ∧ s.files.read "g" = .ok "pwd\nget /P/a" ∧
      runFile "f" s = .error (.failed (.script (.failed [f]))) s' ∧
      f.places = [⟨"f", 1, ".cmds:g"⟩, ⟨"g", 2, "get /P/a"⟩] ∧
      CallChain s.files s.scriptDepth "f" f.places ∧ s'.scriptDepth = s.scriptDepth := by
  obtain ⟨s, hs⟩ : ∃ s : Session Store Recorder, s = {
    hierarchy := .empty
    viewer := {}
    files := ⟨(Dict.empty.insert "f" (some ".cmds:g")).insert "g" (some "pwd\nget /P/a")⟩ } := ⟨_, rfl⟩
  have hdepth : s.scriptDepth ≤ Script.maxDepth := by rw [hs]; exact Nat.zero_le _
  have hreport : (match runFile "f" s with
      | .error e _ => some e
      | .ok _ _ => none) = some (.failed (.script (.failed
        [⟨[⟨"f", 1, ".cmds:g"⟩, ⟨"g", 2, "get /P/a"⟩], "object /Physical/a not found"⟩]))) := by
    rw [hs]
    decide +kernel
  have hmain := runFile_callChain "f" hdepth
  cases hrun : runFile "f" s with
  | ok value s' =>
    rw [hrun] at hreport
    cases hreport
  | error e s' =>
    rw [hrun] at hreport
    cases hreport
    have hchain := ((hmain.2.2 _ _ hrun).1 _ List.mem_cons_self).1
    refine ⟨s, s', _, hdepth, ?_, ?_, hrun, rfl, hchain, hmain.2.1 _ _ hrun⟩
    · rw [hs]; rfl
    · rw [hs]; rfl

end Session

end TwinShell
