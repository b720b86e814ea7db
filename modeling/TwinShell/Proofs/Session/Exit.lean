import Mathlib.Logic.Relation
import TwinShell.Hierarchy.Store
import TwinShell.Proofs.Session.Composed

/-!
# After an exit

Once `exit` was run, the statement it belongs to ends, and with it every loop, sequence, alias and script around that statement: each of them looks whether it should go on after every statement it runs. The one exception is a loop with a start and a step. It does not look after these two, so that it evaluates its condition and, if that holds, runs its body once more before it ends.

An activity is a node or a script that is run from a session. `Activity.Runs` says which statements an activity runs, and from which sessions; it is stated with the functions that run what comes before.
-/

namespace TwinShell

def Session.setVariable {β ν : Type} (s : Session β ν) (name : String) (value : Value) : Session β ν :=
  { s with env := s.env.setVariable name value }

namespace Command

variable {β ν α γ : Type} {s t u : Session β ν}

/-- The session after a step, whether it succeeds or fails. -/
def after (c : Command β ν α) (s : Session β ν) : Session β ν :=
  match c s with
  | .ok _ s' => s'
  | .error _ s' => s'

theorem after_of_ok {c : Command β ν α} {a : α} (h : c s = .ok a t) : after c s = t := by
  simp only [after, h]

theorem after_of_error {c : Command β ν α} {stop : Stop} (h : c s = .error stop t) : after c s = t := by
  simp only [after, h]

theorem after_congr {c d : Command β ν α} (h : c s = d t) : after c s = after d t := by
  simp only [after, h]

theorem after_bind_of_ok {x : Command β ν α} {f : α → Command β ν γ} {a : α} (h : x s = .ok a t) :
    after (x >>= f) s = after (f a) t := after_congr (bind_of_ok h)

theorem after_bind_of_error {x : Command β ν α} {f : α → Command β ν γ} {stop : Stop}
    (h : x s = .error stop t) : after (x >>= f) s = t := after_of_error (bind_of_error h)

/-- A step that leaves every session as it is does not show behind another one. -/
theorem after_bind_of_still {x : Command β ν α} {f : α → Command β ν γ} (hf : ∀ a t, after (f a) t = t)
    (s : Session β ν) : after (x >>= f) s = after x s := by
  cases h : x s with
  | ok a t => rw [after_bind_of_ok h, after_of_ok h, hf]
  | error stop t => rw [after_bind_of_error h, after_of_error h]

/-! ### Looking for an exit -/

/-- Goes on after a statement unless the session is to exit. -/
def unlessExiting (statement : Command β ν α) (result : α → γ) (rest : α → Command β ν γ) :
    Command β ν γ := do
  let a ← statement
  if ← exiting then return result a else rest a

section Check

variable {statement : Command β ν α} {result : α → γ} {rest : α → Command β ν γ}

theorem unlessExiting_of_exiting {a : α} (h : statement s = .ok a t) (hexit : t.exitRequested) :
    unlessExiting statement result rest s = .ok (result a) t := by
  have hexiting : (exiting : Command β ν Bool) t = .ok true t := by rw [← hexit]; rfl
  rw [unlessExiting, bind_of_ok h, bind_of_ok hexiting]
  rfl

theorem after_unlessExiting (h : (after statement s).exitRequested) :
    after (unlessExiting statement result rest) s = after statement s := by
  cases hresult : statement s with
  | ok a t =>
    rw [after_of_ok hresult] at h ⊢
    exact after_of_ok (unlessExiting_of_exiting hresult h)
  | error stop t => rw [unlessExiting, after_bind_of_error hresult, after_of_error hresult]

theorem unlessExiting_of_ok {a : α} (h : statement s = .ok a t) (hexit : t.exitRequested = false) :
    unlessExiting statement result rest s = rest a t := by
  have hexiting : (exiting : Command β ν Bool) t = .ok false t := by rw [← hexit]; rfl
  rw [unlessExiting, bind_of_ok h, bind_of_ok hexiting]
  rfl

/-- If a statement and what follows it end without an exit, the statement did so too. -/
theorem eq_ok_of_unlessExiting {c : γ} (h : unlessExiting statement result rest s = .ok c t)
    (hexit : t.exitRequested = false) :
    ∃ a u, statement s = .ok a u ∧ u.exitRequested = false ∧ rest a u = .ok c t := by
  cases hresult : statement s with
  | ok a u =>
    have hexiting : (exiting : Command β ν Bool) u = .ok u.exitRequested u := rfl
    rw [unlessExiting, bind_of_ok hresult, bind_of_ok hexiting] at h
    cases hflag : u.exitRequested with
    | false =>
      rw [hflag] at h
      exact ⟨a, u, rfl, hflag, h⟩
    | true =>
      rw [hflag] at h
      cases h
      rw [hflag] at hexit
      cases hexit
  | error stop u =>
    rw [unlessExiting, bind_of_error hresult] at h
    cases h

end Check

/-! ### Statements one after the other -/

section Statements

variable {ev : Node → Command β ν Value} {node body : Node} {name : String}

theorem sequence_cons (last : Value) (node : Node) (rest : List Node) :
    sequence ev last (node :: rest) = unlessExiting (ev node) id fun value => sequence ev value rest := rfl

theorem forItems_cons (name : String) (body : Node) (item : Value) (rest : List Value) (s : Session β ν) :
    forItems ev name body (item :: rest) s = unlessExiting (ev body) (fun _ => Value.null)
      (fun _ => forItems ev name body rest) (s.setVariable name item) := rfl

theorem countUp_succ (name : String) (body : Node) (count : Nat) (first : Int) (s : Session β ν) :
    countUp ev name body (count + 1) first s = unlessExiting (ev body) (fun _ => Value.null)
      (fun _ => countUp ev name body count (first + 1))
      (s.setVariable name (.int (Int64.ofInt first))) := rfl

theorem runStatements_cons (file : String) (statement : Statement Node) (rest : List (Statement Node)) :
    runStatements ev file (statement :: rest) = unlessExiting (runStatement ev file statement) id
      fun failures => do return failures ++ (← runStatements ev file rest) := rfl

theorem after_nested (c : Command β ν α) (s : Session β ν) : after (nested c) s =
    { after c { s with scriptDepth := s.scriptDepth + 1 } with
      scriptDepth := (after c { s with scriptDepth := s.scriptDepth + 1 }).scriptDepth - 1 } := by
  unfold after nested
  cases c { s with scriptDepth := s.scriptDepth + 1 } <;> rfl

theorem after_runStatement (file : String) (statement : Statement Node) (s : Session β ν) :
    after (runStatement ev file statement) s = after (ev statement.content) s := by
  unfold after runStatement
  cases ev statement.content s with
  | ok value t => rfl
  | error stop t => cases stop <;> rfl

theorem after_sequence {before rest : List Node} {last value : Value}
    (hbefore : sequence ev last before s = .ok value t) (hexit : t.exitRequested = false)
    (hnode : (after (ev node) t).exitRequested) :
    after (sequence ev last (before ++ node :: rest)) s = after (ev node) t := by
  induction before generalizing last s with
  | nil =>
    cases hbefore
    exact after_unlessExiting hnode
  | cons first before ih =>
    rw [sequence_cons] at hbefore
    obtain ⟨a, u, hfirst, hgoes, hrest⟩ := eq_ok_of_unlessExiting hbefore hexit
    rw [List.cons_append, sequence_cons, after_congr (unlessExiting_of_ok hfirst hgoes)]
    exact ih hrest

theorem after_forItems {before rest : List Value} {item value : Value}
    (hbefore : forItems ev name body before s = .ok value t) (hexit : t.exitRequested = false)
    (hbody : (after (ev body) (t.setVariable name item)).exitRequested) :
    after (forItems ev name body (before ++ item :: rest)) s =
      after (ev body) (t.setVariable name item) := by
  induction before generalizing s with
  | nil =>
    cases hbefore
    exact after_unlessExiting hbody
  | cons first before ih =>
    rw [forItems_cons] at hbefore
    obtain ⟨a, u, hfirst, hgoes, hrest⟩ := eq_ok_of_unlessExiting hbefore hexit
    rw [List.cons_append, after_congr (forItems_cons ..), after_congr (unlessExiting_of_ok hfirst hgoes)]
    exact ih hrest

theorem after_countUp {before rest : Nat} {first : Int} {value : Value}
    (hbefore : countUp ev name body before first s = .ok value t) (hexit : t.exitRequested = false)
    (hbody : (after (ev body)
      (t.setVariable name (.int (Int64.ofInt (first + before))))).exitRequested) :
    after (countUp ev name body (before + (rest + 1)) first) s =
      after (ev body) (t.setVariable name (.int (Int64.ofInt (first + before)))) := by
  induction before generalizing first s with
  | zero =>
    cases hbefore
    have hnumber : first + (0 : Nat) = first := by omega
    rw [hnumber] at hbody ⊢
    rw [Nat.zero_add]
    exact after_unlessExiting hbody
  | succ before ih =>
    rw [countUp_succ] at hbefore
    obtain ⟨a, u, hfirst, hgoes, hrest⟩ := eq_ok_of_unlessExiting hbefore hexit
    have hnumber : first + (before + 1 : Nat) = first + 1 + before := by omega
    rw [hnumber] at hbody ⊢
    rw [Nat.succ_add, after_congr (countUp_succ ..), after_congr (unlessExiting_of_ok hfirst hgoes)]
    exact ih hrest hbody

theorem after_runStatements {file : String} {before rest : List (Statement Node)}
    {statement : Statement Node} {failures : List Failure}
    (hbefore : runStatements ev file before s = .ok failures t) (hexit : t.exitRequested = false)
    (hstatement : (after (ev statement.content) t).exitRequested) :
    after (runStatements ev file (before ++ statement :: rest)) s = after (ev statement.content) t := by
  rw [← after_runStatement file] at hstatement ⊢
  induction before generalizing failures s with
  | nil =>
    cases hbefore
    exact after_unlessExiting hstatement
  | cons first before ih =>
    rw [runStatements_cons] at hbefore
    obtain ⟨a, u, hfirst, hgoes, hrest⟩ := eq_ok_of_unlessExiting hbefore hexit
    rw [List.cons_append, runStatements_cons, after_congr (unlessExiting_of_ok hfirst hgoes),
      after_bind_of_still fun _ _ => rfl]
    cases hmore : runStatements ev file before u with
    | ok more v =>
      rw [bind_of_ok hmore] at hrest
      cases hrest
      exact ih hmore
    | error stop v =>
      rw [bind_of_error hmore] at hrest
      cases hrest

end Statements

/-! ### Loops -/

section Loops

variable {ev : Node → Command β ν Value} {condition body : Node} {step : Option Node}

/-- What a loop runs between two rounds. -/
def advance (ev : Node → Command β ν Value) : Option Node → Command β ν Unit
  | some step => do let _ ← ev step
  | none => return ()

theorem loop_succ (condition body : Node) (step : Option Node) (fuel : Nat) :
    loop ev condition body step (fuel + 1) = (do
      if ← evalBool ev condition "condition" then
        unlessExiting (ev body) (fun _ => Value.null) fun _ => do
          advance ev step
          loop ev condition body step fuel
      else return .null) := by
  cases step with
  | none => rfl
  | some step => simp only [loop, advance, unlessExiting, bind_assoc, pure_bind]

/-- Rounds of a loop, each of them without an exit in the body. -/
inductive Rounds (ev : Node → Command β ν Value) (condition body : Node) (step : Option Node) :
    Nat → Session β ν → Session β ν → Prop
  | none (s : Session β ν) : Rounds ev condition body step 0 s s
  | more {count : Nat} {s s₁ s₂ s₃ t : Session β ν} {value : Value}
    (hcondition : evalBool ev condition "condition" s = .ok true s₁) (hbody : ev body s₁ = .ok value s₂)
    (hexit : s₂.exitRequested = false) (hstep : advance ev step s₂ = .ok () s₃)
    (hrest : Rounds ev condition body step count s₃ t) : Rounds ev condition body step (count + 1) s t

theorem Rounds.loop_eq {count : Nat} (h : Rounds ev condition body step count s t) (fuel : Nat) :
    loop ev condition body step (count + fuel) s = loop ev condition body step fuel t := by
  induction h with
  | none s => rw [Nat.zero_add]
  | more hcondition hbody hexit hstep _ ih =>
    rw [Nat.succ_add, loop_succ, bind_of_ok hcondition]
    exact (unlessExiting_of_ok hbody hexit).trans ((bind_of_ok hstep).trans ih)

/-- After some rounds, the loop goes on with the fuel that is left. -/
theorem Rounds.exists_loop_eq {count fuel : Nat} (h : Rounds ev condition body step count s t)
    (hfuel : count < fuel) :
    ∃ rest, loop ev condition body step fuel s = loop ev condition body step (rest + 1) t := by
  obtain ⟨rest, rfl⟩ : ∃ rest, fuel = count + (rest + 1) := ⟨fuel - count - 1, by omega⟩
  exact ⟨rest, h.loop_eq (rest + 1)⟩

theorem after_loop {count fuel : Nat} (hrounds : Rounds ev condition body step count s t)
    (hfuel : count < fuel) (hcondition : evalBool ev condition "condition" t = .ok true u)
    (hbody : (after (ev body) u).exitRequested) :
    after (loop ev condition body step fuel) s = after (ev body) u := by
  obtain ⟨rest, hloop⟩ := hrounds.exists_loop_eq hfuel
  rw [after_congr hloop, loop_succ, after_bind_of_ok hcondition]
  exact after_unlessExiting hbody

theorem after_loop_of_failed_step {count fuel : Nat} {node : Node} {value : Value} {stop : Stop}
    {v w : Session β ν} (hrounds : Rounds ev condition body (some node) count s t) (hfuel : count < fuel)
    (hcondition : evalBool ev condition "condition" t = .ok true u) (hbody : ev body u = .ok value v)
    (hexit : v.exitRequested = false) (hstep : ev node v = .error stop w) :
    after (loop ev condition body (some node) fuel) s = w := by
  obtain ⟨rest, hloop⟩ := hrounds.exists_loop_eq hfuel
  have hadvance : advance ev (some node) v = .error stop w := bind_of_error hstep
  rw [after_congr hloop, loop_succ, after_bind_of_ok hcondition]
  exact (after_congr (unlessExiting_of_ok hbody hexit)).trans (after_bind_of_error hadvance)

/-- In a session that is to exit, the rest of a loop is no more than a conditional. -/
theorem loop_of_exiting (hev : ∀ node, Keeps (·.exitRequested) (ev node)) (hs : s.exitRequested)
    (fuel : Nat) :
    loop ev condition body step (fuel + 1) s = (do
      let _ ← conditional ev condition body none
      return Value.null : Command β ν Value) s := by
  have hcondition := keeps_evalBool hev condition "condition" s hs
  rw [loop_succ, conditional, bind_assoc]
  cases hresult : evalBool ev condition "condition" s with
  | error stop t => rw [bind_of_error hresult, bind_of_error hresult]
  | ok holds t =>
    rw [hresult] at hcondition
    rw [bind_of_ok hresult, bind_of_ok hresult]
    cases holds with
    | false => rfl
    | true =>
      have hbody := hev body t hcondition.1
      simp only [if_true]
      cases hend : ev body t with
      | error stop u => rw [unlessExiting, bind_of_error hend, bind_of_error hend]
      | ok value u =>
        rw [hend] at hbody
        rw [unlessExiting_of_exiting hend hbody.1, bind_of_ok hend]
        rfl

end Loops

/-! ### An exit is not taken back -/

/-- Neither a failure nor the end of a script takes back an exit. -/
theorem keepsExit_runScript {ev : Node → Command β ν Value}
    (hev : ∀ node, Keeps (·.exitRequested) (ev node)) (file : Node) :
    Keeps (·.exitRequested) (runScript ev file) := by
  apply (keeps_evalText hev file).bind
  intro file
  apply Keeps.get.bind
  intro s
  refine .ite (fun _ => .fail _) fun _ => Keeps.bind ?_ fun _ => .pure trivial
  have hfile : Keeps (·.exitRequested) (runFile ev file) := by
    refine Keeps.bind ?_ fun text => keeps_runText hev _ text
    exact (Composed.readFile file).keeps (fun _ _ h => h.exitRequested) hev
  intro s hs
  have hpost := hfile { s with scriptDepth := s.scriptDepth + 1 } hs
  simp only [nested]
  cases hresult : runFile ev file { s with scriptDepth := s.scriptDepth + 1 } with
  | ok value t =>
    rw [hresult] at hpost
    exact hpost
  | error stop t =>
    rw [hresult] at hpost
    exact hpost

theorem keepsExit_execute [Hierarchy β] [Viewer ν] (fuel : Nat) (node : Node) :
    Keeps (·.exitRequested) (execute fuel node : Command β ν Value) := by
  induction fuel generalizing node with
  | zero => exact .throw _
  | succ fuel ih =>
    by_cases hscript : ∃ file, node = .runScript file
    · obtain ⟨file, rfl⟩ := hscript
      exact keepsExit_runScript ih file
    · have hnode : ∀ file, node ≠ .runScript file := fun file hfile => hscript ⟨file, hfile⟩
      exact (composed_step fuel hnode).keeps (fun _ _ h => h.exitRequested) ih

end Command

/-! ### Activities -/

/-- The values that a loop over a value goes through. -/
def Value.members? : Value → Option (List Value)
  | .vector xs => some (xs.map .float)
  | .list items => some items
  | _ => none

/-- Two sessions that differ at most in the depth of scripts. -/
def Session.SameButDepth {β ν : Type} (s s' : Session β ν) : Prop :=
  s' = { s with scriptDepth := s'.scriptDepth }

theorem Session.SameButDepth.of_eq {β ν : Type} {s s' : Session β ν} (h : s' = s) : s.SameButDepth s' := by
  rw [h, SameButDepth]

theorem Session.SameButDepth.trans {β ν : Type} {s t u : Session β ν} (h : s.SameButDepth t)
    (h' : t.SameButDepth u) : s.SameButDepth u := by
  rw [SameButDepth] at h h' ⊢
  rw [h', h]

theorem Session.SameButDepth.exitRequested {β ν : Type} {s s' : Session β ν} (h : s.SameButDepth s') :
    s'.exitRequested = s.exitRequested := by
  rw [SameButDepth] at h
  rw [h]

/-- A node or a script that is run from a session, with the fuel that is left. -/
inductive Activity (β ν : Type) where
  | eval (fuel : Nat) (node : Node) (start : Session β ν)
  | script (fuel : Nat) (file text : String) (start : Session β ν)

namespace Activity

open Command

variable {β ν : Type} [Hierarchy β] [Viewer ν]

/-- The session in which an activity ends. -/
def final : Activity β ν → Session β ν
  | .eval fuel node start => after (execute fuel node) start
  | .script fuel file text start => after (runText (execute fuel) file text) start

/-- The statements that an activity runs while there is no exit, except for the start and the step of a loop that succeed. -/
inductive Runs : Activity β ν → Activity β ν → Prop
  | element {fuel : Nat} {before rest : List Node} {node : Node} {value : Value} {s t : Session β ν}
    (hbefore : sequence (execute fuel) .null before s = .ok value t) (hexit : t.exitRequested = false) :
    Runs (.eval (fuel + 1) (.sequence (before ++ node :: rest)) s) (.eval fuel node t)
  | branch {fuel : Nat} {condition body : Node} {otherwise : Option Node} {s t : Session β ν}
    (hcondition : evalBool (execute fuel) condition "condition" s = .ok true t) :
    Runs (.eval (fuel + 1) (.conditional condition body otherwise) s) (.eval fuel body t)
  | otherwise {fuel : Nat} {condition body otherwise : Node} {s t : Session β ν}
    (hcondition : evalBool (execute fuel) condition "condition" s = .ok false t) :
    Runs (.eval (fuel + 1) (.conditional condition body (some otherwise)) s) (.eval fuel otherwise t)
  | aliasBody {fuel : Nat} {name : String} {body : Node} {s : Session β ν}
    (halias : s.env.aliases.get? name = some body) :
    Runs (.eval (fuel + 1) (.callAlias name) s) (.eval fuel body s)
  | whileBody {fuel count : Nat} {condition body : Node} {s t u : Session β ν}
    (hrounds : Rounds (execute fuel) condition body none count s t) (hfuel : count < fuel)
    (hcondition : evalBool (execute fuel) condition "condition" t = .ok true u) :
    Runs (.eval (fuel + 1) (.whileLoop condition body) s) (.eval fuel body u)
  | forBody {fuel count : Nat} {init condition step body : Node} {value : Value}
    {s s₁ t u : Session β ν} (hinit : execute fuel init s = .ok value s₁)
    (hrounds : Rounds (execute fuel) condition body (some step) count s₁ t) (hfuel : count < fuel)
    (hcondition : evalBool (execute fuel) condition "condition" t = .ok true u) :
    Runs (.eval (fuel + 1) (.forLoop init condition step body) s) (.eval fuel body u)
  | forInit {fuel : Nat} {init condition step body : Node} {stop : Stop} {s t : Session β ν}
    (hinit : execute fuel init s = .error stop t) :
    Runs (.eval (fuel + 1) (.forLoop init condition step body) s) (.eval fuel init s)
  | forStep {fuel count : Nat} {init condition step body : Node} {value result : Value} {stop : Stop}
    {s s₁ t u v w : Session β ν} (hinit : execute fuel init s = .ok value s₁)
    (hrounds : Rounds (execute fuel) condition body (some step) count s₁ t) (hfuel : count < fuel)
    (hcondition : evalBool (execute fuel) condition "condition" t = .ok true u)
    (hbody : execute fuel body u = .ok result v) (hexit : v.exitRequested = false)
    (hstep : execute fuel step v = .error stop w) :
    Runs (.eval (fuel + 1) (.forLoop init condition step body) s) (.eval fuel step v)
  | rangeBody {fuel count : Nat} {name : String} {first last body : Node} {low high : Int64} {value : Value}
    {s s₁ s₂ t : Session β ν} (hfirst : evalInt (execute fuel) first "range start" s = .ok low s₁)
    (hlast : evalInt (execute fuel) last "range end" s₁ = .ok high s₂) (hrange : ¬high < low)
    (hbefore : countUp (execute fuel) name body count low.toInt s₂ = .ok value t)
    (hcount : (count : Int) ≤ high.toInt - low.toInt) (hexit : t.exitRequested = false) :
    Runs (.eval (fuel + 1) (.forRange name first last body) s)
      (.eval fuel body (t.setVariable name (.int (Int64.ofInt (low.toInt + count)))))
  | itemBody {fuel : Nat} {name : String} {array body : Node} {before rest : List Value}
    {item items value : Value} {s s₁ t : Session β ν} (harray : execute fuel array s = .ok items s₁)
    (hitems : items.members? = some (before ++ item :: rest))
    (hbefore : forItems (execute fuel) name body before s₁ = .ok value t)
    (hexit : t.exitRequested = false) :
    Runs (.eval (fuel + 1) (.forEach name array body) s) (.eval fuel body (t.setVariable name item))
  | file {fuel : Nat} {file : Node} {path text : String} {s t : Session β ν}
    (hfile : evalText (execute fuel) file s = .ok path t) (hdepth : t.scriptDepth < Script.maxDepth)
    (hread : t.files.read path = .ok text) :
    Runs (.eval (fuel + 1) (.runScript file) s) (.script fuel (Files.fileName path) text
      { t with reads := path :: t.reads, scriptDepth := t.scriptDepth + 1 })
  | line {fuel : Nat} {file text : String} {before rest : List (Statement Node)}
    {statement : Statement Node} {failures : List Failure} {s t : Session β ν}
    (hreadable : (Script.read text).errors = [])
    (hstatements : (Script.read text).statements = before ++ statement :: rest)
    (hbefore : runStatements (execute fuel) file before s = .ok failures t)
    (hexit : t.exitRequested = false) :
    Runs (.script fuel file text s) (.eval fuel statement.content t)

theorem callAlias_of_get? {fuel : Nat} {name : String} {body : Node} {s : Session β ν}
    (halias : s.env.aliases.get? name = some body) :
    callAlias (execute fuel) name s = execute fuel body s := by
  have hget : (getEnv : Command β ν Environment) s = .ok s.env s := rfl
  rw [callAlias, bind_of_ok hget, halias]

theorem forEach_of_members? {fuel : Nat} {name : String} {array body : Node} {items : Value}
    {values : List Value} {s t : Session β ν} (harray : execute fuel array s = .ok items t)
    (hitems : items.members? = some values) :
    forEach (execute fuel) name array body s = forItems (execute fuel) name body values t := by
  rw [forEach, bind_of_ok harray]
  cases items with
  | vector xs | list items => cases hitems; rfl
  | _ => cases hitems

theorem after_forRange {fuel count : Nat} {name : String} {first last body : Node} {low high : Int64}
    {value : Value} {s s₁ s₂ t : Session β ν}
    (hfirst : evalInt (execute fuel) first "range start" s = .ok low s₁)
    (hlast : evalInt (execute fuel) last "range end" s₁ = .ok high s₂) (hrange : ¬high < low)
    (hbefore : countUp (execute fuel) name body count low.toInt s₂ = .ok value t)
    (hcount : (count : Int) ≤ high.toInt - low.toInt) (hexit : t.exitRequested = false)
    (hbody : (after (execute fuel body)
      (t.setVariable name (.int (Int64.ofInt (low.toInt + count))))).exitRequested) :
    after (forRange (execute fuel) name first last body) s =
      after (execute fuel body) (t.setVariable name (.int (Int64.ofInt (low.toInt + count)))) := by
  have hsplit : (high.toInt - low.toInt + 1).toNat =
      count + ((high.toInt - low.toInt - count).toNat + 1) := by omega
  rw [forRange, after_bind_of_ok hfirst, after_bind_of_ok hlast, if_neg hrange, hsplit]
  exact after_countUp hbefore hexit hbody

theorem sameButDepth_runScript {fuel : Nat} {file : Node} {path text : String} {s t : Session β ν}
    (hfile : evalText (execute fuel) file s = .ok path t) (hdepth : t.scriptDepth < Script.maxDepth)
    (hread : t.files.read path = .ok text) :
    (after (runText (execute fuel) (Files.fileName path) text)
      { t with reads := path :: t.reads, scriptDepth := t.scriptDepth + 1 }).SameButDepth
      (after (runScript (execute fuel) file) s) := by
  have hget : (MonadState.get : Command β ν (Session β ν)) t = .ok t t := rfl
  have htext : readFile path { t with scriptDepth := t.scriptDepth + 1 } =
      .ok text { t with reads := path :: t.reads, scriptDepth := t.scriptDepth + 1 } := by
    simp only [readFile, hread]
  rw [runScript, after_bind_of_ok hfile, after_bind_of_ok hget, if_neg (Nat.not_le.2 hdepth),
    after_bind_of_still fun _ _ => rfl, after_nested, runFile, after_bind_of_ok htext]
  rfl

theorem after_runText {fuel : Nat} {file text : String} (h : (Script.read text).errors = [])
    (s : Session β ν) : after (runText (execute fuel) file text) s =
      after (runStatements (execute fuel) file (Script.read text).statements) s := by
  simp only [runText, h, List.isEmpty_nil, Bool.not_true, Bool.false_eq_true, if_false]
  refine after_bind_of_still (fun failures t => ?_) s
  cases failures <;> rfl

/-- A statement that leaves the session with an exit is the last thing that happens in it. -/
theorem Runs.final_eq {a b : Activity β ν} (h : a.Runs b) (hexit : b.final.exitRequested) :
    b.final.SameButDepth a.final := by
  cases h with
  | element hbefore hgoes => exact .of_eq (after_sequence hbefore hgoes hexit)
  | branch hcondition => exact .of_eq (after_bind_of_ok hcondition)
  | otherwise hcondition => exact .of_eq (after_bind_of_ok hcondition)
  | aliasBody halias => exact .of_eq (after_congr (callAlias_of_get? halias))
  | whileBody hrounds hfuel hcondition => exact .of_eq (after_loop hrounds hfuel hcondition hexit)
  | forBody hinit hrounds hfuel hcondition =>
    exact .of_eq ((after_bind_of_ok hinit).trans (after_loop hrounds hfuel hcondition hexit))
  | forInit hinit => exact .of_eq ((after_bind_of_error hinit).trans (after_of_error hinit).symm)
  | forStep hinit hrounds hfuel hcondition hbody hgoes hstep =>
    have hloop := after_loop_of_failed_step hrounds hfuel hcondition hbody hgoes hstep
    exact .of_eq ((after_bind_of_ok hinit).trans (hloop.trans (after_of_error hstep).symm))
  | rangeBody hfirst hlast hrange hbefore hcount hgoes =>
    exact .of_eq (after_forRange hfirst hlast hrange hbefore hcount hgoes hexit)
  | itemBody harray hitems hbefore hgoes =>
    exact .of_eq ((after_congr (forEach_of_members? harray hitems)).trans
      (after_forItems hbefore hgoes hexit))
  | file hfile hdepth hread => exact sameButDepth_runScript hfile hdepth hread
  | line hreadable hstatements hbefore hgoes =>
    refine .of_eq ((after_runText hreadable _).trans ?_)
    rw [hstatements]
    exact after_runStatements hbefore hgoes hexit

/-- Nothing runs after an exit: once a statement leaves the session with one, the activity that runs it ends there, and so does every activity around that one, with nothing changed but the depth of scripts. A loop with a start and a step is different if these two succeed: behind them it is still a conditional, which may run the body once. -/
theorem nothing_runs_after_exit :
    (∀ a b : Activity β ν, Relation.ReflTransGen Runs a b → b.final.exitRequested →
      b.final.SameButDepth a.final) ∧
    ∀ (fuel count : Nat) (init condition step body : Node) (value : Value) (s s₁ t : Session β ν),
      execute fuel init s = .ok value s₁ →
      Rounds (execute fuel) condition body (some step) count s₁ t → count < fuel → t.exitRequested →
      final (.eval (fuel + 1) (.forLoop init condition step body) s) =
        after (conditional (execute fuel) condition body none) t := by
  refine ⟨fun a b hchain hexit => ?_, ?_⟩
  · induction hchain using Relation.ReflTransGen.head_induction_on with
    | refl => exact .of_eq rfl
    | head hruns _ ih =>
      have hflag := ih.exitRequested.trans hexit
      exact ih.trans (hruns.final_eq hflag)
  · intro fuel count init condition step body value s s₁ t hinit hrounds hfuel hexit
    obtain ⟨rest, hrest⟩ := hrounds.exists_loop_eq hfuel
    have hloop := hrest.trans (loop_of_exiting (keepsExit_execute fuel) hexit rest)
    calc final (.eval (fuel + 1) (.forLoop init condition step body) s)
      _ = after (loop (execute fuel) condition body (some step) fuel) s₁ := after_bind_of_ok hinit
      _ = after (conditional (execute fuel) condition body none) t :=
        (after_congr hloop).trans (after_bind_of_still (fun _ _ => rfl) t)

/-- An alias asks to exit in the body of an endless loop, and another loop does in its start. -/
theorem nothing_runs_after_exit_in_loop :
    ∃ (a b : Activity Store Recorder) (s : Session Store Recorder), s.exitRequested = false ∧
      s.env.aliases.get? "leave" = some (.sequence [.exit, .printDir]) ∧
      a = .eval 5 (.whileLoop (.literal (.bool true)) (.callAlias "leave")) s ∧ b = .eval 2 .exit s ∧
      Relation.ReflTransGen Runs a b ∧ b.final.exitRequested ∧ b.final.SameButDepth a.final ∧
      final (.eval 3 (.forLoop .exit (.literal (.bool true)) .nop .printDir) s) =
        after (conditional (execute 2) (.literal (.bool true)) .printDir none) b.final := by
  let s : Session Store Recorder := {
    env := { aliases := Dict.empty.insert "leave" (.sequence [.exit, .printDir]) }
    hierarchy := .empty
    viewer := {} }
  have halias : s.env.aliases.get? "leave" = some (.sequence ([] ++ .exit :: [.printDir])) := rfl
  have hloop : Runs (.eval 5 (.whileLoop (.literal (.bool true)) (.callAlias "leave")) s)
      (.eval 4 (.callAlias "leave") s) := .whileBody (.none s) (by decide) rfl
  have hcall : Runs (.eval 4 (.callAlias "leave") s) (.eval 3 (.sequence ([] ++ .exit :: [.printDir])) s) :=
    .aliasBody halias
  have helement : Runs (.eval 3 (.sequence ([] ++ .exit :: [.printDir])) s) (.eval 2 .exit s) :=
    .element rfl rfl
  have hchain := ((Relation.ReflTransGen.single hloop).tail hcall).tail helement
  have hmain := nothing_runs_after_exit (β := Store) (ν := Recorder)
  exact ⟨_, _, s, rfl, halias, rfl, rfl, hchain, rfl, hmain.1 _ _ hchain rfl,
    hmain.2 2 0 .exit _ .nop .printDir .null s _ _ rfl (.none _) (by decide) rfl⟩

/-- The start of a loop asks to exit, and the body of the loop still creates a site. -/
theorem created_after_exit :
    ∃ (s : Session Store Recorder) (init condition step body : Node),
      Language.parse "for (exit; true; pwd) { +site:/P/a }" = .ok (.forLoop init condition step body) ∧
      s.exitRequested = false ∧ (after (Session.eval init) s).exitRequested ∧
      ¬(after (Session.eval init) s).hierarchy.objects.contains "/Physical/a" ∧
      (after (Session.eval (.forLoop init condition step body)) s).hierarchy.objects.contains
        "/Physical/a" := by
  refine ⟨{ hierarchy := .empty, viewer := {} }, .exit, .literal (.bool true), .printDir,
    .create (.site (.literalPath "/P/a")), by rfl, rfl, rfl, ?_, ?_⟩
  · decide +kernel
  · decide +kernel

end Activity

end TwinShell
