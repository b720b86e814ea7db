import Mathlib.Data.List.Forall2
import Mathlib.Data.List.Infix
import TwinShell.Viewer.Client

/-!
# What is said on a connection

On every connection the client first logs in, then sends the messages it is told to send, and logs out last; and it holds one connection at a time. A run is a list of calls and of things that happen between them; what happens during a call is ahead of the client, and may be anything. An `Account` goes along with a run: it lists, for every connection that was made, the messages whose sending succeeded. The invariant is that the frames on the connections are what the account says, in this order: the open connection holds the login and its messages, or nothing if the login failed, in which case it is not alive and nothing can follow; the closed ones may end with the logout.
-/

namespace TwinShell

/-! ### What happens to a connection -/

namespace Connection

variable {c c' c'' : Connection}

/-- What a connection and its later state have in common when the client does nothing: nothing was written, and it has not come back to life. -/
structure Later (c c' : Connection) : Prop where
  sent : c'.sent = c.sent
  alive : c'.alive → c.alive

theorem Later.refl (c : Connection) : c.Later c := ⟨rfl, id⟩

theorem Later.trans (h : c.Later c') (h' : c'.Later c'') : c.Later c'' :=
  ⟨h'.sent.trans h.sent, fun halive => h.alive (h'.alive halive)⟩

theorem later_absorb (c : Connection) : c.Later c.absorb := by
  unfold absorb
  split
  · exact .refl c
  · rename_i halive
    exact ⟨rfl, fun _ => by simpa using halive⟩

theorem later_receive (c : Connection) (bytes : List UInt8) : c.Later (c.receive bytes) := by
  have habsorb := later_absorb { c with pending := c.pending ++ bytes }
  exact ⟨habsorb.sent, habsorb.alive⟩

theorem later_hangUp (c : Connection) : c.Later c.hangUp := ⟨rfl, nofun⟩

theorem later_sever (c : Connection) : c.Later c.sever := ⟨rfl, id⟩

theorem later_receiveText (c : Connection) (text : String) : c.Later (c.receiveText text) :=
  later_receive c _

theorem later_foldl_receiveText (c : Connection) (texts : List String) :
    c.Later (texts.foldl receiveText c) := by
  induction texts generalizing c with
  | nil => exact .refl c
  | cons text texts ih => exact (later_receiveText c text).trans (ih _)

end Connection

namespace ViewerClient

/-- The message with which the client logs in. -/
def login (v : ViewerClient) : Json := Message.login v.apiUrl v.apiToken

variable {v v' v'' w : ViewerClient} {c : Connection} {message opening : Json}

/-- The bytes of a message in a frame. -/
def payloadOf (message : Json) : List UInt8 := Text.encode message.compact

/-- What a client and its later state have in common when it does nothing itself. -/
structure Later (v v' : ViewerClient) : Prop where
  login : v'.login = v.login
  closed : v'.closed = v.closed
  none : v.connection = none → v'.connection = none
  some : ∀ c, v.connection = some c → ∃ c', v'.connection = some c' ∧ c.Later c'

theorem Later.refl (v : ViewerClient) : v.Later v := ⟨rfl, rfl, id, fun c h => ⟨c, h, .refl c⟩⟩

theorem Later.trans (h : v.Later v') (h' : v'.Later v'') : v.Later v'' := by
  refine ⟨h'.login.trans h.login, h'.closed.trans h.closed, fun hnone => h'.none (h.none hnone), ?_⟩
  intro c hc
  obtain ⟨c', hc', hlater⟩ := h.some c hc
  obtain ⟨c'', hc'', hlater'⟩ := h'.some c' hc'
  exact ⟨c'', hc'', hlater.trans hlater'⟩

theorem Later.isConnected (h : v.Later v') (hconnected : v'.isConnected) : v.isConnected := by
  cases hv : v.connection with
  | none => simp [ViewerClient.isConnected, h.none hv] at hconnected
  | some c =>
    obtain ⟨c', hc', hlater⟩ := h.some c hv
    simp only [ViewerClient.isConnected, hc', Option.any_some, hv] at hconnected ⊢
    exact hlater.alive hconnected

theorem later_onConnection {f : Connection → Connection} (hf : ∀ c : Connection, c.Later (f c))
    (v : ViewerClient) : v.Later (v.onConnection f) := by
  refine ⟨rfl, rfl, fun h => ?_, fun c h => ⟨f c, ?_, hf c⟩⟩
  · simp [onConnection, h]
  · simp [onConnection, h]

theorem later_undergo (v : ViewerClient) (happening : Happening) : v.Later (v.undergo happening) := by
  cases happening with
  | received bytes => exact later_onConnection (fun c => c.later_receive bytes) v
  | hungUp => exact later_onConnection Connection.later_hangUp v
  | severed => exact later_onConnection Connection.later_sever v
  | rerouted network => exact ⟨rfl, rfl, id, fun c h => ⟨c, h, .refl c⟩⟩

theorem later_foldl_undergo (v : ViewerClient) (happenings : List Happening) :
    v.Later (happenings.foldl undergo v) := by
  induction happenings generalizing v with
  | nil => exact .refl v
  | cons happening happenings ih => exact (later_undergo v happening).trans (ih _)

theorem later_proceed (v : ViewerClient) : v.Later v.proceed := by
  unfold proceed
  split
  · exact .refl v
  · rename_i now later _
    have hnow := later_foldl_undergo { v with ahead := later } now
    exact ⟨hnow.login, hnow.closed, hnow.none, hnow.some⟩

/-! ### What a call does -/

/-- The connection with one more frame. -/
def utters (w : ViewerClient) (c : Connection) (message : Json) : ViewerClient :=
  { w with connection := some { c with sent := c.sent.push (payloadOf message) } }

/-- The connection is found to be broken. -/
def breaks (w : ViewerClient) (c : Connection) : ViewerClient :=
  { w with connection := some { c with alive := false } }

/-- A message is refused, because the client is not connected or the message is too long, or it is written, which succeeds or fails; it is written only if the client was connected. -/
theorem send_cases (message : Json) (v : ViewerClient) : ∃ w, v.Later w ∧
    ((∃ e, send message v = .error e w ∧ (w.isConnected → Frame.encode? (payloadOf message) = none)) ∨
      ∃ c, w.connection = some c ∧ v.isConnected ∧
        (send message v = .ok () (w.utters c message) ∨ ∃ e, send message v = .error e (w.breaks c))) := by
  simp only [send]
  by_cases hconnected : v.proceed.isConnected
  · rw [if_pos hconnected]
    split
    · rename_i hlong
      exact ⟨v.proceed, later_proceed v, .inl ⟨_, rfl, fun _ => hlong⟩⟩
    · have hlater := (later_proceed v).trans (later_proceed v.proceed)
      have hv := (later_proceed v).isConnected hconnected
      refine ⟨v.proceed.proceed, hlater, .inr ?_⟩
      cases hc : v.proceed.connection with
      | none => simp [isConnected, hc] at hconnected
      | some c =>
        obtain ⟨c', hc', -⟩ := (later_proceed v.proceed).some c hc
        refine ⟨c', hc', hv, ?_⟩
        simp only [write, hc']
        split
        · exact .inr ⟨_, rfl⟩
        · exact .inl rfl
  · rw [if_neg hconnected]
    exact ⟨v.proceed, later_proceed v, .inl ⟨_, rfl, fun h => absurd h hconnected⟩⟩

theorem close_of_none (h : v.connection = none) : v.close = v := by
  simp only [close, h]

theorem close_of_some (h : v.connection = some c) :
    v.close = { v with connection := none, closed := v.closed.push c } := by
  simp only [close, h]

/-- The client before it closes its connection: nothing was written, or a logout while it was connected. -/
theorem disconnect_cases (v : ViewerClient) : ∃ w, v.disconnect = w.close ∧
    (v.Later w ∨ v.isConnected ∧ ∃ w' c, v.Later w' ∧ w'.connection = some c ∧
      ((w'.utters c Message.logout).Later w ∨ (w'.breaks c).Later w)) := by
  simp only [disconnect]
  split
  · rename_i hconnected
    have hfirst := later_proceed v
    refine ⟨_, rfl, ?_⟩
    obtain ⟨w, hlater, ⟨e, hsend, -⟩ | ⟨c, hc, -, hsend | ⟨e, hsend⟩⟩⟩ :=
      send_cases Message.logout v.proceed
    · rw [afterCall, hsend]
      exact .inl ((hfirst.trans hlater).trans (later_proceed w))
    · rw [afterCall, hsend]
      exact .inr ⟨hfirst.isConnected hconnected, w, c, hfirst.trans hlater, hc, .inl (later_proceed _)⟩
    · rw [afterCall, hsend]
      exact .inr ⟨hfirst.isConnected hconnected, w, c, hfirst.trans hlater, hc, .inr (later_proceed _)⟩
  · exact ⟨_, rfl, .inl ((later_proceed v).trans (later_proceed _))⟩

theorem connection_close (v : ViewerClient) : v.close.connection = none := by
  cases h : v.connection with
  | none => rw [close_of_none h, h]
  | some c => rw [close_of_some h]

theorem connection_disconnect (v : ViewerClient) : v.disconnect.connection = none :=
  connection_close _

/-- A new connection is opened when no other is open. -/
theorem connection_proceed_disconnect (v : ViewerClient) : v.disconnect.proceed.connection = none :=
  (later_proceed _).none (connection_disconnect v)

theorem afterCall_connect_of_error {address : String} {e : ViewerError}
    (h : dial address v.disconnect.proceed = .error e) :
    afterCall (connect address) v = v.disconnect.proceed := by
  simp only [afterCall, connect, h]

theorem afterCall_connect_of_ok {address : String} (h : dial address v.disconnect.proceed = .ok c) :
    afterCall (connect address) v = afterCall (send v.disconnect.proceed.login)
      { v.disconnect.proceed with address, connection := some c } := by
  simp only [afterCall, connect, h, login]

theorem send_of_none (h : v.connection = none) (message : Json) :
    send message v = .error .notConnected v.proceed := by
  have hnone := (later_proceed v).none h
  simp [send, isConnected, hnone]

theorem sent_of_dial {address : String} (h : dial address v = .ok c) : c.sent = #[] := by
  unfold dial at h
  split at h
  · cases h
  · split at h
    · cases h
    · cases h
      exact (Connection.later_foldl_receiveText {} _).sent

/-! ### The account of a run -/

/-- The frames on the open connection: the login and the messages that were sent; or none, if the login failed, and the connection is not alive then. -/
def Opened (opening : Json) (c : Connection) (told : List Json) : Prop :=
  (c.sent.toList = [] ∧ told = [] ∧ c.alive = false) ∨ c.sent.toList = (opening :: told).map payloadOf

/-- The frames on a connection: none, or the login, the messages that were sent, and the logout or nothing. -/
def Follows (opening : Json) (c : Connection) (told : List Json) : Prop :=
  (c.sent.toList = [] ∧ told = []) ∨
    ∃ farewell, farewell <+: [Message.logout] ∧ c.sent.toList = (opening :: told ++ farewell).map payloadOf

theorem Opened.follows {told : List Json} (h : Opened opening c told) : Follows opening c told := by
  obtain ⟨hsent, htold, -⟩ | hsent := h
  · exact .inl ⟨hsent, htold⟩
  · exact .inr ⟨[], List.nil_prefix, by rw [hsent, List.append_nil]⟩

theorem Opened.later {c' : Connection} {told : List Json} (h : Opened opening c told) (hc : c.Later c') :
    Opened opening c' told := by
  obtain ⟨hsent, htold, halive⟩ | hsent := h
  · refine .inl ⟨hc.sent ▸ hsent, htold, ?_⟩
    by_contra hne
    exact Bool.false_ne_true (halive.symm.trans (hc.alive (by simpa using hne)))
  · exact .inr (hc.sent ▸ hsent)

/-- On a connection that is alive the login was written. -/
theorem Opened.sent_of_alive {told : List Json} (h : Opened opening c told) (halive : c.alive) :
    c.sent.toList = (opening :: told).map payloadOf := by
  obtain ⟨-, -, hdead⟩ | hsent := h
  · exact absurd (hdead.symm.trans halive) Bool.false_ne_true
  · exact hsent

/-- The connections of the client follow the protocol, the latest first: the messages sent on each of them are those of the account. -/
inductive Orderly (opening : Json) (v : ViewerClient) : List (List Json) → Prop
  | idle {told : List (List Json)} (hconnection : v.connection = none)
    (hclosed : List.Forall₂ (Follows opening) v.closed.toList.reverse told) : Orderly opening v told
  | busy {now : List Json} {told : List (List Json)} (c : Connection) (hconnection : v.connection = some c)
    (hopened : Opened opening c now)
    (hclosed : List.Forall₂ (Follows opening) v.closed.toList.reverse told) : Orderly opening v (now :: told)

variable {told : List (List Json)}

theorem Orderly.later (h : Orderly opening v told) (hlater : v.Later v') : Orderly opening v' told := by
  cases h with
  | idle hconnection hclosed => exact .idle (hlater.none hconnection) (hlater.closed ▸ hclosed)
  | busy c hconnection hopened hclosed =>
    obtain ⟨c', hc', hc⟩ := hlater.some c hconnection
    exact .busy c' hc' (hopened.later hc) (hlater.closed ▸ hclosed)

theorem Orderly.closed_of_none (h : Orderly opening v told) (hnone : v.connection = none) :
    List.Forall₂ (Follows opening) v.closed.toList.reverse told := by
  cases h with
  | idle hconnection hclosed => exact hclosed
  | busy c hconnection => cases hconnection.symm.trans hnone

theorem Orderly.close (h : Orderly opening v told) : Orderly opening v.close told := by
  cases h with
  | idle hconnection hclosed =>
    rw [close_of_none hconnection]
    exact .idle hconnection hclosed
  | busy c hconnection hopened hclosed =>
    rw [close_of_some hconnection]
    refine .idle rfl ?_
    simp only [Array.toList_push, List.reverse_append, List.reverse_singleton, List.singleton_append]
    exact .cons hopened.follows hclosed

/-- What is said on the open connection of an orderly client comes after the login. -/
theorem Orderly.opened (h : Orderly opening v told) (hlater : v.Later w) (hc : w.connection = some c) :
    ∃ now earlier, told = now :: earlier ∧ Opened opening c now ∧
      (v.isConnected → c.sent.toList = (opening :: now).map payloadOf) ∧
      List.Forall₂ (Follows opening) w.closed.toList.reverse earlier := by
  cases h with
  | idle hconnection hclosed => cases (hlater.none hconnection).symm.trans hc
  | busy c₀ hconnection hopened hclosed =>
    obtain ⟨c', hc', hsame⟩ := hlater.some c₀ hconnection
    cases hc'.symm.trans hc
    refine ⟨_, _, rfl, hopened.later hsame, fun hconnected => ?_, hlater.closed ▸ hclosed⟩
    simp only [isConnected, hconnection, Option.any_some] at hconnected
    rw [hsame.sent, hopened.sent_of_alive hconnected]

theorem Opened.breaks {now : List Json} (h : Opened opening c now) :
    Opened opening { c with alive := false } now :=
  h.later ⟨rfl, nofun⟩

theorem Orderly.disconnect (h : Orderly opening v told) : Orderly opening v.disconnect told := by
  obtain ⟨w, heq, hlater | ⟨hconnected, w', c, hlater, hc, hsays | hbreaks⟩⟩ := disconnect_cases v
  · rw [heq]
    exact (h.later hlater).close
  · obtain ⟨now, earlier, rfl, -, hsent, hclosed⟩ := h.opened hlater hc
    obtain ⟨c', hc', hsame⟩ := hsays.some _ rfl
    rw [heq, close_of_some hc']
    refine .idle rfl ?_
    simp only [Array.toList_push, List.reverse_append, List.reverse_singleton, List.singleton_append,
      hsays.closed]
    refine .cons (.inr ⟨[Message.logout], List.prefix_rfl, ?_⟩) hclosed
    rw [hsame.sent, Array.toList_push, hsent hconnected]
    simp
  · obtain ⟨now, earlier, rfl, hopened, -, hclosed⟩ := h.opened hlater hc
    have hbroken : Orderly opening (w'.breaks c) (now :: earlier) := .busy _ rfl hopened.breaks hclosed
    rw [heq]
    exact (hbroken.later hbreaks).close

/-- A call or something that happens between two calls. -/
inductive Event where
  | connects (address : String)
  | disconnects
  | sends (message : Json)
  | undergoes (happening : Happening)

/-- A client and, for every connection it has made, the latest first, the messages whose sending succeeded. -/
structure Account where
  client : ViewerClient
  told : List (List Json) := []

namespace Account

/-- One more message on the latest connection. -/
def add (message : Json) : List (List Json) → List (List Json)
  | [] => []
  | now :: earlier => (now ++ [message]) :: earlier

/-- What an event does. Connecting makes a connection if dialling succeeds, whatever becomes of the login. -/
def step (a : Account) : Event → Account
  | .connects address =>
    { client := afterCall (connect address) a.client
      told := if (dial address a.client.disconnect.proceed).isOk then [] :: a.told else a.told }
  | .disconnects => { a with client := a.client.disconnect }
  | .sends message =>
    match send message a.client with
    | .ok _ client => ⟨client, add message a.told⟩
    | .error _ client => ⟨client, a.told⟩
  | .undergoes happening => { a with client := a.client.undergo happening }

/-- What events do, one after the other. -/
def run (a : Account) (events : List Event) : Account := events.foldl step a

end Account

/-! ### Every run is orderly -/

/-- The login goes out first on a connection that was just made. -/
theorem Orderly.login (hshort : Frame.encode? (payloadOf opening) ≠ none) (hc : v.connection = some c)
    (hsent : c.sent = #[]) (hclosed : List.Forall₂ (Follows opening) v.closed.toList.reverse told) :
    Orderly opening (afterCall (send opening) v) ([] :: told) := by
  obtain ⟨w, hlater, ⟨e, hsend, hrefused⟩ | ⟨c', hc', -, hsend | ⟨e, hsend⟩⟩⟩ := send_cases opening v
  · rw [afterCall, hsend]
    obtain ⟨c', hc', hsame⟩ := hlater.some c hc
    have hdead : c'.alive = false := by
      by_contra halive
      refine hshort (hrefused ?_)
      simpa [isConnected, hc'] using halive
    exact .busy c' hc' (.inl ⟨by rw [hsame.sent, hsent], rfl, hdead⟩) (hlater.closed ▸ hclosed)
  all_goals
    obtain ⟨_, hc'', hsame⟩ := hlater.some c hc
    cases hc'.symm.trans hc''
    have hempty : c'.sent = #[] := hsame.sent.trans hsent
    rw [afterCall, hsend]
  · exact .busy _ rfl (.inr (by simp [hempty])) (hlater.closed ▸ hclosed)
  · exact .busy _ rfl (.inl ⟨by rw [hempty], rfl, rfl⟩) (hlater.closed ▸ hclosed)

theorem Orderly.send (h : Orderly opening v told) (message : Json) :
    (∀ v', ViewerClient.send message v = .ok () v' → Orderly opening v' (Account.add message told)) ∧
      ∀ e v', ViewerClient.send message v = .error e v' → Orderly opening v' told := by
  obtain ⟨w, hlater, ⟨e, hsend, -⟩ | ⟨c, hc, hconnected, hsend⟩⟩ := send_cases message v
  · rw [hsend]
    refine ⟨nofun, ?_⟩
    rintro e v' ⟨⟩
    exact h.later hlater
  · obtain ⟨now, earlier, rfl, hopened, hsent, hclosed⟩ := h.opened hlater hc
    obtain hsend | ⟨e, hsend⟩ := hsend
    · rw [hsend]
      refine ⟨?_, nofun⟩
      rintro v' ⟨⟩
      refine .busy _ rfl (.inr ?_) hclosed
      rw [Array.toList_push, hsent hconnected]
      simp
    · rw [hsend]
      refine ⟨nofun, ?_⟩
      rintro e v' ⟨⟩
      exact .busy _ rfl hopened.breaks hclosed

theorem Orderly.undergo (h : Orderly opening v told) (happening : Happening) :
    Orderly opening (v.undergo happening) told := h.later (later_undergo v happening)

theorem login_disconnect (v : ViewerClient) : v.disconnect.login = v.login := by
  have hclose (w : ViewerClient) : w.close.login = w.login := by
    unfold close
    split <;> rfl
  obtain ⟨w, heq, hlater | ⟨-, w', c, hlater, -, hsays | hbreaks⟩⟩ := disconnect_cases v
  · rw [heq, hclose, hlater.login]
  · rw [heq, hclose, hsays.login]
    exact hlater.login
  · rw [heq, hclose, hbreaks.login]
    exact hlater.login

theorem login_send (message : Json) (v : ViewerClient) :
    (afterCall (ViewerClient.send message) v).login = v.login := by
  obtain ⟨w, hlater, ⟨e, hsend, -⟩ | ⟨c, -, -, hsend | ⟨e, hsend⟩⟩⟩ := send_cases message v
  all_goals
    rw [afterCall, hsend]
    exact hlater.login

/-- The account of a client that logs in with a given message is in order. -/
structure Account.InOrder (opening : Json) (a : Account) : Prop where
  login_eq : a.client.login = opening
  orderly : Orderly opening a.client a.told

theorem Account.InOrder.step {a : Account} (hshort : Frame.encode? (payloadOf opening) ≠ none)
    (h : a.InOrder opening) (event : Event) : (a.step event).InOrder opening := by
  cases event with
  | connects address =>
    have hlater := later_proceed a.client.disconnect
    have hlogin : a.client.disconnect.proceed.login = opening :=
      hlater.login.trans ((login_disconnect _).trans h.login_eq)
    have hidle : Orderly opening a.client.disconnect.proceed a.told := h.orderly.disconnect.later hlater
    rw [Account.step]
    cases hdial : dial address a.client.disconnect.proceed with
    | error e =>
      rw [afterCall_connect_of_error hdial]
      exact ⟨hlogin, hidle⟩
    | ok c =>
      rw [afterCall_connect_of_ok hdial, hlogin]
      refine ⟨(login_send opening _).trans hlogin, ?_⟩
      exact Orderly.login hshort rfl (sent_of_dial hdial)
        (hidle.closed_of_none (connection_proceed_disconnect _))
  | disconnects => exact ⟨(login_disconnect _).trans h.login_eq, h.orderly.disconnect⟩
  | sends message =>
    have hlogin := (login_send message a.client).trans h.login_eq
    obtain ⟨hok, herror⟩ := h.orderly.send message
    simp only [Account.step, afterCall] at hlogin ⊢
    cases hsend : ViewerClient.send message a.client with
    | ok _ v' =>
      rw [hsend] at hlogin
      exact ⟨hlogin, hok v' hsend⟩
    | error e v' =>
      rw [hsend] at hlogin
      exact ⟨hlogin, herror e v' hsend⟩
  | undergoes happening =>
    exact ⟨(later_undergo _ happening).login.trans h.login_eq, h.orderly.undergo happening⟩

theorem Account.InOrder.run {a : Account} (hshort : Frame.encode? (payloadOf opening) ≠ none)
    (h : a.InOrder opening) (events : List Event) : (a.run events).InOrder opening := by
  induction events generalizing a with
  | nil => exact h
  | cons event events ih => exact ih (h.step hshort event)

/-! ### Closed connections stay as they are -/

theorem closed_disconnect (v : ViewerClient) : v.closed.toList <+: v.disconnect.closed.toList := by
  have hclose (w : ViewerClient) : w.closed.toList <+: w.close.closed.toList := by
    unfold close
    split
    · rw [Array.toList_push]
      exact List.prefix_append _ _
    · exact List.prefix_rfl
  obtain ⟨w, heq, hlater | ⟨-, w', c, hlater, -, hsays | hbreaks⟩⟩ := disconnect_cases v
  · rw [heq, ← hlater.closed]
    exact hclose w
  · rw [heq, ← hlater.closed]
    exact hsays.closed ▸ hclose w
  · rw [heq, ← hlater.closed]
    exact hbreaks.closed ▸ hclose w

theorem closed_send (message : Json) (v : ViewerClient) :
    (afterCall (ViewerClient.send message) v).closed = v.closed := by
  obtain ⟨w, hlater, ⟨e, hsend, -⟩ | ⟨c, -, -, hsend | ⟨e, hsend⟩⟩⟩ := send_cases message v
  all_goals
    rw [afterCall, hsend]
    exact hlater.closed

theorem Account.closed_step (a : Account) (event : Event) :
    a.client.closed.toList <+: (a.step event).client.closed.toList := by
  cases event with
  | connects address =>
    have hdisconnect := closed_disconnect a.client
    rw [← (later_proceed a.client.disconnect).closed] at hdisconnect
    rw [Account.step]
    cases hdial : dial address a.client.disconnect.proceed with
    | error e => rwa [afterCall_connect_of_error hdial]
    | ok c => rwa [afterCall_connect_of_ok hdial, closed_send]
  | disconnects => exact closed_disconnect _
  | sends message =>
    have hsend := closed_send message a.client
    rw [Account.step]
    rw [afterCall] at hsend
    cases hreply : send message a.client with
    | ok _ after =>
      rw [hreply] at hsend
      exact hsend ▸ List.prefix_rfl
    | error _ after =>
      rw [hreply] at hsend
      exact hsend ▸ List.prefix_rfl
  | undergoes happening =>
    exact (later_undergo _ happening).closed ▸ List.prefix_rfl

theorem Account.closed_run (a : Account) (events : List Event) :
    a.client.closed.toList <+: (a.run events).client.closed.toList := by
  induction events generalizing a with
  | nil => exact List.prefix_rfl
  | cons event events ih => exact (a.closed_step event).trans (ih _)

/-! ### The protocol -/

/-- The connections made so far, the latest first: the open one, if there is one, and the closed ones. -/
def connections (v : ViewerClient) : List Connection := v.connection.toList ++ v.closed.toList.reverse

theorem Orderly.follows (h : Orderly opening v told) :
    List.Forall₂ (Follows opening) v.connections told := by
  cases h with
  | idle hconnection hclosed => simpa [connections, hconnection] using hclosed
  | busy c hconnection hopened hclosed => simpa [connections, hconnection] using ⟨hopened.follows, hclosed⟩

theorem encode?_payloadOf_ne_none (h : (payloadOf message).length < 0x80000000) :
    Frame.encode? (payloadOf message) ≠ none := by
  rw [Frame.encode?, if_pos h]
  exact Option.some_ne_none _

/-- In every run, the frames written on every connection are the login, the messages sent while it was open and possibly the logout, or nothing at all; the logout is not among the frames of the open connection, and a closed connection stays as it is. A connection is opened when no other is open, and none is open after disconnecting, when nothing can be sent. The login and the logout are told from other messages by their types. -/
theorem login_first_logout_last (v : ViewerClient) (hconnection : v.connection = none)
    (hclosed : v.closed = #[]) (hshort : (payloadOf v.login).length < 0x80000000) (events : List Event) :
    let a := Account.run ⟨v, []⟩ events
    List.Forall₂ (Follows v.login) a.client.connections a.told ∧
      (∀ c, a.client.connection = some c →
        ∃ now earlier, a.told = now :: earlier ∧ Opened v.login c now) ∧
      (∀ more, a.client.closed.toList <+: (a.run more).client.closed.toList) ∧
      a.client.disconnect.proceed.connection = none ∧
      a.client.disconnect.connection = none ∧
      (∀ message, ∃ v', send message a.client.disconnect = .error .notConnected v') ∧
      v.login.field? "type" = some (.str "login") ∧ Message.logout.field? "type" = some (.str "logout") := by
  intro a
  have hstart : Account.InOrder v.login ⟨v, []⟩ :=
    ⟨rfl, .idle hconnection (by rw [hclosed]; exact .nil)⟩
  have horder : a.InOrder v.login := hstart.run (encode?_payloadOf_ne_none hshort) events
  refine ⟨horder.orderly.follows, fun c hc => ?_, a.closed_run,
    connection_proceed_disconnect _, connection_disconnect _,
    fun message => ⟨_, send_of_none (connection_disconnect _) message⟩,
    (Message.field?_typed "login" _).1, (Message.field?_typed "logout" _).1⟩
  obtain ⟨now, earlier, htold, hopened, -⟩ := horder.orderly.opened (.refl _) hc
  exact ⟨now, earlier, htold, hopened⟩

/-- A client whose first connection ends between the look at it and the next write, and which connects anew. -/
def interrupted : ViewerClient where
  address := "viewer:5500"
  apiUrl := "http://api"
  apiToken := "token"
  network _ := .accepted
  ahead := List.replicate 8 [] ++ [[.hungUp, .severed]]

theorem login_first_logout_last_interrupted :
    (payloadOf interrupted.login).length < 0x80000000 ∧
      let events : List Event := [.connects "viewer:5500", .sends (.str "a"), .sends (.str "b"),
        .connects "viewer:5500", .sends (.str "c"), .disconnects]
      let a := Account.run ⟨interrupted, []⟩ events
      a.client.closed.toList.map (·.sent.size) = [2, 3] ∧ a.told.map List.length = [1, 1] ∧
        List.Forall₂ (Follows interrupted.login) a.client.connections a.told := by
  have hshort : (payloadOf interrupted.login).length < 0x80000000 := by decide +kernel
  exact ⟨hshort, by decide +kernel, by decide +kernel, (login_first_logout_last interrupted rfl rfl hshort _).1⟩

end ViewerClient

end TwinShell
