import Mathlib.Tactic
import TagTypes.Broker.Client
import TagTypes.Proofs.Dict

/-!
# A client and its session at the broker

The broker keeps a session for a client: whether the client is connected, and to which filters it is subscribed with which quality of service. The session is clean, so that each connection begins with no filters, and a request reaches the broker only while the client is connected. Whatever is asked of the client and whatever the network tells it, the session of a connected client has the subscriptions of the client, with the qualities of service asked for last, and a watcher hears of the end of a connection only after it has heard of its beginning.
-/

namespace TagTypes.Broker

variable {η : Type}

structure Session where
  connected : Bool := false
  filters : Dict String Int := ∅

namespace Session

/-- A request is lost on the way to a broker that the client is not connected to. -/
def receive (b : Session) : Request → Session
  | .subscribe filter qos => if b.connected then { b with filters := b.filters.insert filter qos } else b
  | .unsubscribe filter => if b.connected then { b with filters := b.filters.erase filter } else b
  | _ => b

def receiveAll (b : Session) (requests : List Request) : Session := requests.foldl receive b

@[simp] theorem receiveAll_nil (b : Session) : b.receiveAll [] = b := rfl

@[simp] theorem receiveAll_cons (b : Session) (request : Request) (requests : List Request) :
    b.receiveAll (request :: requests) = (b.receive request).receiveAll requests := rfl

theorem receiveAll_append (b : Session) (first second : List Request) :
    b.receiveAll (first ++ second) = (b.receiveAll first).receiveAll second :=
  List.foldl_append

@[simp] theorem connected_receive (b : Session) (request : Request) : (b.receive request).connected = b.connected := by
  cases request with
  | subscribe filter qos | unsubscribe filter => simp only [receive]; split <;> rfl
  | _ => rfl

@[simp] theorem connected_receiveAll (requests : List Request) (b : Session) :
    (b.receiveAll requests).connected = b.connected := by
  induction requests generalizing b with
  | nil => rfl
  | cons request requests ih => rw [receiveAll_cons, ih, connected_receive]

/-- A session that is asked for each of some subscriptions has them, beside the filters it had. -/
theorem get?_receiveAll_subscribe (subscriptions : List (String × Subscription η))
    (hnodup : (subscriptions.map Prod.fst).Nodup) {b : Session} (hconnected : b.connected = true) (filter : String) :
    (b.receiveAll (subscriptions.map fun (filter, s) => .subscribe filter s.qos)).filters.get? filter =
      ((Dict.lookup filter subscriptions).map Subscription.qos).or (b.filters.get? filter) := by
  induction subscriptions generalizing b with
  | nil => rfl
  | cons subscription rest ih =>
    obtain ⟨own, s⟩ := subscription
    rw [List.map_cons, List.nodup_cons] at hnodup
    have hreceived : (b.receive (.subscribe own s.qos)).connected = true := by rw [connected_receive, hconnected]
    rw [List.map_cons, receiveAll_cons, ih hnodup.2 hreceived, receive, if_pos hconnected, Dict.get?_insert]
    by_cases hown : own = filter
    · subst hown
      rw [Dict.lookup_eq_none_iff.2 hnodup.1, Dict.lookup, if_pos rfl, if_pos rfl]
      rfl
    · rw [Dict.lookup, if_neg hown, if_neg hown]

end Session

/-- What is done with a client, by those who use it and by the network. The broker answers a connection with `answered`, and a connection ends with `ended`. -/
inductive Move (η : Type) where
  | watch (watcher : η)
  | connect (k : Conditions)
  | disconnect (k : Conditions)
  | publish (k : Conditions) (topic payload : String) (qos : Int) (retain : Bool)
  | subscribe (filter : String) (handler : η) (qos : Int)
  | unsubscribe (filter : String)
  | message (topic : String) (payload : ByteArray)
  | answered (code : Int)
  | ended (code : Int)

namespace Move

def make (c : Client η) : Move η → Client η
  | .watch watcher => c.watch watcher
  | .connect k => (c.connect k).2
  | .disconnect k => (c.disconnect k).2
  | .publish k topic payload qos retain => (c.publish k topic payload qos retain).2
  | .subscribe filter handler qos => c.subscribe filter handler qos
  | .unsubscribe filter => c.unsubscribe filter
  | .message topic payload => c.message topic payload
  | .answered code => c.answered code
  | .ended code => c.ended code

/-- The move brings an answer that a connection is up. -/
def opens : Move η → Bool
  | .connect k => k.connectFault.isNone && k.answer = some 0
  | .answered code => code = 0
  | _ => false

/-- The move is the end of the connection. -/
def closes : Move η → Bool
  | .disconnect k => k.disconnectFault.isNone
  | .ended _ => true
  | _ => false

/-- The quality of service asked for a filter after the move, if the filter is subscribed to; `wish` is the one before. -/
def wish? (filter : String) (wish : Option Int) : Move η → Option Int
  | .subscribe own _ qos => if own = filter then some qos else wish
  | .unsubscribe own => if own = filter then none else wish
  | _ => wish

end Move

/-- The quality of service that was last asked for a filter, if it was not unsubscribed from afterwards. -/
def lastWish? (moves : List (Move η)) (filter : String) : Option Int := moves.foldl (Move.wish? filter) none

/-- A client beside its session. -/
structure Link (η : Type) where
  client : Client η
  session : Session := {}

namespace Link

/-- What the network does to a session at a move: a connection that is opened has a new session. -/
def reach (b : Session) (move : Move η) : Session :=
  if move.opens then { connected := true } else if move.closes then { b with connected := false } else b

/-- A move is made by the client, and what the client asks then is received in the session that the move leaves. -/
def step (l : Link η) (move : Move η) : Link η :=
  let client := move.make l.client
  { client, session := (reach l.session move).receiveAll (client.requests.drop l.client.requests.length) }

def run (l : Link η) (moves : List (Move η)) : Link η := moves.foldl step l

/-- The client and its session agree. -/
structure Agrees (l : Link η) : Prop where
  connected : l.session.connected = l.client.connected
  filters : l.client.connected = true → ∀ filter,
    l.session.filters.get? filter = (l.client.subscriptions.get? filter).map Subscription.qos

variable {l : Link η}

theorem session_step {move : Move η} (asked : List Request)
    (hasked : (move.make l.client).requests = l.client.requests ++ asked) :
    (l.step move).session = (reach l.session move).receiveAll asked := by
  simp only [step, hasked, List.drop_left]

/-- After a move that neither opens nor closes a connection, subscribes or unsubscribes, both sides are as before. -/
theorem Agrees.of_unchanged (hl : l.Agrees) {move : Move η} (hsession : (l.step move).session = l.session)
    (hconnected : (move.make l.client).connected = l.client.connected)
    (hsubscriptions : (move.make l.client).subscriptions = l.client.subscriptions) : (l.step move).Agrees where
  connected := by rw [hsession, hl.connected]; exact hconnected.symm
  filters hup filter := by
    rw [hsession]
    refine (hl.filters (hconnected ▸ hup) filter).trans ?_
    rw [← hsubscriptions]
    rfl

/-- After a connection is opened, the new session has what the client renews. -/
theorem agrees_of_opens {move : Move η} (hopens : move.opens = true) (asked : List Request)
    (hasked : (move.make l.client).requests = l.client.requests ++ (asked ++ l.client.renewals))
    (hidle : ({ connected := true } : Session).receiveAll asked = { connected := true })
    (hconnected : (move.make l.client).connected = true)
    (hsubscriptions : (move.make l.client).subscriptions = l.client.subscriptions) : (l.step move).Agrees := by
  have hsession : (l.step move).session = ({ connected := true } : Session).receiveAll l.client.renewals := by
    rw [session_step _ hasked, Session.receiveAll_append, reach, if_pos hopens, hidle]
  refine ⟨?_, fun _ filter => ?_⟩
  · rw [hsession, Session.connected_receiveAll]
    exact hconnected.symm
  · rw [hsession, Client.renewals, Session.get?_receiveAll_subscribe _ l.client.subscriptions.nodup rfl filter]
    change ((l.client.subscriptions.get? filter).map Subscription.qos).or none =
      ((move.make l.client).subscriptions.get? filter).map Subscription.qos
    rw [Option.or_none, hsubscriptions]

/-- While no connection is up, client and session only have to agree on that. -/
theorem agrees_of_down {move : Move η} (hsession : (l.step move).session.connected = false)
    (hconnected : (move.make l.client).connected = false) : (l.step move).Agrees where
  connected := hsession.trans hconnected.symm
  filters hup := absurd (hconnected.symm.trans hup) Bool.false_ne_true

/-- A client that tries to connect asks for things that no session takes note of, and with a connection its subscriptions are renewed. -/
theorem connect_cases (k : Conditions) (c : Client η) : ∃ asked : List Request, (∀ b : Session, b.receiveAll asked = b) ∧
    ((Move.connect (η := η) k).opens = false ∧ (c.connect k).2 = c.ask asked ∨
      (Move.connect (η := η) k).opens = true ∧ (c.connect k).2 = (c.ask asked).answered 0) := by
  simp only [Move.opens, Client.connect]
  rcases k.connectFault with _ | _ | _
  · rcases k.answer with _ | code
    · exact ⟨[.connect c.address.host c.address.port c.settings.keepAlive, .startLoop, .stopLoop], fun _ => rfl,
        Or.inl ⟨rfl, by simp [Client.ask]⟩⟩
    · by_cases hcode : code = 0
      · subst hcode
        exact ⟨[.connect c.address.host c.address.port c.settings.keepAlive, .startLoop], fun _ => rfl,
          Or.inr ⟨rfl, by simp [Client.ask]⟩⟩
      · exact ⟨[.connect c.address.host c.address.port c.settings.keepAlive, .startLoop, .stopLoop], fun _ => rfl,
          Or.inl ⟨by simp [hcode], by simp [Client.ask, Client.answered, hcode]⟩⟩
  · exact ⟨[.connect c.address.host c.address.port c.settings.keepAlive], fun _ => rfl, Or.inl ⟨rfl, rfl⟩⟩
  · exact ⟨[.connect c.address.host c.address.port c.settings.keepAlive], fun _ => rfl, Or.inl ⟨rfl, rfl⟩⟩

theorem Agrees.connect (hl : l.Agrees) (k : Conditions) : (l.step (.connect k)).Agrees := by
  obtain ⟨asked, hidle, ⟨hopens, hclient⟩ | ⟨hopens, hclient⟩⟩ := connect_cases k l.client
  · have hrequests : ((Move.connect k).make l.client).requests = l.client.requests ++ asked := by
      simp only [Move.make, hclient, Client.ask]
    refine hl.of_unchanged ?_ (by simp only [Move.make, hclient, Client.ask]) (by simp only [Move.make, hclient, Client.ask])
    rw [session_step _ hrequests, reach, hopens]
    exact hidle l.session
  · refine agrees_of_opens hopens asked ?_ (hidle _) ?_ ?_ <;>
      simp [Move.make, hclient, Client.ask, Client.answered, Client.notify, Client.renewals]

theorem Agrees.disconnect (hl : l.Agrees) (k : Conditions) : (l.step (.disconnect k)).Agrees := by
  rcases hfault : k.disconnectFault with _ | reason
  · have hclient : (Move.disconnect k).make l.client =
        { l.client.ask [.disconnect, .stopLoop] with connected := false } := by
      simp [Move.make, Client.disconnect, hfault, Client.ask]
    refine agrees_of_down ?_ (by rw [hclient])
    rw [step, Session.connected_receiveAll]
    simp [reach, Move.opens, Move.closes, hfault]
  · have hclient : (Move.disconnect k).make l.client = l.client.ask [.disconnect] := by
      simp [Move.make, Client.disconnect, hfault]
    refine hl.of_unchanged ?_ (by rw [hclient]; rfl) (by rw [hclient]; rfl)
    rw [session_step [.disconnect] (by rw [hclient]; rfl)]
    simp [reach, Move.opens, Move.closes, hfault, Session.receive]

theorem Agrees.subscribe (hl : l.Agrees) (filter : String) (handler : η) (qos : Int) :
    (l.step (.subscribe filter handler qos)).Agrees := by
  have hsession : (l.step (.subscribe filter handler qos)).session = l.session.receive (.subscribe filter qos) :=
    session_step [.subscribe filter qos] rfl
  refine ⟨?_, fun hup other => ?_⟩
  · rw [hsession, Session.connected_receive]
    exact hl.connected
  · have hup : l.client.connected = true := hup
    rw [hsession, Session.receive, if_pos (hl.connected.trans hup), Dict.get?_insert, hl.filters hup]
    change _ = ((l.client.subscriptions.insert filter ⟨handler, qos⟩).get? other).map Subscription.qos
    rw [Dict.get?_insert]
    split <;> rfl

theorem Agrees.unsubscribe (hl : l.Agrees) (filter : String) : (l.step (.unsubscribe filter)).Agrees := by
  have hconnected : (Move.unsubscribe filter |>.make l.client).connected = l.client.connected := by
    simp only [Move.make, Client.unsubscribe]
    split <;> rfl
  have hsubscriptions : (Move.unsubscribe filter |>.make l.client).subscriptions = l.client.subscriptions.erase filter := by
    simp only [Move.make, Client.unsubscribe]
    split <;> rfl
  rcases hup : l.client.connected with _ | _
  · refine agrees_of_down ?_ (hconnected.trans hup)
    rw [step, Session.connected_receiveAll]
    exact hl.connected.trans hup
  · have hsession : (l.step (.unsubscribe filter)).session = l.session.receive (.unsubscribe filter) :=
      session_step [.unsubscribe filter] (by simp [Move.make, Client.unsubscribe, hup, Client.ask])
    refine ⟨?_, fun _ other => ?_⟩
    · rw [hsession, Session.connected_receive, hl.connected]
      exact hconnected.symm
    · rw [hsession, Session.receive, if_pos (hl.connected.trans hup), Dict.get?_erase, hl.filters hup]
      change _ = ((Move.unsubscribe filter |>.make l.client).subscriptions.get? other).map Subscription.qos
      rw [hsubscriptions, Dict.get?_erase]
      split <;> rfl

theorem Agrees.answered (hl : l.Agrees) (code : Int) : (l.step (.answered code)).Agrees := by
  by_cases hcode : code = 0
  · subst hcode
    refine agrees_of_opens rfl [] ?_ rfl ?_ ?_ <;>
      simp [Move.make, Client.answered, Client.ask, Client.notify, Client.renewals]
  · have hclient : (Move.answered code).make l.client = l.client := if_neg hcode
    refine hl.of_unchanged ?_ (by rw [hclient]) (by rw [hclient])
    rw [session_step [] (by rw [hclient, List.append_nil])]
    simp [reach, Move.opens, Move.closes, hcode]

theorem agrees_ended (code : Int) : (l.step (.ended code)).Agrees := by
  refine agrees_of_down ?_ ?_
  · rw [step, Session.connected_receiveAll]
    rfl
  · simp only [Move.make, Client.ended]
    split_ifs <;> rfl

theorem Agrees.step (hl : l.Agrees) (move : Move η) : (l.step move).Agrees := by
  cases move with
  | watch watcher => exact hl.of_unchanged (session_step [] (List.append_nil _).symm) rfl rfl
  | connect k => exact hl.connect k
  | disconnect k => exact hl.disconnect k
  | publish k topic payload qos retain =>
    exact hl.of_unchanged (session_step [.publish topic payload qos retain] rfl) rfl rfl
  | subscribe filter handler qos => exact hl.subscribe filter handler qos
  | unsubscribe filter => exact hl.unsubscribe filter
  | message topic payload => exact hl.of_unchanged (session_step [] (List.append_nil _).symm) rfl rfl
  | answered code => exact hl.answered code
  | ended code => exact agrees_ended code

theorem Agrees.run (hl : l.Agrees) (moves : List (Move η)) : (l.run moves).Agrees := by
  induction moves generalizing l with
  | nil => exact hl
  | cons move moves ih => exact ih (hl.step move)

theorem client_run (l : Link η) (moves : List (Move η)) : (l.run moves).client = moves.foldl (fun c move => move.make c) l.client := by
  induction moves generalizing l with
  | nil => rfl
  | cons move moves ih => exact ih (l.step move)

end Link

namespace Move

/-- The qualities of service of a client after a move are those that the move asks for. -/
theorem qos_make (c : Client η) (move : Move η) (filter : String) :
    ((move.make c).subscriptions.get? filter).map Subscription.qos =
      move.wish? filter ((c.subscriptions.get? filter).map Subscription.qos) := by
  cases move with
  | watch watcher | publish k topic payload qos retain | message topic payload => rfl
  | connect k =>
    obtain ⟨asked, -, ⟨-, hclient⟩ | ⟨-, hclient⟩⟩ := Link.connect_cases k c <;> simp only [make, hclient] <;> rfl
  | disconnect k => simp only [make, Client.disconnect]; split <;> rfl
  | subscribe own handler qos =>
    change ((c.subscriptions.insert own ⟨handler, qos⟩).get? filter).map Subscription.qos = _
    rw [Dict.get?_insert, apply_ite (Option.map Subscription.qos)]
    rfl
  | unsubscribe own =>
    have hsubscriptions : ((Move.unsubscribe own).make c).subscriptions = c.subscriptions.erase own := by
      simp only [make, Client.unsubscribe]
      split <;> rfl
    rw [hsubscriptions, Dict.get?_erase, apply_ite (Option.map Subscription.qos)]
    rfl
  | answered code => simp only [make, Client.answered]; split <;> rfl
  | ended code => simp only [make, Client.ended]; split_ifs <;> rfl

theorem qos_foldl_make (moves : List (Move η)) (c : Client η) (filter : String) :
    ((moves.foldl (fun c move => move.make c) c).subscriptions.get? filter).map Subscription.qos =
      moves.foldl (Move.wish? filter) ((c.subscriptions.get? filter).map Subscription.qos) := by
  induction moves generalizing c with
  | nil => rfl
  | cons move moves ih => rw [List.foldl_cons, List.foldl_cons, ih, qos_make]

end Move

end TagTypes.Broker
