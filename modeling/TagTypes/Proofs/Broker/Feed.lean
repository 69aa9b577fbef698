import Mathlib.Tactic
import TagTypes.Broker.Feed
import TagTypes.Proofs.Broker.Session

/-!
# Feeds

A feed turns all that its client delivers into signals. Its client has at most one subscription, the one to the filter of the settings, and has it as long as the feed is subscribed. So each message that comes in becomes at most one signal, and just the signal that its topic and its content mean.
-/

namespace TagTypes.Broker

/-- The same conditions without messages that come in with the subscription. -/
def Conditions.silent (k : Conditions) : Conditions := { k with arrivals := [] }

/-- The signal is about a schema. -/
def Signal.isMessage : Signal → Bool
  | .received .. | .deleted _ => true
  | .connected | .disconnected _ => false

/-! ### What the steps of a client leave as it is -/

namespace Client

variable {η : Type}

/-- Messages that come in are delivered, and nothing else happens. -/
theorem foldl_message (arrivals : List (String × ByteArray)) (c : Client η) :
    ∃ delivered : List (Delivery η), (∀ d ∈ delivered, ∃ handler topic payload, d = .message handler topic payload) ∧
      arrivals.foldl (fun c m => c.message m.1 m.2) c = { c with deliveries := c.deliveries ++ delivered } := by
  induction arrivals generalizing c with
  | nil => exact ⟨[], by simp, by simp⟩
  | cons m rest ih =>
    obtain ⟨delivered, hmessages, hrest⟩ := ih (c.message m.1 m.2)
    refine ⟨(c.handlers m.1).map (.message · m.1 m.2) ++ delivered, ?_, ?_⟩
    · intro d hd
      rcases List.mem_append.1 hd with hd | hd
      · obtain ⟨handler, -, rfl⟩ := List.mem_map.1 hd
        exact ⟨handler, m.1, m.2, rfl⟩
      · exact hmessages d hd
    · rw [List.foldl_cons, hrest, message]
      simp only [List.append_assoc]

theorem settings_answered (c : Client η) (code : Int) : (c.answered code).settings = c.settings := by
  unfold answered
  split <;> rfl

theorem settings_ended (c : Client η) (code : Int) : (c.ended code).settings = c.settings := by
  simp only [ended]
  split_ifs <;> rfl

theorem settings_connect (k : Conditions) (c : Client η) : (c.connect k).2.settings = c.settings := by
  simp only [connect]
  rcases k.connectFault with _ | _ | _
  · rcases k.answer with _ | code
    · rfl
    · simp only
      split <;> exact settings_answered _ code
  · rfl
  · rfl

theorem settings_unsubscribe (filter : String) (c : Client η) : (c.unsubscribe filter).settings = c.settings := by
  simp only [unsubscribe]
  split <;> rfl

theorem deliveries_unsubscribe (filter : String) (c : Client η) : (c.unsubscribe filter).deliveries = c.deliveries := by
  simp only [unsubscribe]
  split <;> rfl

theorem settings_disconnect (k : Conditions) (c : Client η) : (c.disconnect k).2.settings = c.settings := by
  simp only [disconnect]
  split <;> rfl

theorem deliveries_disconnect (k : Conditions) (c : Client η) : (c.disconnect k).2.deliveries = c.deliveries := by
  simp only [disconnect]
  split <;> rfl

theorem subscriptions_answered (c : Client η) (code : Int) : (c.answered code).subscriptions = c.subscriptions := by
  unfold answered
  split <;> rfl

theorem subscriptions_ended (c : Client η) (code : Int) : (c.ended code).subscriptions = c.subscriptions := by
  simp only [ended]
  split_ifs <;> rfl

theorem subscriptions_connect (k : Conditions) (c : Client η) : (c.connect k).2.subscriptions = c.subscriptions := by
  simp only [connect]
  rcases k.connectFault with _ | _ | _
  · rcases k.answer with _ | code
    · rfl
    · simp only
      split <;> exact subscriptions_answered _ code
  · rfl
  · rfl

theorem subscriptions_unsubscribe (filter : String) (c : Client η) :
    (c.unsubscribe filter).subscriptions = c.subscriptions.erase filter := by
  simp only [unsubscribe]
  split <;> rfl

theorem subscriptions_disconnect (k : Conditions) (c : Client η) : (c.disconnect k).2.subscriptions = c.subscriptions := by
  simp only [disconnect]
  split <;> rfl

end Client

/-! ### Signals -/

namespace Feed

theorem isMessage_signalOf {filter topic : String} {payload : ByteArray} {signal : Signal}
    (hsignal : signalOf? filter topic payload = some signal) : signal.isMessage = true := by
  unfold signalOf? at hsignal
  split at hsignal
  · cases hsignal
  · simp only at hsignal
    split at hsignal
    · cases hsignal
    · split at hsignal <;> cases hsignal <;> rfl

/-- What a delivery means depends on the settings and on whether the feed is subscribed. -/
theorem signalOfDelivery?_withDeliveries (f : Feed) (deliveries : List (Delivery Unit)) :
    ({ f with client := { f.client with deliveries } } : Feed).signalOfDelivery? = f.signalOfDelivery? := by
  funext d
  cases d with
  | message handler topic payload => rfl
  | connection watcher connected reason => cases connected <;> rfl

/-- More deliveries bring their signals after the others and change nothing else. -/
theorem collect_append (f : Feed) (delivered : List (Delivery Unit)) :
    ({ f with client := { f.client with deliveries := f.client.deliveries ++ delivered } } : Feed).collect =
      (f.collect.1 ++ delivered.filterMap f.signalOfDelivery?, f.collect.2) := by
  simp only [collect, signalOfDelivery?_withDeliveries, List.filterMap_append]

/-- The messages that come in with a subscription become signals about schemas; they leave the feed as it would be without them. -/
theorem collect_subscribe (k : Conditions) (f : Feed) :
    ∃ arrived : List Signal, (∀ signal ∈ arrived, signal.isMessage = true) ∧
      (f.subscribe k).collect = ((f.subscribe k.silent).collect.1 ++ arrived, (f.subscribe k.silent).collect.2) := by
  obtain ⟨delivered, hmessages, hfold⟩ := Client.foldl_message k.arrivals (f.subscribe k.silent).client
  refine ⟨delivered.filterMap (f.subscribe k.silent).signalOfDelivery?, ?_, ?_⟩
  · intro signal hsignal
    obtain ⟨d, hd, hsignal⟩ := List.mem_filterMap.1 hsignal
    obtain ⟨handler, topic, payload, rfl⟩ := hmessages d hd
    exact isMessage_signalOf hsignal
  · rw [← collect_append, ← hfold]
    rfl

theorem connect_of_error {k : Conditions} {f : Feed} {e : ClientError} {client : Client Unit}
    (hclient : f.client.connect k = (.error e, client)) :
    f.connect k = (.error e, ({ f with client } : Feed).collect.1, ({ f with client } : Feed).collect.2) := by
  unfold connect
  rw [hclient]

theorem connect_of_ok {k : Conditions} {f : Feed} {client : Client Unit} (hclient : f.client.connect k = (.ok (), client)) :
    f.connect k =
      let (first, collected) := ({ f with client } : Feed).collect
      let (second, subscribed) := (collected.subscribe k).collect
      (.ok (), first ++ second ++ [.connected], { subscribed with subscribed := true }) := by
  unfold connect
  rw [hclient]

/-- Whether messages come in does not show in a connection but for the signals about schemas. -/
theorem connect_silent (k : Conditions) (f : Feed) :
    (f.connect k.silent).1 = (f.connect k).1 ∧ (f.connect k.silent).2.2 = (f.connect k).2.2 ∧
      ((f.connect k.silent).2.1.filter fun signal => !signal.isMessage) =
        (f.connect k).2.1.filter fun signal => !signal.isMessage := by
  have hquiet : f.client.connect k.silent = f.client.connect k := rfl
  rcases hclient : f.client.connect k with ⟨e | _, client⟩
  · rw [hclient] at hquiet
    rw [connect_of_error hclient, connect_of_error hquiet]
    exact ⟨rfl, rfl, rfl⟩
  · rw [hclient] at hquiet
    rw [connect_of_ok hclient, connect_of_ok hquiet]
    obtain ⟨arrived, hmessages, hcollect⟩ := collect_subscribe k ({ f with client } : Feed).collect.2
    have hnone : arrived.filter (fun signal => !signal.isMessage) = [] := by
      rw [List.filter_eq_nil_iff]
      intro signal hsignal
      simp [hmessages signal hsignal]
    simp only [hcollect, List.filter_append, hnone, List.append_nil, and_self]

/-- A feed for the settings between two steps: all that its client delivered was turned into signals. -/
structure Idle (settings : BrokerSettings) (f : Feed) : Prop where
  settings : f.client.settings = settings
  deliveries : f.client.deliveries = []

variable {settings : BrokerSettings} {f : Feed}

theorem idle_collect (h : f.client.settings = settings) : f.collect.2.Idle settings := ⟨h, rfl⟩

theorem settings_subscribe (k : Conditions) (f : Feed) : (f.subscribe k).client.settings = f.client.settings := by
  obtain ⟨delivered, -, hfold⟩ := Client.foldl_message k.arrivals (f.client.subscribe f.client.settings.topic () f.client.settings.qos)
  simp only [subscribe, hfold]
  rfl

theorem idle_connect (k : Conditions) (h : f.client.settings = settings) : (f.connect k).2.2.Idle settings := by
  have hclient : (f.client.connect k).2.settings = settings := (Client.settings_connect k f.client).trans h
  rcases hresult : f.client.connect k with ⟨e | ⟨⟩, client⟩
  · rw [hresult] at hclient
    rw [connect_of_error hresult]
    exact idle_collect hclient
  · rw [hresult] at hclient
    rw [connect_of_ok hresult]
    exact ⟨(settings_subscribe k _).trans hclient, rfl⟩

theorem Idle.disconnect (h : f.Idle settings) (k : Conditions) : (f.disconnect k).Idle settings := by
  constructor
  · simp only [Feed.disconnect, Client.settings_disconnect]
    split
    · exact (Client.settings_unsubscribe _ _).trans h.settings
    · exact h.settings
  · simp only [Feed.disconnect, Client.deliveries_disconnect]
    split
    · exact (Client.deliveries_unsubscribe _ _).trans h.deliveries
    · exact h.deliveries

/-- The signals of a message that comes in are about the key that its topic gives. -/
theorem Idle.signals_message (h : f.Idle settings) {topic : String} {payload : ByteArray} {signal : Signal}
    (hsignal : signal ∈ (f.happen (·.message topic payload)).1) : signalOf? settings.topic topic payload = some signal := by
  have hdeliveries : (f.client.message topic payload).deliveries = (f.client.handlers topic).map (.message · topic payload) := by
    rw [Client.message, h.deliveries, List.nil_append]
  simp only [happen, collect, hdeliveries, List.filterMap_map, List.mem_filterMap, Function.comp_apply] at hsignal
  obtain ⟨handler, -, hsignal⟩ := hsignal
  rw [← h.settings]
  exact hsignal

/-! ### The subscription of a feed -/

/-- What happens to a feed: it is connected or disconnected, or its client takes note of something on the network. -/
inductive Event where
  | connect (k : Conditions)
  | disconnect (k : Conditions)
  | message (topic : String) (payload : ByteArray)
  | answered (code : Int)
  | ended (code : Int)

def undergo (f : Feed) : Event → Feed
  | .connect k => (f.connect k).2.2
  | .disconnect k => f.disconnect k
  | .message topic payload => (f.happen (·.message topic payload)).2
  | .answered code => (f.happen (·.answered code)).2
  | .ended code => (f.happen (·.ended code)).2

def undergoAll (f : Feed) (events : List Event) : Feed := events.foldl undergo f

/-- The one subscription that a feed of these settings makes. -/
def own (settings : BrokerSettings) : String × Subscription Unit := (settings.topic, ⟨(), settings.qos⟩)

/-- A feed for the settings between two steps: it is idle, and subscribes to nothing but the filter of the settings, and to that one as long as it takes itself to be subscribed. -/
structure Tuned (settings : BrokerSettings) (f : Feed) : Prop where
  idle : f.Idle settings
  only : f.client.subscriptions.entries = [] ∨ f.client.subscriptions.entries = [own settings]
  heard : f.subscribed = true → f.client.subscriptions.entries = [own settings]

theorem tuned_create (hcreate : create settings = .ok f) : f.Tuned settings := by
  unfold create Client.create at hcreate
  cases haddress : Address.parse settings.url with
  | error e => rw [haddress] at hcreate; cases hcreate
  | ok address =>
    rw [haddress] at hcreate
    cases hcreate
    exact ⟨⟨rfl, rfl⟩, Or.inl rfl, fun hsubscribed => by cases hsubscribed⟩

/-- To subscribe to the filter once more changes nothing about the subscription. -/
theorem subscriptions_subscribe (k : Conditions) (h : f.client.settings = settings)
    (honly : f.client.subscriptions.entries = [] ∨ f.client.subscriptions.entries = [own settings]) :
    (f.subscribe k).client.subscriptions.entries = [own settings] := by
  obtain ⟨delivered, -, hfold⟩ := Client.foldl_message k.arrivals (f.client.subscribe f.client.settings.topic () f.client.settings.qos)
  have hinsert : (f.subscribe k).client.subscriptions = f.client.subscriptions.insert settings.topic ⟨(), settings.qos⟩ := by
    simp only [subscribe]
    rw [hfold, h]
    rfl
  rw [hinsert]
  simp only [Dict.insert]
  rcases honly with hnone | hown
  · rw [hnone]
    rfl
  · rw [hown, own, Dict.place, if_pos rfl]

namespace Tuned

variable (h : f.Tuned settings)
include h

theorem happen {step : Client Unit → Client Unit} (hsettings : ∀ c, (step c).settings = c.settings)
    (hsubscriptions : ∀ c, (step c).subscriptions = c.subscriptions) : (f.happen step).2.Tuned settings where
  idle := idle_collect ((hsettings f.client).trans h.idle.settings)
  only := by simpa only [Feed.happen, collect, hsubscriptions] using h.only
  heard hsubscribed := by simpa only [Feed.happen, collect, hsubscriptions] using h.heard hsubscribed

theorem connect (k : Conditions) : (f.connect k).2.2.Tuned settings := by
  have hidle := idle_connect k h.idle.settings
  have hclient : (f.client.connect k).2.settings = settings := (Client.settings_connect k f.client).trans h.idle.settings
  have hsame : (f.client.connect k).2.subscriptions = f.client.subscriptions := Client.subscriptions_connect k f.client
  rcases hresult : f.client.connect k with ⟨e | ⟨⟩, client⟩
  · rw [connect_of_error hresult] at hidle ⊢
    rw [hresult] at hsame
    simp only at hsame
    exact ⟨hidle, by simpa only [collect, hsame] using h.only, by simpa only [collect, hsame] using h.heard⟩
  · rw [connect_of_ok hresult] at hidle ⊢
    rw [hresult] at hclient hsame
    simp only at hsame
    have honly : client.subscriptions.entries = [] ∨ client.subscriptions.entries = [own settings] := hsame ▸ h.only
    exact ⟨hidle, Or.inr (subscriptions_subscribe k hclient honly), fun _ => subscriptions_subscribe k hclient honly⟩

/-- A feed that is disconnected no longer takes itself to be subscribed. -/
theorem disconnect (k : Conditions) : (f.disconnect k).Tuned settings where
  idle := h.idle.disconnect k
  only := by
    simp only [Feed.disconnect, Client.subscriptions_disconnect]
    split
    · refine Or.inl ?_
      simp only [Client.subscriptions_unsubscribe, Dict.erase, h.idle.settings]
      rcases h.only with hnone | hown
      · rw [hnone]
        rfl
      · rw [hown]
        simp [own]
    · exact h.only
  heard hsubscribed := by cases hsubscribed

theorem undergo (event : Event) : (f.undergo event).Tuned settings := by
  cases event with
  | connect k => exact h.connect k
  | disconnect k => exact h.disconnect k
  | message topic payload => exact h.happen (fun _ => rfl) fun _ => rfl
  | answered code => exact h.happen (Client.settings_answered · code) (Client.subscriptions_answered · code)
  | ended code => exact h.happen (Client.settings_ended · code) (Client.subscriptions_ended · code)

theorem undergoAll (events : List Event) : (f.undergoAll events).Tuned settings := by
  induction events generalizing f with
  | nil => exact h
  | cons event rest ih => exact ih (h.undergo event)

/-- A subscribed feed signals what a message means that its filter admits, and signals it once. -/
theorem signals_message (hsubscribed : f.subscribed = true) {topic : String} {payload : ByteArray}
    (hadmits : TopicFilter.admits settings.topic topic = true) :
    (f.happen (·.message topic payload)).1 = (signalOf? settings.topic topic payload).toList := by
  have hhandlers : f.client.handlers topic = [()] := by
    rw [Client.handlers, h.heard hsubscribed, List.filter_singleton]
    simp [own, hadmits]
  have hdeliveries : (f.client.message topic payload).deliveries = [.message () topic payload] := by
    rw [Client.message, h.idle.deliveries, hhandlers]
    rfl
  have hsettings : (f.client.message topic payload).settings = settings := h.idle.settings
  simp only [Feed.happen, collect, hdeliveries, List.filterMap_cons, List.filterMap_nil, signalOfDelivery?, hsettings]
  cases signalOf? settings.topic topic payload <;> rfl

end Tuned

end Feed

end TagTypes.Broker
