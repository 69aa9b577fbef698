import Mathlib.Tactic
import TagTypes.Proofs.Broker.Session

/-!
# What watchers of a connection are told

A move tells all watchers the same or nothing at all. A connection that ends is news only if the client took it to be up, so that a watcher that was there before the first connection is never told of an end without having been told of a beginning since the last end.
-/

namespace TagTypes.Broker

variable {η : Type} {c : Client η}

/-- The last that was told is the beginning of a connection. -/
def Begun (told : List Bool) : Prop := ∃ earlier between, told = earlier ++ true :: between ∧ false ∉ between

/-- Each end has a beginning before it with no other end in between. -/
def Alternates (told : List Bool) : Prop := ∀ before after, told = before ++ false :: after → Begun before

theorem begun_concat_true (told : List Bool) : Begun (told ++ [true]) := ⟨told, [], rfl, List.not_mem_nil⟩

theorem alternates_nil : Alternates [] := fun before after h => by simp at h

theorem Alternates.concat {told : List Bool} (htold : Alternates told) (connected : Bool)
    (hbegun : connected = false → Begun told) : Alternates (told ++ [connected]) := by
  intro before after h
  rcases List.eq_nil_or_concat after with rfl | ⟨after, last, rfl⟩
  · obtain ⟨rfl, hlast⟩ := List.append_inj' h rfl
    exact hbegun (List.singleton_inj.1 hlast)
  · rw [List.concat_eq_append, ← List.cons_append, ← List.append_assoc] at h
    exact htold before after (List.append_inj' h rfl).1

/-- What a delivery tells a watcher about the connection. -/
def Delivery.news? : Delivery η → Option (η × Bool)
  | .message .. => none
  | .connection watcher connected _ => some (watcher, connected)

/-- The end of a connection that was up is told, unless it was wanted. -/
theorem Client.ended_cases (c : Client η) (code : Int) : ∃ asked : List Request,
    c.ended code = ({ c with connected := false } : Client η).ask asked ∨
      c.connected = true ∧
        c.ended code = (({ c with connected := false } : Client η).ask asked).notify false (Text.intText code) := by
  by_cases hcode : code = 0
  · exact ⟨[], Or.inl (by simp [ended, hcode, ask])⟩
  · refine ⟨if c.settings.automaticReconnect then [] else [.stopLoop], ?_⟩
    rcases hup : c.connected with _ | _
    · refine Or.inl ?_
      simp only [ended, if_neg hcode, hup, Bool.false_eq_true, if_false]
      split <;> simp [ask]
    · refine Or.inr ⟨rfl, ?_⟩
      simp only [ended, if_neg hcode, hup, if_true]
      split <;> simp [ask]

namespace Move

/-- What a move tells the watchers, in the order in which they were added. -/
def news (c : Client η) (move : Move η) : List (η × Bool) :=
  ((move.make c).deliveries.drop c.deliveries.length).filterMap Delivery.news?

/-- What moves tell the watcher that `i` others were added before. -/
def told (i : Nat) : Client η → List (Move η) → List (η × Bool)
  | _, [] => []
  | c, move :: moves => (move.news c)[i]?.toList ++ told i (move.make c) moves

theorem news_of_deliveries {move : Move η} (delivered : List (Delivery η))
    (hdeliveries : (move.make c).deliveries = c.deliveries ++ delivered) :
    move.news c = delivered.filterMap Delivery.news? := by
  rw [news, hdeliveries, List.drop_left]

theorem filterMap_notify (watchers : List η) (connected : Bool) (reason : String) :
    (watchers.map (Delivery.connection · connected reason)).filterMap Delivery.news? = watchers.map (·, connected) := by
  rw [List.filterMap_map, ← List.filterMap_eq_map]
  rfl

/-- The three kinds of moves: a connection that comes up is told, so is the end of one that was up, and nothing else is. -/
theorem news_cases (c : Client η) (move : Move η) :
    move.news c = [] ∧ ((move.make c).connected = true → c.connected = true) ∨
      move.news c = c.watchers.map (·, true) ∧ move.opens = true ∨
      move.news c = c.watchers.map (·, false) ∧ c.connected = true ∧ (move.make c).connected = false := by
  cases move with
  | watch watcher => exact Or.inl ⟨news_of_deliveries [] (List.append_nil _).symm, id⟩
  | connect k =>
    obtain ⟨asked, -, ⟨-, hclient⟩ | ⟨hopens, hclient⟩⟩ := Link.connect_cases k c
    · refine Or.inl ⟨news_of_deliveries [] ?_, ?_⟩ <;> simp [make, hclient, Client.ask]
    · refine Or.inr (Or.inl ⟨?_, hopens⟩)
      rw [← filterMap_notify c.watchers true ""]
      apply news_of_deliveries
      simp [make, hclient, Client.ask, Client.answered, Client.notify]
  | disconnect k =>
    refine Or.inl ⟨news_of_deliveries [] ?_, ?_⟩ <;> simp only [make, Client.disconnect] <;> split <;>
      simp [Client.ask]
  | publish k topic payload qos retain => exact Or.inl ⟨news_of_deliveries [] (List.append_nil _).symm, id⟩
  | subscribe filter handler qos => exact Or.inl ⟨news_of_deliveries [] (List.append_nil _).symm, id⟩
  | unsubscribe filter =>
    refine Or.inl ⟨news_of_deliveries [] ?_, ?_⟩ <;> simp only [make, Client.unsubscribe] <;> split <;>
      simp_all [Client.ask]
  | message topic payload =>
    refine Or.inl ⟨?_, id⟩
    rw [news_of_deliveries ((c.handlers topic).map (.message · topic payload)) rfl, List.filterMap_map]
    exact List.filterMap_eq_nil_iff.2 fun _ _ => rfl
  | answered code =>
    by_cases hcode : code = 0
    · refine Or.inr (Or.inl ⟨?_, by simp [opens, hcode]⟩)
      rw [← filterMap_notify c.watchers true ""]
      apply news_of_deliveries
      simp [make, Client.answered, hcode, Client.ask, Client.notify]
    · have hclient : (Move.answered code).make c = c := if_neg hcode
      refine Or.inl ⟨news_of_deliveries [] ?_, ?_⟩ <;> simp [hclient]
  | ended code =>
    obtain ⟨asked, hclient | ⟨hup, hclient⟩⟩ := Client.ended_cases c code
    · refine Or.inl ⟨news_of_deliveries [] ?_, ?_⟩ <;> simp [make, hclient, Client.ask]
    · refine Or.inr (Or.inr ⟨?_, hup, by simp only [make, hclient]; rfl⟩)
      rw [← filterMap_notify c.watchers false (Text.intText code)]
      apply news_of_deliveries
      simp only [make, hclient]
      rfl

theorem watchers_make (c : Client η) (move : Move η) : c.watchers <+: (move.make c).watchers := by
  cases move with
  | watch watcher => exact List.prefix_append ..
  | connect k =>
    obtain ⟨asked, -, ⟨-, hclient⟩ | ⟨-, hclient⟩⟩ := Link.connect_cases k c <;> simp only [make, hclient] <;>
      exact List.prefix_rfl
  | disconnect k => simp only [make, Client.disconnect]; split <;> exact List.prefix_rfl
  | publish k topic payload qos retain | subscribe filter handler qos | message topic payload => exact List.prefix_rfl
  | unsubscribe filter => simp only [make, Client.unsubscribe]; split <;> exact List.prefix_rfl
  | answered code => simp only [make, Client.answered]; split <;> exact List.prefix_rfl
  | ended code => simp only [make, Client.ended]; split_ifs <;> exact List.prefix_rfl

/-- Before a connection is opened, nothing is told. -/
theorem told_of_closed (i : Nat) (moves : List (Move η)) (hdown : c.connected = false)
    (hclosed : ∀ move ∈ moves, move.opens = false) :
    told i c moves = [] ∧ (moves.foldl (fun c move => move.make c) c).connected = false := by
  induction moves generalizing c with
  | nil => exact ⟨rfl, hdown⟩
  | cons move moves ih =>
    obtain ⟨hmove, hmoves⟩ := List.forall_mem_cons.1 hclosed
    rcases news_cases c move with ⟨hnews, hup⟩ | ⟨-, hopens⟩ | ⟨-, hup, -⟩
    · have hdown : (move.make c).connected = false := Bool.eq_false_iff.2 fun h => Bool.eq_false_iff.1 hdown (hup h)
      obtain ⟨htold, hlast⟩ := ih hdown hmoves
      exact ⟨by rw [told, hnews, htold]; rfl, hlast⟩
    · rw [hmove] at hopens
      cases hopens
    · rw [hdown] at hup
      cases hup

theorem told_append (i : Nat) (before after : List (Move η)) (c : Client η) :
    told i c (before ++ after) = told i c before ++ told i (before.foldl (fun c move => move.make c) c) after := by
  induction before generalizing c with
  | nil => rfl
  | cons move before ih => rw [List.cons_append, told, told, ih, List.append_assoc, List.foldl_cons]

/-- A watcher that has heard of the beginning of the connection that is up, if one is, goes on to hear of beginnings and ends in turn. -/
theorem alternates_told {i : Nat} {watcher : η} (moves : List (Move η)) (hwatcher : c.watchers[i]? = some watcher)
    {heard : List Bool} (hheard : Alternates heard) (hbegun : c.connected = true → Begun heard) :
    ∃ news, told i c moves = news.map (watcher, ·) ∧ Alternates (heard ++ news) := by
  induction moves generalizing c heard with
  | nil => exact ⟨[], rfl, by rwa [List.append_nil]⟩
  | cons move moves ih =>
    have hnext : (move.make c).watchers[i]? = some watcher := by
      obtain ⟨added, hadded⟩ := watchers_make c move
      rw [← hadded, List.getElem?_append_left (List.getElem?_eq_some_iff.1 hwatcher).1, hwatcher]
    rcases news_cases c move with ⟨hnews, hup⟩ | ⟨hnews, -⟩ | ⟨hnews, hup, hdown⟩
    · obtain ⟨news, htold, halternates⟩ := ih hnext hheard fun h => hbegun (hup h)
      exact ⟨news, by rw [told, hnews, htold]; rfl, halternates⟩
    · obtain ⟨news, htold, halternates⟩ := ih hnext (hheard.concat true (by simp)) fun _ => begun_concat_true heard
      refine ⟨true :: news, ?_, by rwa [List.append_assoc] at halternates⟩
      rw [told, hnews, htold, List.getElem?_map, hwatcher]
      rfl
    · obtain ⟨news, htold, halternates⟩ := ih hnext (hheard.concat false fun _ => hbegun hup) fun h => by
        rw [hdown] at h; cases h
      refine ⟨false :: news, ?_, by rwa [List.append_assoc] at halternates⟩
      rw [told, hnews, htold, List.getElem?_map, hwatcher]
      rfl

end Move

/-- A client that was just made has neither a connection nor subscriptions. -/
theorem Client.create_eq {settings : BrokerSettings} {id : Option String} {client : Client η}
    (hclient : Client.create settings id = .ok client) : client.connected = false ∧ client.subscriptions = ∅ := by
  unfold create at hclient
  cases haddress : Address.parse settings.url with
  | error e => rw [haddress] at hclient; cases hclient
  | ok address => rw [haddress] at hclient; cases hclient; exact ⟨rfl, rfl⟩

/-- Whatever is done with a client and whatever the network tells it: the client knows whether its session is connected; while it is, the session has the subscriptions of the client with the qualities of service last asked for; and a watcher that was added before a connection came up is told of an end only if it was told of a beginning since the last end. -/
theorem reconnections {settings : BrokerSettings} {id : Option String} {client : Client η}
    (hclient : Client.create settings id = .ok client) (moves : List (Move η)) :
    let link := ({ client } : Link η).run moves
    link.session.connected = link.client.connected ∧
    (link.client.connected = true → ∀ filter,
      link.session.filters.get? filter = (link.client.subscriptions.get? filter).map Subscription.qos ∧
        link.session.filters.get? filter = lastWish? moves filter) ∧
    ∀ before after, moves = before ++ after → (∀ move ∈ before, move.opens = false) →
      ∀ i watcher, (({ client } : Link η).run before).client.watchers[i]? = some watcher →
        ∃ news, Move.told i client moves = news.map (watcher, ·) ∧ Alternates news := by
  intro link
  obtain ⟨hdown, hempty⟩ := Client.create_eq hclient
  have hagrees : link.Agrees :=
    Link.Agrees.run ⟨hdown.symm, fun hup => absurd (hdown.symm.trans hup) Bool.false_ne_true⟩ moves
  refine ⟨hagrees.connected, fun hup filter => ⟨hagrees.filters hup filter, ?_⟩, ?_⟩
  · rw [hagrees.filters hup filter, Link.client_run, Move.qos_foldl_make, hempty]
    rfl
  · rintro before after rfl hclosed i watcher hwatcher
    obtain ⟨hnone, hstill⟩ := Move.told_of_closed i before hdown hclosed
    rw [Link.client_run] at hwatcher
    obtain ⟨news, htold, halternates⟩ := Move.alternates_told after hwatcher alternates_nil fun hup =>
      absurd (hstill.symm.trans hup) Bool.false_ne_true
    exact ⟨news, by rw [Move.told_append, hnone, htold]; rfl, halternates⟩

/-- A client with the settings that hold by default. -/
def made : Client String := (Client.create {} none).toOption.getD default

/-- While the connection is down, one filter is dropped and another is added; a third has changed its quality of service before. -/
def dropped : List (Move String) :=
  [.watch "panel", .subscribe "a/#" "first" 1, .subscribe "b" "second" 0, .answered 5, .answered 0,
    .subscribe "a/#" "first" 2, .ended 7, .unsubscribe "b", .subscribe "c" "third" 1, .answered 0]

theorem reconnections_dropped :
    (({ client := made } : Link String).run dropped).session.filters.get? "a/#" = some 2 ∧
    (({ client := made } : Link String).run dropped).session.filters.get? "b" = none ∧
    (({ client := made } : Link String).run dropped).session.filters.get? "c" = some 1 ∧
    Move.told 0 made dropped = [true, false, true].map ("panel", ·) ∧ Alternates [true, false, true] := by
  have hmade : Client.create {} none = .ok made := by rfl
  obtain ⟨-, hfilters, hwatchers⟩ := reconnections hmade dropped
  have hup : (({ client := made } : Link String).run dropped).client.connected = true := by decide +kernel
  have htold : Move.told 0 made dropped = [true, false, true].map ("panel", ·) := by decide +kernel
  obtain ⟨news, hnews, halternates⟩ := hwatchers [.watch "panel"] _ rfl (by decide) 0 "panel" (by decide +kernel)
  have hinjective : Function.Injective (fun connected : Bool => ("panel", connected)) := fun _ _ h => congrArg Prod.snd h
  refine ⟨(hfilters hup "a/#").2.trans (by decide +kernel), (hfilters hup "b").2.trans (by decide +kernel),
    (hfilters hup "c").2.trans (by decide +kernel), htold, ?_⟩
  rwa [hinjective.list_map (hnews.symm.trans htold)] at halternates

end TagTypes.Broker
