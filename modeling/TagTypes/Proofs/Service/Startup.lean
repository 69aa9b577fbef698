import Mathlib.Tactic
import TagTypes.Proofs.Broker.Feed
import TagTypes.Proofs.Service.Messages

/-!
# Messages while a service starts

A feed subscribes before the service that starts it runs, so that messages come in while the service does not count them. They leave no trace: the started service is the one to which no message came. It is as if they had been taken afterwards only if to take them would change nothing.
-/

namespace TagTypes

namespace Service

variable {s : Service}

theorem handle_message (hstopped : s.running = false) {signal : Broker.Signal} (hmessage : signal.isMessage = true) :
    s.handle signal = s := by
  have hinactive : s.activeCache? = none := by simp [activeCache?, hstopped]
  cases signal with
  | received name text => exact received_inactive hinactive
  | deleted name => exact deleted_inactive hinactive
  | connected => cases hmessage
  | disconnected cause => cases hmessage

/-- While a service does not run, only signals about the connection count. -/
theorem foldl_handle_stopped (signals : List Broker.Signal) : ∀ {s : Service}, s.running = false →
    signals.foldl handle s = (signals.filter fun signal => !signal.isMessage).foldl handle s := by
  induction signals with
  | nil => exact fun _ => rfl
  | cons signal rest ih =>
    intro s hstopped
    rw [List.foldl_cons]
    cases hmessage : signal.isMessage with
    | true =>
      rw [handle_message hstopped hmessage, List.filter_cons_of_neg (by simp [hmessage])]
      exact ih hstopped
    | false =>
      have hstill : (s.handle signal).running = false := by
        cases signal with
        | received name text => cases hmessage
        | deleted name => cases hmessage
        | connected => exact hstopped
        | disconnected cause => exact hstopped
      rw [List.filter_cons_of_pos (by simp [hmessage]), List.foldl_cons]
      exact ih hstill

/-- The feed of a service that does not run is made as if no message came in. -/
theorem startFeed_silent (hstopped : s.running = false) (k : Broker.Conditions) :
    s.startFeed k.silent = s.startFeed k := by
  unfold startFeed
  cases Broker.Feed.create s.settings.broker with
  | error e => rfl
  | ok feed =>
    obtain ⟨hresult, hfeed, hsignals⟩ := feed.connect_silent k
    have hhandled : ∀ signals : List Broker.Signal, signals.foldl handle { s with feed := some (feed.connect k).2.2, attached := true } =
        (signals.filter fun signal => !signal.isMessage).foldl handle
          { s with feed := some (feed.connect k).2.2, attached := true } :=
      fun signals => foldl_handle_stopped signals hstopped
    simp only [hresult, hfeed]
    rw [hhandled (feed.connect k).2.1, hhandled (feed.connect k.silent).2.1, hsignals]

/-- A service that does not run starts as if no message came in while its feed connects. -/
theorem start_silent (hstopped : s.running = false) (k : Broker.Conditions) : s.start k.silent = s.start k := by
  rcases hprepare : SchemaCache.prepare { directory := cacheDirectory s.settings } s.disk with ⟨e | cache, disk⟩
  · rw [start_unprepared hprepare, start_unprepared hprepare]
  · have hfeed := startFeed_silent (s := { s.cleared.withDisk disk with cache := some cache }) hstopped k
    rw [start_prepared hprepare, start_prepared hprepare]
    simp only [startWith, hfeed]

/-! ### Lost messages -/

/-- The message of a signal about a schema. -/
def messageOf? : Broker.Signal → Option Message
  | .received name text => some (.received name text)
  | .deleted name => some (.deleted name)
  | .connected | .disconnected _ => none

/-- The messages that come in while a service starts. -/
def arriving (s : Service) (k : Broker.Conditions) : List Message :=
  if s.settings.broker.enabled && s.hasSource then (signalsOf s.settings.broker k).filterMap messageOf? else []

/-- On an empty cache directory every schema that the last message about a key brings is lost. -/
theorem not_alike_of_lastSchema? (hs : Fresh s) (hstopped : s.running = false)
    (harrange : s.arrange = fun schemas => some (Dependency.order schemas)) (k : Broker.Conditions) {cache : SchemaCache}
    {disk : Disk} (hprepare : SchemaCache.prepare { directory := cacheDirectory s.settings } s.disk = (.ok cache, disk))
    (hempty : disk.isEmptyAt (cacheDirectory s.settings) = true)
    (hapart : Apart (cacheDirectory s.settings) (s.arriving k)) {key : String} {schema : Schema}
    (hlast : lastSchema? (cacheDirectory s.settings) (s.arriving k) key = some schema) :
    ¬Alike (s.start k) ((s.start k.silent).takeAll (s.arriving k)) := by
  intro halike
  obtain ⟨q, hstarted⟩ := hs.working_start hstopped harrange k hprepare hempty
  obtain ⟨before, hbefore, -, hnone⟩ := hstarted.active
  rw [← start_silent hstopped k] at hstarted
  obtain ⟨q', htaken⟩ := hstarted.takeAll hapart
  obtain ⟨after, hafter, -, hsome⟩ := htaken.active
  have hcached : before.entries.get? key = after.entries.get? key := by
    rw [← cached?_of_activeCache? hbefore, ← cached?_of_activeCache? hafter, halike.cached]
  have hschema : before.schema? key = after.schema? key := SchemaCache.schema?_congr hcached
  rw [hnone, hsome, hlast] at hschema
  cases hschema

/-- After the start of a service that did not run, cache, files and provider are as if the messages that came in meanwhile had been taken one after the other, if and only if to take them after a start without messages would leave cache, files and provider as they are: the messages have left no trace. On an empty cache directory that takes that they bring no schema: they are lost as soon as the last accepted message about some key brought one. -/
theorem alike_start_iff (hstopped : s.running = false) (k : Broker.Conditions) :
    s.start k = s.start k.silent ∧
      (Alike (s.start k) ((s.start k.silent).takeAll (s.arriving k)) ↔
        Alike (s.start k.silent) ((s.start k.silent).takeAll (s.arriving k))) ∧
      ∀ cache disk, Fresh s → (s.arrange = fun schemas => some (Dependency.order schemas)) →
        SchemaCache.prepare { directory := cacheDirectory s.settings } s.disk = (.ok cache, disk) →
        disk.isEmptyAt (cacheDirectory s.settings) = true → Apart (cacheDirectory s.settings) (s.arriving k) →
        ∀ key schema, lastSchema? (cacheDirectory s.settings) (s.arriving k) key = some schema →
          ¬Alike (s.start k) ((s.start k.silent).takeAll (s.arriving k)) := by
  refine ⟨(start_silent hstopped k).symm, by rw [start_silent hstopped k], ?_⟩
  intro cache disk hs harrange hprepare hempty hapart key schema hlast
  exact not_alike_of_lastSchema? hs hstopped harrange k hprepare hempty hapart hlast

/-- A fresh service with a broker. -/
def listening : Service := { ofMemory with settings := {} }

/-- A message with a title comes in for the key `a`. -/
def bringing (title : String) : Broker.Conditions := { arrivals := [("ignition/schemas/a", (titled title).toUTF8)] }

theorem fresh_listening : Fresh listening := ⟨rfl, by decide +kernel, rfl, rfl⟩

theorem exists_prepare_listening : ∃ cache disk,
    SchemaCache.prepare { directory := cacheDirectory listening.settings } listening.disk = (.ok cache, disk) ∧
      disk.isEmptyAt (cacheDirectory listening.settings) = true :=
  SchemaCache.exists_prepare_of_isEmptyAt (by decide +kernel)

theorem apart_bringing : Apart (cacheDirectory listening.settings) (listening.arriving (bringing "T")) :=
  ⟨by decide +kernel, by decide +kernel⟩

/-- Neither is the schema cached nor its type registered, which taking the message would have brought about. -/
theorem lost_bringing :
    (listening.start (bringing "T")).cached? "a" = none ∧ "T" ∉ (listening.start (bringing "T")).registry.registered ∧
      ¬Alike (listening.start (bringing "T"))
        ((listening.start (bringing "T").silent).takeAll (listening.arriving (bringing "T"))) := by
  obtain ⟨hsilent, -, hlost⟩ := alike_start_iff (s := listening) rfl (bringing "T")
  obtain ⟨cache, disk, hprepare, hempty⟩ := exists_prepare_listening
  have hbrought : (lastSchema? (cacheDirectory listening.settings) (listening.arriving (bringing "T")) "a").isSome = true := by
    decide +kernel
  obtain ⟨schema, hlast⟩ := Option.isSome_iff_exists.1 hbrought
  have hgone : (listening.start (bringing "T").silent).cached? "a" = none ∧
      "T" ∉ (listening.start (bringing "T").silent).registry.registered := by
    decide +kernel
  rw [← hsilent] at hgone
  exact ⟨hgone.1, hgone.2, hlost cache disk fresh_listening rfl hprepare hempty apart_bringing "a" schema hlast⟩

/-- A started service would have cached the schema. -/
theorem not_alike_bringing : ¬∀ (s : Service) (k : Broker.Conditions), Fresh s → s.running = false →
    Alike (s.start k) ((s.start k.silent).takeAll (s.arriving k)) := by
  intro hall
  have hcached := congrFun (hall listening (bringing "T") fresh_listening rfl).cached "a"
  have hrun : ((listening.start (bringing "T")).cached? "a").isSome = false ∧
      (((listening.start (bringing "T").silent).takeAll (listening.arriving (bringing "T"))).cached? "a").isSome = true := by
    decide +kernel
  rw [hcached, hrun.2] at hrun
  cases hrun.1

end Service

end TagTypes
