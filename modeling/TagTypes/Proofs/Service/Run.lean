import Mathlib.Tactic
import TagTypes.Proofs.Registry.Backed
import TagTypes.Proofs.Service.Memory

/-!
# Runs of a service

A service is started and stopped, gets messages and scans, and between these steps others may do to the disk what they like. Whatever happens, a service whose provider is in memory stays one, registers only names that can name a tag, and keeps its cache coherent.
-/

namespace TagTypes.Service

open Registry (AllNamed)
open SchemaCache (Coherent)

/-- What a service is told about the schema of a key. -/
inductive Message where
  | received (key text : String)
  | deleted (key : String)

def Message.key : Message → String
  | .received key _ => key
  | .deleted key => key

def take (s : Service) : Message → Service
  | .received key text => s.received key text
  | .deleted key => s.deleted key

/-- What may happen to a service; `edit` is a change of the disk by others. -/
inductive Action where
  | start (k : Broker.Conditions)
  | stop (k : Broker.Conditions)
  | message (m : Message)
  | scan
  | edit (disk : Disk)

def perform (s : Service) : Action → Service
  | .start k => s.start k
  | .stop k => s.stop k
  | .message m => s.take m
  | .scan => s.scan
  | .edit disk => s.withDisk disk

/-- The states that a service comes to by actions that are allowed where they happen. -/
inductive Reaches (allowed : Service → Action → Prop) (s : Service) : Service → Prop
  | here : Reaches allowed s s
  | next {t : Service} (a : Action) (ht : Reaches allowed s t) (ha : allowed t a) : Reaches allowed s (t.perform a)

/-- The service may delete types, its provider is in memory with the registry `q` over its tags, and its cache is coherent. -/
structure Orderly (s : Service) (q : Registry Tags) : Prop where
  allowDelete : s.allowDelete = true
  holds : s.Holds q
  named : AllNamed q.registered
  coherent : ∀ cache, s.cache = some cache → Coherent cache.entries

/-- A schema under some key has the name. -/
def HasName (cache : SchemaCache) (name : String) : Prop := ∃ key schema, cache.schema? key = some schema ∧ schema.name = name

variable {s : Service} {q : Registry Tags}

/-- A type is registered and stored. -/
def Present (s : Service) (type : String) : Prop :=
  type ∈ s.registry.registered ∧ (s.registry.tags.config? s.settings.provider.name (Registry.typePath type)).isSome = true

theorem Holds.present_iff (h : s.Holds q) {type : String} :
    s.Present type ↔ type ∈ q.registered ∧ (q.tags.config? (Registry.typePath type)).isSome = true := by
  rw [Present, h.registered, h.config?]

theorem activeCache?_eq_some_iff {cache : SchemaCache} :
    s.activeCache? = some cache ↔ s.running = true ∧ s.cache = some cache := by
  unfold activeCache?
  cases s.running <;> simp

/-! ### Comparing services -/

/-- What is cached under a key. -/
def cached? (s : Service) (key : String) : Option CachedSchema := s.cache.bind (·.entries.get? key)

/-- The definition that the provider of the service has at a path. -/
def config? (s : Service) (path : String) : Option Json :=
  (s.registry.tags.directory.find? s.settings.provider.name).bind fun index =>
    s.registry.tags.providers[index]?.bind (Provider.config? path)

/-- Two services have the same schemas in their caches, the same files and the same definitions in their providers. -/
structure Alike (s t : Service) : Prop where
  cached : s.cached? = t.cached?
  files : s.disk.node? = t.disk.node?
  stored : s.config? = t.config?

theorem Holds.config?_eq (h : s.Holds q) : s.config? = q.tags.config? := by
  obtain ⟨-, index, own, hfind, hprovider⟩ := Depot.memory?_eq_some_iff.1 (Registry.Related.tags h).1
  funext path
  rw [Service.config?, hfind, Option.bind_some, hprovider]
  rfl

theorem cached?_of_activeCache? {cache : SchemaCache} (hactive : s.activeCache? = some cache) :
    s.cached? = cache.entries.get? := by
  funext key
  rw [cached?, (activeCache?_eq_some_iff.1 hactive).2]
  rfl

/-! ### Starting and stopping -/

/-- The signals that come in while a feed connects. -/
def signalsOf (settings : BrokerSettings) (k : Broker.Conditions) : List Broker.Signal :=
  match Broker.Feed.create settings with
  | .error _ => []
  | .ok feed => (feed.connect k).2.1

/-- The service without registered types, as a start begins with it. -/
def cleared (s : Service) : Service := { s with registry := { s.registry with registered := [] } }

theorem start_unprepared {k : Broker.Conditions} {e : CacheError} {disk : Disk}
    (hprepare : SchemaCache.prepare { directory := cacheDirectory s.settings } s.disk = (.error e, disk)) :
    s.start k = { s.cleared.withDisk disk with running := true } := by
  have hcleared : s.cleared.disk = s.disk := rfl
  rw [← hcleared] at hprepare
  unfold start
  simp only
  split
  · rename_i heq
    cases heq.symm.trans hprepare
    rfl
  · rename_i heq
    cases heq.symm.trans hprepare

theorem start_prepared {k : Broker.Conditions} {cache : SchemaCache} {disk : Disk}
    (hprepare : SchemaCache.prepare { directory := cacheDirectory s.settings } s.disk = (.ok cache, disk)) :
    s.start k = (s.cleared.withDisk disk).startWith k cache := by
  have hcleared : s.cleared.disk = s.disk := rfl
  rw [← hcleared] at hprepare
  unfold start
  simp only
  split
  · rename_i heq
    cases heq.symm.trans hprepare
  · rename_i heq
    cases heq.symm.trans hprepare
    rfl

/-- What holds of a service while its feed connects: the feed is exchanged and the signals are handled. -/
theorem startFeed_induction {P : Service → Prop} {k : Broker.Conditions}
    (hfeed : ∀ (t : Service) (feed : Option Broker.Feed) (attached : Bool), P t → P { t with feed, attached })
    (hsignals : ∀ signal ∈ signalsOf s.settings.broker k, ∀ t, P t → P (t.handle signal)) (hs : P s) : P (s.startFeed k).2 := by
  unfold signalsOf at hsignals
  unfold startFeed
  cases hcreate : Broker.Feed.create s.settings.broker with
  | error e => exact hs
  | ok feed =>
    rw [hcreate] at hsignals
    simp only at hsignals ⊢
    rcases hconnect : feed.connect k with ⟨result, signals, feed'⟩
    rw [hconnect] at hsignals
    have hhandled : P (signals.foldl Service.handle { s with feed := some feed', attached := true }) := by
      apply List.foldlRecOn signals Service.handle (hfeed s (some feed') true hs)
      intro t ht signal hsignal
      exact hsignals signal hsignal t ht
    simp only
    split <;> exact hhandled

theorem startScanning_eq (s : Service) : ∃ scanning timer, s.startScanning = { s with scanning, timer } := by
  unfold startScanning
  simp only
  split
  · exact ⟨s.scanning, s.timer, rfl⟩
  · exact ⟨true, _, rfl⟩

theorem stop_eq (k : Broker.Conditions) (s : Service) :
    ∃ feed attached scanning timer, s.stop k = { s with running := false, feed, attached, scanning, timer } := by
  unfold stop
  simp only
  split <;> split <;> exact ⟨_, _, _, _, rfl⟩

/-- What holds of a service before it runs and while it runs, from the parts of its start. -/
theorem startWith_induction {P Q : Service → Prop} {k : Broker.Conditions} {cache : SchemaCache}
    (hfeed : ∀ (t : Service) (feed : Option Broker.Feed) (attached : Bool), P t → P { t with feed, attached })
    (hsignals : ∀ signal ∈ signalsOf s.settings.broker k, ∀ t, P t → P (t.handle signal))
    (hrunning : ∀ t, P t → Q { t with running := true })
    (hsync : ∀ t, Q t → Q (t.syncAll ((t.cache.map SchemaCache.schemas).getD [])))
    (hscanning : ∀ (t : Service) (scanning : Bool) (timer : List TimerCall), Q t → Q { t with scanning, timer })
    (hs : P { s with cache := some cache }) : Q (s.startWith k cache) := by
  have hscanned : ∀ t, Q t → Q t.startScanning := by
    intro t ht
    obtain ⟨scanning, timer, heq⟩ := startScanning_eq t
    rw [heq]
    exact hscanning t scanning timer ht
  unfold startWith
  simp only
  split
  · have hconnected : P (startFeed k { s with cache := some cache }).2 := startFeed_induction hfeed hsignals hs
    rcases hstarted : startFeed k { s with cache := some cache } with ⟨sound, t⟩
    rw [hstarted] at hconnected
    simp only
    split
    · exact hscanned _ (hsync _ (hrunning t hconnected))
    · exact hrunning t hconnected
  · exact hscanned _ (hsync _ (hrunning _ hs))

namespace Orderly

theorem withDisk (h : Orderly s q) (disk : Disk) : Orderly (s.withDisk disk) q :=
  ⟨h.allowDelete, h.holds.withDisk disk, h.named, h.coherent⟩

theorem tell (h : Orderly s q) (e : Event) : Orderly (s.tell e) (q.tell e) :=
  ⟨h.allowDelete, h.holds.tell e, h.named, h.coherent⟩

theorem withCache (h : Orderly s q) (cache : SchemaCache) (hcache : Coherent cache.entries) :
    Orderly { s with cache := some cache } q :=
  ⟨h.allowDelete, h.holds, h.named, fun _ heq => by cases heq; exact hcache⟩

theorem cleared (h : Orderly s q) : Orderly s.cleared { q with registered := [] } :=
  ⟨h.allowDelete, ⟨h.holds.tags, rfl, h.holds.log⟩, by simp [AllNamed], h.coherent⟩

theorem removeType (h : Orderly s q) (type : String) :
    Orderly (s.removeType type) (q.remove (Tags.access s.arrange) type).2 :=
  ⟨h.allowDelete, h.holds.removeType type, h.named.remove type, h.coherent⟩

theorem syncAll (h : Orderly s q) (schemas : List Schema) :
    Orderly (s.syncAll schemas) (q.syncAll (Tags.access s.arrange) schemas).2 :=
  ⟨h.allowDelete, h.holds.syncAll schemas, h.named.syncAll schemas, h.coherent⟩

theorem replace (h : Orderly s q) (previous : Option Schema) (schema : Schema) :
    Orderly (s.withRegistry (s.registry.replace s.access previous schema))
      (q.replace (Tags.access s.arrange) previous schema) :=
  ⟨h.allowDelete, h.holds.replace previous schema, h.named.replace previous schema, h.coherent⟩

theorem admitted (h : Orderly s q) {cache saved : SchemaCache} (hcached : s.cache = some cache) {key text : String}
    {schema : Schema} {disk : Disk} (hsave : cache.save key text s.disk = (.ok (schema, saved), disk)) :
    Orderly (s.admitted saved disk key) (q.tell (.schemaReceived key)) := by
  obtain ⟨-, hparse, rfl⟩ := SchemaCache.save_ok hsave
  exact ((h.withCache { cache with entries := cache.entries.insert key ⟨schema, text⟩ }
    ((h.coherent cache hcached).insert hparse)).withDisk disk).tell (.schemaReceived key)

theorem received (h : Orderly s q) (key text : String) : ∃ q', Orderly (s.received key text) q' := by
  cases hactive : s.activeCache? with
  | none => exact ⟨q, by rw [received_inactive hactive]; exact h⟩
  | some cache =>
    rcases hsave : cache.save key text s.disk with ⟨e | ⟨schema, saved⟩, disk⟩
    · rw [received_rejected hactive hsave]
      exact ⟨_, (h.withDisk disk).tell _⟩
    · have hadmitted := h.admitted (activeCache?_eq_some_iff.1 hactive).2 hsave
      rw [received_saved hactive h.allowDelete hsave]
      exact ⟨_, hadmitted.replace _ _⟩

theorem deleted (h : Orderly s q) (key : String) : ∃ q', Orderly (s.deleted key) q' := by
  cases hactive : s.activeCache? with
  | none => exact ⟨q, by rw [deleted_inactive hactive]; exact h⟩
  | some cache =>
    have hcache := h.coherent cache (activeCache?_eq_some_iff.1 hactive).2
    have hremoved := h.removeType (typeOf cache key)
    rcases hremove : cache.remove key (s.removeType (typeOf cache key)).disk with ⟨e | saved, disk⟩
    · rw [deleted_kept hactive h.allowDelete hremove]
      exact ⟨_, hremoved.withDisk disk⟩
    · obtain ⟨-, rfl⟩ := SchemaCache.remove_ok hremove
      rw [deleted_removed hactive h.allowDelete hremove]
      exact ⟨_, ((hremoved.withCache { cache with entries := cache.entries.erase key }
        (hcache.erase key)).withDisk disk).tell _⟩

theorem reloaded (h : Orderly s q) (cache : SchemaCache) :
    Orderly (s.reloaded cache) (q.removeEach (Tags.access s.arrange)
      (staleTypes cache (cache.reload s.disk).2 (cache.reload s.disk).1)) := by
  have hnew := h.withCache (cache.reload s.disk).2 (SchemaCache.coherent_loadAll _ _)
  exact ⟨hnew.allowDelete, hnew.holds.removeEach _, hnew.named.removeEach _, hnew.coherent⟩

theorem scan (h : Orderly s q) : ∃ q', Orderly s.scan q' := by
  cases hactive : s.activeCache? with
  | none => exact ⟨q, by rw [scan_inactive hactive]; exact h⟩
  | some cache =>
    have hreloaded := h.reloaded cache
    rw [scan_active hactive h.allowDelete]
    split
    · exact ⟨_, hreloaded⟩
    · exact ⟨_, hreloaded.syncAll _⟩

theorem handle (h : Orderly s q) (signal : Broker.Signal) : ∃ q', Orderly (s.handle signal) q' := by
  cases signal with
  | received name text => exact h.received name text
  | deleted name => exact h.deleted name
  | connected => exact ⟨_, h.tell _⟩
  | disconnected cause => exact ⟨_, h.tell _⟩

/-- What is neither cache, disk nor registry does not count. -/
theorem withParts (h : Orderly s q) (running : Bool) (feed : Option Broker.Feed) (attached scanning : Bool)
    (timer : List TimerCall) : Orderly { s with running, feed, attached, scanning, timer } q :=
  ⟨h.allowDelete, h.holds, h.named, h.coherent⟩

theorem startWith (h : Orderly s q) (k : Broker.Conditions) {cache : SchemaCache} (hcache : Coherent cache.entries) :
    ∃ q', Orderly (s.startWith k cache) q' := by
  apply startWith_induction (P := fun t => ∃ r, Orderly t r) (Q := fun t => ∃ r, Orderly t r)
  · intro t feed attached ht
    obtain ⟨r, hr⟩ := ht
    exact ⟨r, hr.withParts t.running feed attached t.scanning t.timer⟩
  · intro signal _ t ht
    obtain ⟨r, hr⟩ := ht
    exact hr.handle signal
  · intro t ht
    obtain ⟨r, hr⟩ := ht
    exact ⟨r, hr.withParts true t.feed t.attached t.scanning t.timer⟩
  · intro t ht
    obtain ⟨r, hr⟩ := ht
    exact ⟨_, hr.syncAll _⟩
  · intro t scanning timer ht
    obtain ⟨r, hr⟩ := ht
    exact ⟨r, hr.withParts t.running t.feed t.attached scanning timer⟩
  · exact ⟨q, h.withCache cache hcache⟩

theorem start (h : Orderly s q) (k : Broker.Conditions) : ∃ q', Orderly (s.start k) q' := by
  rcases hprepare : SchemaCache.prepare { directory := cacheDirectory s.settings } s.disk with ⟨e | cache, disk⟩
  · rw [start_unprepared hprepare]
    exact ⟨_, (h.cleared.withDisk disk).withParts true s.feed s.attached s.scanning s.timer⟩
  · rw [start_prepared hprepare, SchemaCache.prepare_ok hprepare]
    exact (h.cleared.withDisk disk).startWith k (SchemaCache.coherent_loadAll _ _)

theorem stop (h : Orderly s q) (k : Broker.Conditions) : Orderly (s.stop k) q := by
  obtain ⟨feed, attached, scanning, timer, hstop⟩ := stop_eq k s
  rw [hstop]
  exact h.withParts false feed attached scanning timer

theorem perform (h : Orderly s q) (a : Action) : ∃ q', Orderly (s.perform a) q' := by
  cases a with
  | start k => exact h.start k
  | stop k => exact ⟨q, h.stop k⟩
  | message m =>
    cases m with
    | received key text => exact h.received key text
    | deleted key => exact h.deleted key
  | scan => exact h.scan
  | edit disk => exact ⟨q, h.withDisk disk⟩

/-- Every state that an orderly service comes to is orderly. -/
theorem reaches {allowed : Service → Action → Prop} {t : Service} (h : Orderly s q) (ht : Reaches allowed s t) :
    ∃ q', Orderly t q' := by
  induction ht with
  | here => exact ⟨q, h⟩
  | next a _ _ ih =>
    obtain ⟨q', hq'⟩ := ih
    exact hq'.perform a

end Orderly

/-- A service that was never started, may delete types and has a provider in memory. -/
structure Fresh (s : Service) : Prop where
  allowDelete : s.allowDelete = true
  memory : (s.registry.tags.memory? s.settings.provider.name).isSome = true
  registered : s.registry.registered = []
  cache : s.cache = none

theorem Fresh.orderly (h : Fresh s) : ∃ q, Orderly s q ∧ q.registered = [] := by
  obtain ⟨tags, htags⟩ := Option.isSome_iff_exists.1 h.memory
  refine ⟨{ tags, registered := [], log := s.registry.log }, ⟨h.allowDelete, ⟨⟨htags, rfl⟩, h.registered, rfl⟩, ?_, ?_⟩, rfl⟩
  · simp [AllNamed]
  · intro cache hcache
    rw [h.cache] at hcache
    cases hcache

/-- A fresh service without a broker, whose provider is empty. -/
def ofMemory : Service where
  settings := { broker := { enabled := false } }
  registry := { tags := Depot.ofMemory "default" }

theorem fresh_ofMemory : Fresh ofMemory := ⟨rfl, by decide +kernel, rfl, rfl⟩

/-- The text of a schema that has a title and nothing else. -/
def titled (title : String) : String := (Json.obj [("title", .str title)]).compactText

/-- The service after some actions. -/
def run (actions : List Action) (s : Service) : Service := actions.foldl perform s

theorem reaches_run (actions : List Action) (s : Service) : Reaches (fun _ _ => True) s (s.run actions) := by
  induction actions using List.reverseRecOn with
  | nil => exact .here
  | append_singleton rest a ih =>
    rw [run, List.foldl_concat]
    exact .next a ih trivial

end TagTypes.Service
