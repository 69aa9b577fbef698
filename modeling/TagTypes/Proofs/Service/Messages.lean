import Mathlib.Tactic
import TagTypes.Proofs.Registry.Mirror
import TagTypes.Proofs.SchemaCache.Files
import TagTypes.Proofs.Service.Run

/-!
# The path of messages

A service is started on an empty cache directory, nobody else touches the directory or the provider, and no two keys ever use one name. Then the messages alone say what is where: the cache holds the schema of each key whose last accepted message brought one, the registered types are the names of these schemas, and each is stored as it is built.

The invariant has three parts. The cache says what the messages say; the cache directory holds files only, so that texts are taken and schemas removed whenever their keys have room for a file; and the registry mirrors the schemas.
-/

namespace TagTypes.Service

open Registry (Mirrors typePath)
open SchemaCache (taken? hasFile)
open Udt (typeNames)

/-! ### What messages say -/

/-- What the message leaves under the key, if it is about the key and is accepted. -/
def Message.outcome? (directory : FilePath) (key : String) : Message → Option (Option Schema)
  | .received other text => if other = key then (taken? directory key text).map some else none
  | .deleted other => if other = key then some none else none

/-- The schema that the last accepted message about the key brought, unless that was a deletion. -/
def lastSchema? (directory : FilePath) (messages : List Message) (key : String) : Option Schema :=
  (messages.reverse.findSome? (Message.outcome? directory key)).join

/-- The names that a message uses for its key: the key, and those of the types that its schema describes, if it is accepted. -/
def Message.names (directory : FilePath) : Message → List String
  | .received key text => key :: ((taken? directory key text).map typeNames).getD []
  | .deleted key => [key]

/-- Messages about different keys use different names, and no name has a slash in it. -/
structure Apart (directory : FilePath) (messages : List Message) : Prop where
  key_eq : ∀ m ∈ messages, ∀ other ∈ messages, ∀ name ∈ m.names directory, name ∈ other.names directory → name ≠ "" →
    m.key = other.key
  plain : ∀ m ∈ messages, ∀ name ∈ m.names directory, '/' ∉ name.toList

variable {directory : FilePath} {messages : List Message} {key : String}

theorem Apart.mono {more : List Message} (hsub : messages ⊆ more) (h : Apart directory more) : Apart directory messages where
  key_eq m hm other hother := h.key_eq m (hsub hm) other (hsub hother)
  plain m hm := h.plain m (hsub hm)

theorem Message.mem_names_of_taken {text name : String} {schema : Schema} (htaken : taken? directory key text = some schema)
    (hname : name ∈ typeNames schema) : name ∈ (Message.received key text).names directory := by
  rw [names, htaken]
  exact List.mem_cons_of_mem _ hname

theorem lastSchema?_nil : lastSchema? directory [] = fun _ => none := rfl

theorem lastSchema?_concat (m : Message) :
    lastSchema? directory (messages ++ [m]) key = (m.outcome? directory key).getD (lastSchema? directory messages key) := by
  rw [lastSchema?, List.reverse_concat, List.findSome?_cons]
  cases m.outcome? directory key <;> rfl

theorem lastSchema?_received (text : String) :
    lastSchema? directory (messages ++ [.received key text]) =
      match taken? directory key text with
      | some schema => Function.update (lastSchema? directory messages) key (some schema)
      | none => lastSchema? directory messages := by
  funext other
  rw [lastSchema?_concat, Message.outcome?]
  by_cases hother : key = other
  · rw [if_pos hother, hother]
    cases taken? directory other text <;> simp
  · rw [if_neg hother]
    cases taken? directory key text <;> simp [Function.update_of_ne (Ne.symm hother)]

theorem lastSchema?_deleted :
    lastSchema? directory (messages ++ [.deleted key]) = Function.update (lastSchema? directory messages) key none := by
  funext other
  rw [lastSchema?_concat, Message.outcome?]
  by_cases hother : key = other
  · simp [hother]
  · simp [hother, Function.update_of_ne (Ne.symm hother)]

theorem taken_of_lastSchema? {schema : Schema} (hschema : lastSchema? directory messages key = some schema) :
    ∃ text, .received key text ∈ messages ∧ taken? directory key text = some schema := by
  rw [lastSchema?, Option.join_eq_some_iff] at hschema
  obtain ⟨m, hm, houtcome⟩ := List.exists_of_findSome?_eq_some hschema
  rw [List.mem_reverse] at hm
  cases m with
  | received other text =>
    rw [Message.outcome?] at houtcome
    split at houtcome
    · rename_i hother
      cases hother
      obtain ⟨found, hfound, heq⟩ := Option.map_eq_some_iff.1 houtcome
      cases heq
      exact ⟨text, hm, hfound⟩
    · cases houtcome
  | deleted other =>
    rw [Message.outcome?] at houtcome
    split at houtcome
    · cases houtcome
    · cases houtcome

/-- A key without room for a file has no schema. -/
theorem lastSchema?_eq_none (hfile : hasFile directory key = false) : lastSchema? directory messages key = none := by
  by_contra hsome
  obtain ⟨schema, hschema⟩ := Option.ne_none_iff_exists'.1 hsome
  obtain ⟨text, -, htaken⟩ := taken_of_lastSchema? hschema
  rw [(SchemaCache.taken?_eq_some_iff.1 htaken).1] at hfile
  cases hfile

theorem exists_name_of_lastSchema? {schema : Schema} (hschema : lastSchema? directory messages key = some schema) :
    ∃ m ∈ messages, m.key = key ∧ schema.name ∈ m.names directory := by
  obtain ⟨text, hmessage, htaken⟩ := taken_of_lastSchema? hschema
  exact ⟨_, hmessage, rfl, Message.mem_names_of_taken htaken List.mem_cons_self⟩

namespace Apart

variable {other : String} {found before : Schema}

theorem plain_lastSchema? (h : Apart directory messages) (hfound : lastSchema? directory messages key = some found) :
    '/' ∉ found.name.toList := by
  obtain ⟨m, hm, -, hname⟩ := exists_name_of_lastSchema? hfound
  exact h.plain m hm _ hname

/-- The schemas of two keys have two names. -/
theorem name_ne (h : Apart directory messages) (hother : other ≠ key)
    (hfound : lastSchema? directory messages other = some found) (hne : found.name ≠ "")
    (hbefore : lastSchema? directory messages key = some before) : found.name ≠ before.name := by
  intro hsame
  obtain ⟨m, hm, rfl, hname⟩ := exists_name_of_lastSchema? hfound
  obtain ⟨m', hm', rfl, hname'⟩ := exists_name_of_lastSchema? hbefore
  rw [← hsame] at hname'
  exact hother (h.key_eq m hm m' hm' _ hname hname' hne)

/-- A message does not use the name that the schema of another key has. -/
theorem name_notMem {m : Message} (h : Apart directory (messages ++ [m])) (hother : other ≠ m.key)
    (hfound : lastSchema? directory messages other = some found) (hne : found.name ≠ "") :
    found.name ∉ m.names directory := by
  intro hname
  obtain ⟨m', hm', rfl, hname'⟩ := exists_name_of_lastSchema? hfound
  exact hother (h.key_eq m' (List.mem_append_left _ hm') m (by simp) _ hname' hname hne)

end Apart

/-! ### The invariant -/

/-- The cache of the service, its cache directory and its registry are as the messages say. -/
structure Settled (directory : FilePath) (messages : List Message) (s : Service) (q : Registry Tags) : Prop
    extends Orderly s q where
  arrange : s.arrange = fun schemas => some (Dependency.order schemas)
  cached : ∃ cache, s.cache = some cache ∧ cache.directory = directory ∧ cache.schema? = lastSchema? directory messages
  files : ∃ place, s.disk.HoldsFiles directory place
  mirrors : Mirrors (lastSchema? directory messages) q

/-- A settled service that runs. -/
structure Working (directory : FilePath) (messages : List Message) (s : Service) (q : Registry Tags) : Prop
    extends Settled directory messages s q where
  running : s.running = true

variable {s : Service} {q : Registry Tags}

theorem Working.active (h : Working directory messages s q) : ∃ cache, s.activeCache? = some cache ∧
    cache.directory = directory ∧ cache.schema? = lastSchema? directory messages := by
  obtain ⟨cache, hcache, hdirectory, hschemas⟩ := h.cached
  exact ⟨cache, activeCache?_eq_some_iff.2 ⟨h.running, hcache⟩, hdirectory, hschemas⟩

theorem Working.received (h : Working directory messages s q) (text : String)
    (hapart : Apart directory (messages ++ [.received key text])) :
    ∃ q', Working directory (messages ++ [.received key text]) (s.received key text) q' := by
  obtain ⟨cache, hactive, rfl, hschemas⟩ := h.active
  obtain ⟨place, hfiles⟩ := h.files
  have hcached := (activeCache?_eq_some_iff.1 hactive).2
  have hlast : lastSchema? cache.directory (messages ++ [.received key text]) = _ := lastSchema?_received text
  cases htaken : taken? cache.directory key text with
  | none =>
    obtain ⟨e, hsave⟩ := SchemaCache.save_of_not_taken hfiles htaken
    rw [htaken] at hlast
    rw [received_rejected hactive hsave]
    refine ⟨_, ⟨(h.toOrderly.withDisk s.disk).tell _, h.arrange, ⟨cache, hcached, rfl, ?_⟩, ⟨place, hfiles⟩, ?_⟩, h.running⟩
    · rw [hlast, hschemas]
    · rw [hlast]
      exact h.mirrors.tell _
  | some schema =>
    obtain ⟨disk, hsave, hdisk⟩ := SchemaCache.save_of_taken hfiles htaken
    have hadmitted := h.toOrderly.admitted hcached hsave
    have hparse := (SchemaCache.taken?_eq_some_iff.1 htaken).2
    rw [htaken] at hlast
    simp only at hlast
    rw [received_saved hactive h.allowDelete hsave]
    refine ⟨_, ⟨hadmitted.replace _ _, h.arrange, ⟨_, rfl, rfl, ?_⟩, ⟨place, ?_⟩, ?_⟩, h.running⟩
    · rw [hlast, ← hschemas]
      funext other
      rw [SchemaCache.schema?_insert, Function.update_apply]
      simp only [eq_comm]
    · rw [hadmitted.holds.disk_replace]
      exact hdisk
    · rw [hlast, hschemas]
      have hplain := hapart.plain (.received key text) (by simp) _ (Message.mem_names_of_taken htaken List.mem_cons_self)
      apply (h.mirrors.tell _).replace (Schema.legibleDefaults_parse hparse) hplain
      intro other found hother hfound hne
      constructor
      · intro hname
        exact hapart.name_notMem hother hfound hne (Message.mem_names_of_taken htaken hname)
      · intro before hbefore
        exact (hapart.mono (List.subset_append_left _ _)).name_ne hother hfound hne hbefore

/-- The removal of a deleted key's type takes the registry to the schemas of the other keys. -/
theorem Settled.mirrors_removeType {cache : SchemaCache} (h : Settled directory messages s q)
    (hschemas : cache.schema? = lastSchema? directory messages) (hapart : Apart directory (messages ++ [.deleted key])) :
    Mirrors (lastSchema? directory (messages ++ [.deleted key])) (q.remove (Tags.access s.arrange) (typeOf cache key)).2 := by
  rw [lastSchema?_deleted, typeOf, hschemas]
  cases hschema : lastSchema? directory messages key with
  | none =>
    -- nothing is cached under the key, so the key itself is the name that is given up
    apply h.mirrors.remove (hapart.plain (.deleted key) (by simp) key List.mem_cons_self)
    · simp [hschema]
    · intro other found hother hfound hne hname
      exact hapart.name_notMem hother hfound hne (by simp [Message.names, hname])
  | some schema =>
    have hbefore := hapart.mono (List.subset_append_left messages [.deleted key])
    apply h.mirrors.remove (hbefore.plain_lastSchema? hschema)
    · simp [hschema]
    · intro other found hother hfound hne
      exact hbefore.name_ne hother hfound hne hschema

theorem Working.deleted (h : Working directory messages s q) (hapart : Apart directory (messages ++ [.deleted key])) :
    ∃ q', Working directory (messages ++ [.deleted key]) (s.deleted key) q' := by
  obtain ⟨cache, hactive, rfl, hschemas⟩ := h.active
  obtain ⟨place, hfiles⟩ := h.files
  have hcached := (activeCache?_eq_some_iff.1 hactive).2
  have hdisk := h.holds.disk_removeType (typeOf cache key)
  have hremoved := h.toOrderly.removeType (typeOf cache key)
  have hmirrors := h.mirrors_removeType hschemas hapart
  cases hfile : hasFile cache.directory key with
  | false =>
    obtain ⟨e, hremove⟩ := SchemaCache.remove_of_not_hasFile hfiles hfile
    rw [← hdisk] at hremove hfiles
    rw [deleted_kept hactive h.allowDelete hremove]
    refine ⟨_, ⟨hremoved.withDisk _, h.arrange, ⟨cache, hcached, rfl, ?_⟩, ⟨place, hfiles⟩, hmirrors⟩, h.running⟩
    rw [lastSchema?_deleted, hschemas, ← lastSchema?_eq_none hfile, Function.update_eq_self]
  | true =>
    obtain ⟨disk, hremove, hleft⟩ := SchemaCache.remove_of_hasFile hfiles hfile
    rw [← hdisk] at hremove
    rw [deleted_removed hactive h.allowDelete hremove]
    have hcoherent := (h.coherent cache hcached).erase key
    have hleft' := ((hremoved.withCache { cache with entries := cache.entries.erase key } hcoherent).withDisk disk).tell
      (.schemaDeleted key)
    refine ⟨_, ⟨hleft', h.arrange, ⟨_, rfl, rfl, ?_⟩, ⟨place, hleft⟩, hmirrors.tell _⟩, h.running⟩
    rw [lastSchema?_deleted, ← hschemas]
    funext other
    rw [SchemaCache.schema?_erase, Function.update_apply]
    simp only [eq_comm]

/-! ### Starting -/

namespace Settled

theorem tell (h : Settled directory messages s q) (e : Event) : Settled directory messages (s.tell e) (q.tell e) :=
  ⟨h.toOrderly.tell e, h.arrange, h.cached, h.files, h.mirrors.tell e⟩

theorem withParts (h : Settled directory messages s q) (running : Bool) (feed : Option Broker.Feed)
    (attached scanning : Bool) (timer : List TimerCall) :
    Settled directory messages { s with running, feed, attached, scanning, timer } q :=
  ⟨h.toOrderly.withParts running feed attached scanning timer, h.arrange, h.cached, h.files, h.mirrors⟩

/-- While the service does not run, a signal is told at most. -/
theorem handle (h : Settled directory messages s q) (hstopped : s.running = false) (signal : Broker.Signal) :
    ∃ q', Settled directory messages (s.handle signal) q' ∧ (s.handle signal).running = false ∧ q'.tags = q.tags := by
  have hinactive : s.activeCache? = none := by simp [activeCache?, hstopped]
  cases signal with
  | received name text =>
    rw [Service.handle, received_inactive hinactive]
    exact ⟨q, h, hstopped, rfl⟩
  | deleted name =>
    rw [Service.handle, deleted_inactive hinactive]
    exact ⟨q, h, hstopped, rfl⟩
  | connected => exact ⟨_, h.tell _, hstopped, rfl⟩
  | disconnected cause => exact ⟨_, h.tell _, hstopped, rfl⟩

/-- There is nothing to synchronize before the first message. -/
theorem syncCached (h : Settled directory [] s q) : s.syncAll ((s.cache.map SchemaCache.schemas).getD []) = s := by
  obtain ⟨cache, hcache, -, hschemas⟩ := h.cached
  have hnone : cache.schemas = [] := by
    apply List.eq_nil_iff_forall_not_mem.2
    intro schema hschema
    obtain ⟨key, hkey⟩ := SchemaCache.mem_schemas_iff.1 hschema
    rw [hschemas, lastSchema?_nil] at hkey
    cases hkey
  have hordered : s.access.arrange [] = some [] := by
    have harrange : s.access.arrange = s.arrange := rfl
    rw [harrange, h.arrange]
    exact congrArg some Dependency.order_nil
  rw [hcache, Option.map_some, Option.getD_some, hnone, syncAll, Registry.syncAll, hordered]
  rfl

theorem startWith {cache : SchemaCache} (h : Settled directory [] { s with cache := some cache } q)
    (hstopped : s.running = false) (k : Broker.Conditions) :
    ∃ q', Working directory [] (s.startWith k cache) q' ∧ q'.tags = q.tags := by
  apply startWith_induction (P := fun t => ∃ r, Settled directory [] t r ∧ t.running = false ∧ r.tags = q.tags)
    (Q := fun t => ∃ r, Working directory [] t r ∧ r.tags = q.tags)
  · intro t feed attached ht
    obtain ⟨r, hr, hstopped, htags⟩ := ht
    exact ⟨r, hr.withParts t.running feed attached t.scanning t.timer, hstopped, htags⟩
  · intro signal _ t ht
    obtain ⟨r, hr, hstopped, htags⟩ := ht
    obtain ⟨r', hr', hstopped', htags'⟩ := hr.handle hstopped signal
    exact ⟨r', hr', hstopped', htags'.trans htags⟩
  · intro t ht
    obtain ⟨r, hr, -, htags⟩ := ht
    exact ⟨r, ⟨hr.withParts true t.feed t.attached t.scanning t.timer, rfl⟩, htags⟩
  · intro t ht
    obtain ⟨r, hr, htags⟩ := ht
    rw [hr.syncCached]
    exact ⟨r, hr, htags⟩
  · intro t scanning timer ht
    obtain ⟨r, hr, htags⟩ := ht
    exact ⟨r, ⟨hr.withParts t.running t.feed t.attached scanning timer, hr.running⟩, htags⟩
  · exact ⟨q, h, hstopped, rfl⟩

end Settled

/-- A service that is started on an empty cache directory is as no messages say, and its provider has what it had before. -/
theorem Fresh.exists_working_start (hs : Fresh s) (hstopped : s.running = false)
    (harrange : s.arrange = fun schemas => some (Dependency.order schemas)) (k : Broker.Conditions) {cache : SchemaCache}
    {disk : Disk} (hprepare : SchemaCache.prepare { directory := cacheDirectory s.settings } s.disk = (.ok cache, disk))
    (hempty : disk.isEmptyAt (cacheDirectory s.settings) = true) :
    ∃ q, Working (cacheDirectory s.settings) [] (s.start k) q ∧
      s.registry.tags.memory? s.settings.provider.name = some q.tags := by
  obtain ⟨q, hq, hnone⟩ := hs.orderly
  have hcache := SchemaCache.prepare_ok hprepare
  rw [SchemaCache.loadAll_of_isEmptyAt hempty] at hcache
  have hlast : cache.schema? = lastSchema? (cacheDirectory s.settings) [] := by
    rw [hcache, lastSchema?_nil]
    rfl
  have hcoherent : SchemaCache.Coherent cache.entries := by
    rw [hcache]
    exact SchemaCache.coherent_empty
  have hsettled : Settled (cacheDirectory s.settings) [] { s.cleared.withDisk disk with cache := some cache }
      { q with registered := [] } :=
    ⟨(hq.cleared.withDisk disk).withCache cache hcoherent, harrange, ⟨cache, rfl, by rw [hcache], hlast⟩,
      Disk.holdsFiles_of_isEmptyAt hempty, Registry.mirrors_nothing rfl⟩
  obtain ⟨q', hworking, htags⟩ := hsettled.startWith hstopped k
  refine ⟨q', ?_, ?_⟩
  · rw [start_prepared hprepare]
    exact hworking
  · rw [htags]
    exact hq.holds.tags.1

theorem Fresh.working_start (hs : Fresh s) (hstopped : s.running = false)
    (harrange : s.arrange = fun schemas => some (Dependency.order schemas)) (k : Broker.Conditions) {cache : SchemaCache}
    {disk : Disk} (hprepare : SchemaCache.prepare { directory := cacheDirectory s.settings } s.disk = (.ok cache, disk))
    (hempty : disk.isEmptyAt (cacheDirectory s.settings) = true) : ∃ q, Working (cacheDirectory s.settings) [] (s.start k) q := by
  obtain ⟨q, hq, -⟩ := hs.exists_working_start hstopped harrange k hprepare hempty
  exact ⟨q, hq⟩

/-! ### Runs -/

/-- The service after some messages. -/
def takeAll (messages : List Message) (s : Service) : Service := messages.foldl take s

theorem Working.takeAll (h : Working directory [] s q) (hapart : Apart directory messages) :
    ∃ q', Working directory messages (s.takeAll messages) q' := by
  induction messages using List.reverseRecOn with
  | nil => exact ⟨q, h⟩
  | append_singleton before m ih =>
    obtain ⟨q', hq'⟩ := ih (hapart.mono (List.subset_append_left _ _))
    rw [Service.takeAll, List.foldl_concat]
    cases m with
    | received key text => exact hq'.received text hapart
    | deleted key => exact hq'.deleted hapart

/-- After each of some messages to a service that was started on an empty cache directory, if no two keys use one name: the cache holds what the last accepted messages brought, the registered types are the names of the cached schemas, and the provider has each as it is built. -/
theorem settled_of_messages (hs : Fresh s) (hstopped : s.running = false)
    (harrange : s.arrange = fun schemas => some (Dependency.order schemas)) (k : Broker.Conditions) {cache : SchemaCache}
    {disk : Disk} (hprepare : SchemaCache.prepare { directory := cacheDirectory s.settings } s.disk = (.ok cache, disk))
    (hempty : disk.isEmptyAt (cacheDirectory s.settings) = true) (hapart : Apart (cacheDirectory s.settings) messages) (n : ℕ) :
    ∃ cache, ((s.start k).takeAll (messages.take n)).activeCache? = some cache ∧
      (∀ key, cache.schema? key = lastSchema? (cacheDirectory s.settings) (messages.take n) key) ∧
      (∀ type, type ∈ ((s.start k).takeAll (messages.take n)).registry.registered ↔ type ≠ "" ∧ HasName cache type) ∧
      ∀ key schema, cache.schema? key = some schema → schema.name ≠ "" →
        ((s.start k).takeAll (messages.take n)).registry.tags.config?
          ((s.start k).takeAll (messages.take n)).settings.provider.name (typePath schema.name) =
            some (Udt.build schema).toJson := by
  obtain ⟨q, hstarted⟩ := hs.working_start hstopped harrange k hprepare hempty
  obtain ⟨q', hq'⟩ := hstarted.takeAll (hapart.mono (List.take_subset n messages))
  obtain ⟨cache, hactive, -, hschemas⟩ := hq'.active
  refine ⟨cache, hactive, fun key => by rw [hschemas], ?_, ?_⟩
  · intro type
    rw [hq'.holds.registered, hq'.mirrors.registered, ← hschemas]
    rfl
  · intro key schema hschema hne
    rw [hschemas] at hschema
    rw [hq'.holds.config?]
    exact hq'.mirrors.built key schema hschema hne

/-! ### A run -/

/-- One key changes its title, another comes and goes. -/
def retitling : List Message :=
  [.received "a" (titled "A"), .received "b" (titled "B"), .received "a" (titled "C"), .deleted "b"]

theorem apart_retitling : Apart (cacheDirectory ofMemory.settings) retitling := ⟨by decide +kernel, by decide +kernel⟩

theorem exists_prepare_ofMemory : ∃ cache disk,
    SchemaCache.prepare { directory := cacheDirectory ofMemory.settings } ofMemory.disk = (.ok cache, disk) ∧
      disk.isEmptyAt (cacheDirectory ofMemory.settings) = true :=
  SchemaCache.exists_prepare_of_isEmptyAt (by decide +kernel)

/-- The second title is registered and stored in the end. -/
theorem registered_retitling : ∃ schema, schema.name = "C" ∧
    "C" ∈ ((ofMemory.start {}).takeAll (retitling.take 4)).registry.registered ∧
    ((ofMemory.start {}).takeAll (retitling.take 4)).registry.tags.config?
      ((ofMemory.start {}).takeAll (retitling.take 4)).settings.provider.name (typePath schema.name) =
        some (Udt.build schema).toJson := by
  obtain ⟨cache, disk, hprepare, hempty⟩ := exists_prepare_ofMemory
  obtain ⟨cache, -, hschemas, hregistered, hbuilt⟩ :=
    settled_of_messages fresh_ofMemory rfl rfl {} hprepare hempty apart_retitling 4
  have hlast : (lastSchema? (cacheDirectory ofMemory.settings) (retitling.take 4) "a").map Schema.name = some "C" := by
    decide +kernel
  rw [← hschemas "a", Option.map_eq_some_iff] at hlast
  obtain ⟨schema, hschema, hname⟩ := hlast
  refine ⟨schema, hname, (hregistered "C").2 ⟨by decide, "a", schema, hschema, hname⟩, hbuilt "a" schema hschema ?_⟩
  rw [hname]
  decide

end TagTypes.Service
