import Mathlib.Tactic
import TagTypes.Proofs.SchemaCache.Reload
import TagTypes.Proofs.Service.Run

/-!
# Scans make the registry complete

As long as no name has a slash in it, the registered types are names of cached schemas and are stored, whatever others do to the cache directory. A scan first gives up the types whose schemas are gone or have other names, and then synchronizes every schema whose type is not registered; so right after a scan the registered types are exactly the names of the cached schemas.
-/

namespace TagTypes.Service

open Registry (AllNamed AllStored InStep typePath)
open SchemaCache (Coherent mem_deleted mem_updated)
open TagPath (IsName)

/-! ### Names without slashes -/

/-- The title in a text has no slash, so a schema read from it has none in its name, unless the key has one. -/
def PlainTitle (text : String) : Prop :=
  ∀ key schema, '/' ∉ key.toList → Schema.parse key text = .ok schema → '/' ∉ schema.name.toList

def Message.Plain : Message → Prop
  | .received _ text => PlainTitle text
  | .deleted key => '/' ∉ key.toList

def PlainSignal : Broker.Signal → Prop
  | .received _ text => PlainTitle text
  | .deleted key => '/' ∉ key.toList
  | _ => True

def PlainEntries (entries : CachedSchemas) : Prop :=
  ∀ key entry, entries.get? key = some entry → '/' ∉ entry.schema.name.toList

/-- No title and no deleted key that an action brings in has a slash in it: not those of messages, and not those of the files that are read. -/
def Action.Plain (s : Service) : Action → Prop
  | .start k => (∀ signal ∈ signalsOf s.settings.broker k, PlainSignal signal) ∧
      ∀ cache disk, SchemaCache.prepare { directory := cacheDirectory s.settings } s.disk = (.ok cache, disk) →
        PlainEntries cache.entries
  | .message m => m.Plain
  | .scan => ∀ cache, s.activeCache? = some cache → PlainEntries (cache.reload s.disk).2.entries
  | _ => True

/-! ### The invariant -/

/-- The registered types are stored and are names of cached schemas. -/
structure Faithful (s : Service) (q : Registry Tags) : Prop extends Orderly s q where
  arrange : s.arrange = fun schemas => some (Dependency.order schemas)
  stored : AllStored q.registered q.tags
  cached : ∀ type ∈ q.registered, ∃ cache, s.cache = some cache ∧ HasName cache type
  plain : ∀ cache, s.cache = some cache → PlainEntries cache.entries

variable {s : Service} {q : Registry Tags} {cache : SchemaCache} {key text : String}

theorem PlainEntries.name (hcache : PlainEntries cache.entries) {schema : Schema} (hschema : cache.schema? key = some schema) :
    '/' ∉ schema.name.toList := by
  obtain ⟨text, hentry⟩ := SchemaCache.schema?_eq_some_iff.1 hschema
  exact hcache key _ hentry

theorem PlainEntries.insert {entries : CachedSchemas} (hentries : PlainEntries entries) {schema : Schema}
    (hschema : '/' ∉ schema.name.toList) : PlainEntries (entries.insert key ⟨schema, text⟩) := by
  intro other entry hentry
  rw [CachedSchemas.get?_insert] at hentry
  split at hentry
  · cases hentry
    exact hschema
  · exact hentries other entry hentry

theorem PlainEntries.erase {entries : CachedSchemas} (hentries : PlainEntries entries) (key : String) :
    PlainEntries (entries.erase key) := by
  intro other entry hentry
  rw [CachedSchemas.get?_erase] at hentry
  split at hentry
  · cases hentry
  · exact hentries other entry hentry

theorem plain_of_isValidKey (hkey : SchemaCache.isValidKey key = true) : '/' ∉ key.toList := by
  unfold SchemaCache.isValidKey at hkey
  rw [Bool.and_eq_true, List.all_eq_true] at hkey
  intro hmem
  simpa using hkey.2 '/' hmem

namespace Faithful

theorem inStep (h : Faithful s q) : InStep q := ⟨h.named, h.stored⟩

theorem withDisk (h : Faithful s q) (disk : Disk) : Faithful (s.withDisk disk) q :=
  ⟨h.toOrderly.withDisk disk, h.arrange, h.stored, h.cached, h.plain⟩

theorem tell (h : Faithful s q) (e : Event) : Faithful (s.tell e) (q.tell e) :=
  ⟨h.toOrderly.tell e, h.arrange, h.stored, h.cached, h.plain⟩

/-- After a synchronization of cached schemas all registered types are names of cached schemas. -/
theorem syncAll (h : Faithful s q) {schemas : List Schema}
    (hschemas : ∀ schema ∈ schemas, ∃ cache, s.cache = some cache ∧ HasName cache schema.name) :
    Faithful (s.syncAll schemas) (q.syncAll (Tags.access s.arrange) schemas).2 := by
  refine ⟨h.toOrderly.syncAll schemas, h.arrange, (h.inStep.syncAll schemas).stored, ?_, h.plain⟩
  intro type htype
  rw [h.arrange, Registry.mem_registered_syncAll] at htype
  rcases htype with htype | ⟨schema, hschema, -, rfl⟩
  · exact h.cached type htype
  · exact hschemas schema hschema

/-- A schema that is saved takes the place of the one before: a name that no other key has is given up. -/
theorem received (h : Faithful s q) (key : String) {text : String} (htext : PlainTitle text) :
    ∃ q', Faithful (s.received key text) q' := by
  cases hactive : s.activeCache? with
  | none => exact ⟨q, by rw [received_inactive hactive]; exact h⟩
  | some cache =>
    have hcached := (activeCache?_eq_some_iff.1 hactive).2
    rcases hsave : cache.save key text s.disk with ⟨e | ⟨schema, saved⟩, disk⟩
    · rw [received_rejected hactive hsave]
      exact ⟨_, (h.withDisk disk).tell _⟩
    · have hadmitted := h.admitted hcached hsave
      obtain ⟨hkey, hparse, rfl⟩ := SchemaCache.save_ok hsave
      have hprevious : ∀ before ∈ cache.schema? key, '/' ∉ before.name.toList := fun before hbefore =>
        (h.plain cache hcached).name hbefore
      have hstart : InStep (q.tell (.schemaReceived key)) := ⟨h.named, h.stored⟩
      have hinStep : InStep (Registry.replace (Tags.access s.arrange) (cache.schema? key) schema (q.tell (.schemaReceived key))) :=
        hstart.replace hprevious schema
      rw [received_saved hactive h.allowDelete hsave]
      refine ⟨_, ⟨⟨hadmitted.allowDelete, hadmitted.holds.replace _ _, hinStep.named, hadmitted.coherent⟩, h.arrange,
        hinStep.stored, ?_, ?_⟩⟩
      · intro type htype
        refine ⟨_, rfl, ?_⟩
        rw [Registry.replace, Registry.mem_registered_sync, hstart.mem_giveUp] at htype
        rcases htype with ⟨hregistered, hkept⟩ | ⟨-, rfl⟩
        · obtain ⟨_, hsame, other, before, hbefore, rfl⟩ := h.cached type hregistered
          rw [hcached] at hsame
          cases hsame
          by_cases hother : key = other
          · cases hother
            exact ⟨key, schema, by rw [SchemaCache.schema?_insert, if_pos rfl], (hkept before hbefore rfl).symm⟩
          · exact ⟨other, before, by rw [SchemaCache.schema?_insert, if_neg hother, hbefore], rfl⟩
        · exact ⟨key, schema, by rw [SchemaCache.schema?_insert, if_pos rfl], rfl⟩
      · intro saved hsaved
        cases hsaved
        exact (h.plain cache hcached).insert (htext key schema (plain_of_isValidKey hkey) hparse)

/-- The type of a deleted key is given up before the key is. -/
theorem deleted (h : Faithful s q) {key : String} (hkey : '/' ∉ key.toList) : ∃ q', Faithful (s.deleted key) q' := by
  cases hactive : s.activeCache? with
  | none => exact ⟨q, by rw [deleted_inactive hactive]; exact h⟩
  | some cache =>
    have hcached := (activeCache?_eq_some_iff.1 hactive).2
    have htype : '/' ∉ (typeOf cache key).toList := by
      unfold typeOf
      cases hschema : cache.schema? key with
      | none => exact hkey
      | some schema => exact (h.plain cache hcached).name hschema
    have hinStep : InStep (q.remove (Tags.access s.arrange) (typeOf cache key)).2 := h.inStep.remove htype
    have hremoved : Faithful (s.removeType (typeOf cache key)) (q.remove (Tags.access s.arrange) (typeOf cache key)).2 :=
      ⟨h.toOrderly.removeType _, h.arrange, hinStep.stored,
        fun type htype => h.cached type (Registry.registered_remove_subset _ htype), h.plain⟩
    rcases hremove : cache.remove key (s.removeType (typeOf cache key)).disk with ⟨e | saved, disk⟩
    · rw [deleted_kept hactive h.allowDelete hremove]
      exact ⟨_, hremoved.withDisk disk⟩
    · obtain ⟨-, rfl⟩ := SchemaCache.remove_ok hremove
      rw [deleted_removed hactive h.allowDelete hremove]
      have hcoherent : Coherent (cache.entries.erase key) := (h.coherent cache hcached).erase key
      refine ⟨_, ((Faithful.mk (hremoved.withCache { cache with entries := cache.entries.erase key } hcoherent)
        h.arrange hinStep.stored ?_ ?_).withDisk disk).tell _⟩
      · intro type htype
        refine ⟨_, rfl, ?_⟩
        obtain ⟨hregistered, hne⟩ := h.inStep.mem_remove.1 htype
        obtain ⟨_, hsame, other, schema, hschema, rfl⟩ := h.cached type hregistered
        rw [hcached] at hsame
        cases hsame
        have hother : key ≠ other := by
          intro heq
          subst heq
          rw [typeOf, hschema] at hne
          exact hne rfl
        exact ⟨other, schema, by rw [SchemaCache.schema?_erase, if_neg hother, hschema], rfl⟩
      · intro saved hsaved
        cases hsaved
        exact (h.plain cache hcached).erase key

end Faithful

/-! ### What a scan gives up and takes in -/

section Changes

variable {old new : CachedSchemas} {directory : FilePath}

theorem staleType?_eq_some_iff {type : String} :
    staleType? ⟨directory, old⟩ ⟨directory, new⟩ (SchemaCache.changes old new) key = some type ↔
      ∃ before, old.get? key = some before ∧ before.schema.name = type ∧ (new.get? key = none ∨
        ∃ after, new.get? key = some after ∧ type ≠ "" ∧ type ≠ after.schema.name) := by
  have hdeleted : (SchemaCache.changes old new).deleted.contains key = true ↔
      (∃ before, old.get? key = some before) ∧ new.get? key = none := by
    rw [List.contains_iff_mem, mem_deleted]
  simp only [staleType?, SchemaCache.schema?_eq]
  cases hbefore : old.get? key with
  | none =>
    rw [if_neg (by rw [hdeleted, hbefore]; simp)]
    simp
  | some before =>
    cases hafter : new.get? key with
    | none =>
      rw [if_pos (hdeleted.2 ⟨⟨before, hbefore⟩, hafter⟩)]
      simp
    | some after =>
      rw [if_neg (by rw [hdeleted, hafter]; simp)]
      simp only [Option.map_some, Option.ite_none_right_eq_some, Bool.and_eq_true, decide_eq_true_eq, Option.some.injEq]
      constructor
      · rintro ⟨hnames, rfl⟩
        exact ⟨before, rfl, rfl, Or.inr ⟨after, rfl, hnames⟩⟩
      · rintro ⟨_, rfl, rfl, hgone | ⟨_, rfl, hnames⟩⟩
        · cases hgone
        · exact ⟨hnames, rfl⟩

/-- A name is given up if it is that of a schema which is gone or has another text and name now. -/
theorem mem_staleTypes_iff {type : String} :
    type ∈ staleTypes ⟨directory, old⟩ ⟨directory, new⟩ (SchemaCache.changes old new) ↔
      ∃ key before, old.get? key = some before ∧ before.schema.name = type ∧ (new.get? key = none ∨
        ∃ after, new.get? key = some after ∧ before.text ≠ after.text ∧ type ≠ "" ∧ type ≠ after.schema.name) := by
  unfold staleTypes
  simp only [List.mem_filterMap, Text.mem_sorted, List.mem_append, staleType?_eq_some_iff, mem_deleted, mem_updated]
  constructor
  · rintro ⟨key, hchanged, before, hbefore, hname, hgone | ⟨after, hafter, hnames⟩⟩
    · exact ⟨key, before, hbefore, hname, Or.inl hgone⟩
    · refine ⟨key, before, hbefore, hname, Or.inr ⟨after, hafter, ?_, hnames⟩⟩
      rcases hchanged with ⟨-, hgone⟩ | ⟨_, _, hsame, hthere, htext⟩
      · rw [hafter] at hgone
        cases hgone
      · rw [hbefore] at hsame
        rw [hafter] at hthere
        cases hsame
        cases hthere
        exact htext
  · rintro ⟨key, before, hbefore, hname, hgone | ⟨after, hafter, htext, hnames⟩⟩
    · exact ⟨key, Or.inl ⟨⟨before, hbefore⟩, hgone⟩, before, hbefore, hname, Or.inl hgone⟩
    · exact ⟨key, Or.inr ⟨before, after, hbefore, hafter, htext⟩, before, hbefore, hname, Or.inr ⟨after, hafter, hnames⟩⟩

/-- What is given up was the name of a cached schema. -/
theorem hasName_of_mem_staleTypes {type : String}
    (htype : type ∈ staleTypes ⟨directory, old⟩ ⟨directory, new⟩ (SchemaCache.changes old new)) :
    HasName ⟨directory, old⟩ type := by
  obtain ⟨key, before, hbefore, hname, -⟩ := mem_staleTypes_iff.1 htype
  exact ⟨key, before.schema, SchemaCache.schema?_of_get? hbefore, hname⟩

/-- The name of a cached schema is given up, unless the schema under the key still has it. -/
theorem mem_staleTypes (hold : Coherent old) (hnew : Coherent new) {schema : Schema}
    (hschema : SchemaCache.schema? ⟨directory, old⟩ key = some schema) (hname : schema.name ≠ "")
    (hgone : ¬HasName ⟨directory, new⟩ schema.name) :
    schema.name ∈ staleTypes ⟨directory, old⟩ ⟨directory, new⟩ (SchemaCache.changes old new) := by
  obtain ⟨text, hentry⟩ := SchemaCache.schema?_eq_some_iff.1 hschema
  refine mem_staleTypes_iff.2 ⟨key, _, hentry, rfl, ?_⟩
  cases hafter : new.get? key with
  | none => exact Or.inl rfl
  | some after =>
    have hne : schema.name ≠ after.schema.name := fun heq =>
      hgone ⟨key, after.schema, SchemaCache.schema?_of_get? hafter, heq.symm⟩
    refine Or.inr ⟨after, rfl, fun htext => ?_, hname, hne⟩
    exact hne (congrArg (fun e => e.schema.name) (hold.entry_eq hnew hentry hafter htext))

/-- Schemas are synchronized that are new, that have another text, or whose types are not registered. -/
theorem mem_pendingKeys_iff_or {registry : Registry Depot} {changes : CacheChanges} :
    key ∈ pendingKeys registry cache changes ↔ key ∈ changes.added ∨ key ∈ changes.updated ∨
      ∃ schema, cache.schema? key = some schema ∧ schema.name ∉ registry.registered := by
  unfold pendingKeys
  rw [Text.mem_sortedSet, List.mem_append, List.mem_append, List.mem_filter, or_assoc, Option.any_eq_true]
  refine or_congr_right (or_congr_right ?_)
  constructor
  · rintro ⟨-, schema, hschema, hname⟩
    exact ⟨schema, hschema, by simpa [Registry.isRegistered] using hname⟩
  · rintro ⟨schema, hschema, hname⟩
    exact ⟨SchemaCache.mem_keys_iff.2 (Option.isSome_of_mem hschema), schema, hschema, by simpa [Registry.isRegistered] using hname⟩

/-- A schema is synchronized if its type is not registered. -/
theorem mem_pendingKeys {registry : Registry Depot} (changes : CacheChanges) {schema : Schema}
    (hschema : cache.schema? key = some schema) (hname : schema.name ∉ registry.registered) :
    key ∈ pendingKeys registry cache changes :=
  mem_pendingKeys_iff_or.2 (Or.inr (Or.inr ⟨schema, hschema, hname⟩))

end Changes

namespace Faithful

/-- After the removals of a scan the registered types are those that a schema which was read still has. -/
theorem reloaded (h : Faithful s q) (hcached : s.cache = some cache) (hplain : PlainEntries (cache.reload s.disk).2.entries) :
    ∃ q', Faithful (s.reloaded cache) q' := by
  have hstale : ∀ type ∈ staleTypes cache (cache.reload s.disk).2 (cache.reload s.disk).1, '/' ∉ type.toList := by
    intro type htype
    obtain ⟨key, schema, hschema, rfl⟩ := hasName_of_mem_staleTypes htype
    exact (h.plain cache hcached).name hschema
  have hinStep : InStep (q.removeEach (Tags.access s.arrange)
      (staleTypes cache (cache.reload s.disk).2 (cache.reload s.disk).1)) := h.inStep.removeEach hstale
  refine ⟨_, h.toOrderly.reloaded cache, h.arrange, hinStep.stored, ?_, ?_⟩
  · intro type htype
    refine ⟨(cache.reload s.disk).2, rfl, ?_⟩
    rw [h.inStep.mem_removeEach hstale] at htype
    obtain ⟨hregistered, hkept⟩ := htype
    obtain ⟨_, hsame, key, schema, hschema, rfl⟩ := h.cached type hregistered
    rw [hcached] at hsame
    cases hsame
    by_contra hgone
    exact hkept (mem_staleTypes (h.coherent cache hcached) (SchemaCache.coherent_loadAll _ _) hschema
      (h.named _ hregistered).1 hgone)
  · intro new hnew
    cases hnew
    exact hplain

/-- A schema that was read is stored under its name, if that is not empty. -/
theorem isSome_stored? (h : Faithful s q) (hcached : s.cache = some cache) {schema : Schema}
    (hschema : cache.schema? key = some schema) (hname : schema.name ≠ "") : (Udt.stored? schema).isSome = true := by
  obtain ⟨text, hparse⟩ := SchemaCache.Coherent.parse (h.coherent cache hcached) hschema
  rw [Udt.stored?_of_legibleDefaults (Schema.legibleDefaults_parse hparse) ⟨hname, (h.plain cache hcached).name hschema⟩]
  rfl

/-- After a scan of a service with a cache, the registered types are the names of the schemas that the scan has read. -/
theorem scan_active (h : Faithful s q) (hactive : s.activeCache? = some cache)
    (hplain : PlainEntries (cache.reload s.disk).2.entries) :
    ∃ q', Faithful s.scan q' ∧ s.scan.cache = some (cache.reload s.disk).2 ∧
      ∀ type, type ∈ q'.registered ↔ type ≠ "" ∧ HasName (cache.reload s.disk).2 type := by
  obtain ⟨q', hq'⟩ := h.reloaded (activeCache?_eq_some_iff.1 hactive).2 hplain
  have hcache : (s.reloaded cache).cache = some (cache.reload s.disk).2 := rfl
  -- registered types have names in the cache in any case, so what counts is that no such name is left out
  have hcomplete : ∀ {t : Service} {r : Registry Tags}, Faithful t r → t.cache = some (cache.reload s.disk).2 →
      (∀ type, type ≠ "" → HasName (cache.reload s.disk).2 type → type ∈ r.registered) →
      ∀ type, type ∈ r.registered ↔ type ≠ "" ∧ HasName (cache.reload s.disk).2 type := by
    intro t r ht htcache hall type
    constructor
    · intro htype
      obtain ⟨_, hsame, hname⟩ := ht.cached type htype
      rw [htcache] at hsame
      cases hsame
      exact ⟨(ht.named type htype).1, hname⟩
    · exact fun htype => hall type htype.1 htype.2
  rw [Service.scan_active hactive h.allowDelete]
  split
  · rename_i hpending
    refine ⟨q', hq', hcache, hcomplete hq' hcache fun type hne hname => ?_⟩
    obtain ⟨key, schema, hschema, rfl⟩ := hname
    by_contra hmissing
    rw [← hq'.holds.registered] at hmissing
    have hkey := mem_pendingKeys (cache.reload s.disk).1 hschema hmissing
    rw [hpending] at hkey
    cases hkey
  · have hnames : ∀ schema ∈ (pendingKeys (s.reloaded cache).registry (cache.reload s.disk).2 (cache.reload s.disk).1).filterMap
        (cache.reload s.disk).2.schema?, ∃ new, (s.reloaded cache).cache = some new ∧ HasName new schema.name := by
      intro schema hschema
      obtain ⟨key, -, hkey⟩ := List.mem_filterMap.1 hschema
      exact ⟨_, hcache, key, schema, hkey, rfl⟩
    have hsynced := hq'.syncAll hnames
    refine ⟨_, hsynced, hcache, hcomplete hsynced hcache fun type hne hname => ?_⟩
    obtain ⟨key, schema, hschema, rfl⟩ := hname
    rw [hq'.arrange, Registry.mem_registered_syncAll]
    by_cases hregistered : schema.name ∈ q'.registered
    · exact Or.inl hregistered
    · rw [← hq'.holds.registered] at hregistered
      exact Or.inr ⟨schema, List.mem_filterMap.2 ⟨key, mem_pendingKeys _ hschema hregistered, hschema⟩,
        hq'.isSome_stored? hcache hschema hne, rfl⟩

/-! ### Runs -/

theorem handle (h : Faithful s q) {signal : Broker.Signal} (hsignal : PlainSignal signal) :
    ∃ q', Faithful (s.handle signal) q' := by
  cases signal with
  | received name text => exact h.received name hsignal
  | deleted name => exact h.deleted hsignal
  | connected => exact ⟨_, h.tell _⟩
  | disconnected cause => exact ⟨_, h.tell _⟩

/-- What is neither cache, disk nor registry does not count. -/
theorem withParts (h : Faithful s q) (running : Bool) (feed : Option Broker.Feed) (attached scanning : Bool)
    (timer : List TimerCall) : Faithful { s with running, feed, attached, scanning, timer } q :=
  ⟨h.toOrderly.withParts running feed attached scanning timer, h.arrange, h.stored, h.cached, h.plain⟩

theorem syncCached (h : Faithful s q) : ∃ q', Faithful (s.syncAll ((s.cache.map SchemaCache.schemas).getD [])) q' := by
  refine ⟨_, h.syncAll fun schema hschema => ?_⟩
  cases hcache : s.cache with
  | none =>
    rw [hcache] at hschema
    cases hschema
  | some cache =>
    rw [hcache] at hschema
    obtain ⟨key, hkey⟩ := SchemaCache.mem_schemas_iff.1 hschema
    exact ⟨cache, rfl, key, schema, hkey, rfl⟩

theorem startWith (h : Faithful s q) (hempty : q.registered = []) {k : Broker.Conditions}
    (hsignals : ∀ signal ∈ signalsOf s.settings.broker k, PlainSignal signal) (hcoherent : Coherent cache.entries)
    (hplain : PlainEntries cache.entries) : ∃ q', Faithful (s.startWith k cache) q' := by
  have hcached : Faithful { s with cache := some cache } q := by
    refine ⟨h.toOrderly.withCache _ hcoherent, h.arrange, h.stored, ?_, ?_⟩
    · rw [hempty]
      simp
    · intro _ heq
      cases heq
      exact hplain
  apply startWith_induction (P := fun t => ∃ r, Faithful t r) (Q := fun t => ∃ r, Faithful t r)
  · intro t feed attached ht
    obtain ⟨r, hr⟩ := ht
    exact ⟨r, hr.withParts t.running feed attached t.scanning t.timer⟩
  · intro signal hsignal t ht
    obtain ⟨r, hr⟩ := ht
    exact hr.handle (hsignals signal hsignal)
  · intro t ht
    obtain ⟨r, hr⟩ := ht
    exact ⟨r, hr.withParts true t.feed t.attached t.scanning t.timer⟩
  · intro t ht
    obtain ⟨r, hr⟩ := ht
    exact hr.syncCached
  · intro t scanning timer ht
    obtain ⟨r, hr⟩ := ht
    exact ⟨r, hr.withParts t.running t.feed t.attached scanning timer⟩
  · exact ⟨q, hcached⟩

theorem cleared (h : Faithful s q) : Faithful s.cleared { q with registered := [] } :=
  ⟨h.toOrderly.cleared, h.arrange, by simp [AllStored], by simp, h.plain⟩

theorem start (h : Faithful s q) {k : Broker.Conditions} (hstart : (Action.start k).Plain s) :
    ∃ q', Faithful (s.start k) q' := by
  rcases hprepare : SchemaCache.prepare { directory := cacheDirectory s.settings } s.disk with ⟨e | cache, disk⟩
  · rw [start_unprepared hprepare]
    exact ⟨_, (h.cleared.withDisk disk).withParts true s.feed s.attached s.scanning s.timer⟩
  · have hplain := hstart.2 cache disk hprepare
    have hcoherent : Coherent cache.entries := by
      rw [SchemaCache.prepare_ok hprepare]
      exact SchemaCache.coherent_loadAll _ _
    rw [start_prepared hprepare]
    exact (h.cleared.withDisk disk).startWith rfl hstart.1 hcoherent hplain

theorem stop (h : Faithful s q) (k : Broker.Conditions) : Faithful (s.stop k) q := by
  obtain ⟨feed, attached, scanning, timer, hstop⟩ := stop_eq k s
  rw [hstop]
  exact h.withParts false feed attached scanning timer

theorem perform (h : Faithful s q) {a : Action} (ha : a.Plain s) : ∃ q', Faithful (s.perform a) q' := by
  cases a with
  | start k => exact h.start ha
  | stop k => exact ⟨q, h.stop k⟩
  | message m =>
    cases m with
    | received key text => exact h.received key ha
    | deleted key => exact h.deleted ha
  | scan =>
    cases hactive : s.activeCache? with
    | none => exact ⟨q, by rw [Service.perform, scan_inactive hactive]; exact h⟩
    | some cache =>
      obtain ⟨q', hq', -⟩ := h.scan_active hactive (ha cache hactive)
      exact ⟨q', hq'⟩
  | edit disk => exact ⟨q, h.withDisk disk⟩

theorem reaches {t : Service} (h : Faithful s q) (ht : Reaches (fun s a => a.Plain s) s t) : ∃ q', Faithful t q' := by
  induction ht with
  | here => exact ⟨q, h⟩
  | next a _ ha ih =>
    obtain ⟨q', hq'⟩ := ih
    exact hq'.perform ha

end Faithful

/-- In every state that a service with a provider in memory comes to, without slashes in titles and deleted keys, each registered type is stored and is the name of a cached schema; and a scan with a cache registers exactly the names of the schemas it reads, whatever others did to the cache directory. -/
theorem registered_of_reaches {t : Service} (hs : Fresh s)
    (harrange : s.arrange = fun schemas => some (Dependency.order schemas)) (ht : Reaches (fun s a => a.Plain s) s t) :
    (∀ type ∈ t.registry.registered, t.Present type ∧ ∃ cache, t.cache = some cache ∧ HasName cache type) ∧
      (t.activeCache?.isSome = true → Action.scan.Plain t → ∀ type, type ∈ t.scan.registry.registered ↔
        type ≠ "" ∧ ∃ cache, t.scan.cache = some cache ∧ HasName cache type) := by
  obtain ⟨q, hq, hempty⟩ := hs.orderly
  have hfaithful : Faithful s q := by
    refine ⟨hq, harrange, by simp [AllStored, hempty], by simp [hempty], fun cache hcache => ?_⟩
    rw [hs.cache] at hcache
    cases hcache
  obtain ⟨q', hq'⟩ := hfaithful.reaches ht
  constructor
  · intro type htype
    rw [hq'.holds.registered] at htype
    exact ⟨hq'.holds.present_iff.2 ⟨htype, hq'.stored type htype⟩, hq'.cached type htype⟩
  · intro hactive hplain type
    obtain ⟨cache, hcache⟩ := Option.isSome_iff_exists.1 hactive
    obtain ⟨r, hr, hnew, hnames⟩ := hq'.scan_active hcache (hplain cache hcache)
    rw [hr.holds.registered, hnames type, hnew]
    simp

/-! ### A run with a shared title -/

theorem plainTitle_titled {title : String} (htitle : '/' ∉ title.toList) : PlainTitle (titled title) := by
  intro key schema _ hschema
  have hlegible : Json.Legible 1 (.obj [("title", .str title)]) := .obj (by simp) (by simp [Json.Legible.str])
  obtain ⟨found, hfound, hname⟩ := Schema.name_parse (hlegible.mono (by decide)).read_compactText hschema
  cases hfound
  rw [hname]
  exact htitle

/-- Others may do anything to the disk of a service with one schema. -/
@[irreducible]
def edited (disk : Disk) : Service := ofMemory.run [.start {}, .message (.received "a" (titled "T")), .edit disk]

theorem plain_start_ofMemory : (Action.start {}).Plain ofMemory := by
  constructor
  · have hsignals : signalsOf ofMemory.settings.broker {} = [.connected] := by decide +kernel
    rw [hsignals]
    simp [PlainSignal]
  · intro cache disk hprepare key entry hentry
    have hnone : (SchemaCache.prepare { directory := cacheDirectory ofMemory.settings } ofMemory.disk).1.toOption.map
        (·.keys) = some [] := by
      decide +kernel
    rw [hprepare] at hnone
    have hkey := SchemaCache.mem_keys_iff_get?.2 ⟨entry, hentry⟩
    have hkeys : cache.keys = [] := Option.some.inj hnone
    rw [hkeys] at hkey
    cases hkey

theorem reaches_edited (disk : Disk) : Reaches (fun s a => a.Plain s) ofMemory (edited disk) := by
  unfold edited
  exact .next (.edit disk) (.next (.message (.received "a" (titled "T")))
    (.next (.start {}) .here plain_start_ofMemory) (plainTitle_titled (by decide))) trivial

/-- A disk on which the schema has moved from the key `a` to the key `b`. -/
def movedDisk : Disk :=
  let disk := (ofMemory.run [.start {}]).disk
  (Disk.writeText (FilePath.parse "modules/schema-tag-provider/schemas/b.json") (titled "T") disk).2

theorem plain_scan_moved : Action.scan.Plain (edited movedDisk) := by
  intro cache hcache key entry hentry
  have hnames : (edited movedDisk).activeCache?.map
      (fun cache => (cache.reload (edited movedDisk).disk).2.schemas.map Schema.name) = some ["T"] := by
    decide +kernel
  rw [hcache, Option.map_some, Option.some.injEq] at hnames
  have hname := List.mem_map_of_mem (f := Schema.name) (SchemaCache.mem_schemas (SchemaCache.schema?_of_get? hentry))
  rw [hnames] at hname
  have htitle : entry.schema.name = "T" := by simpa using hname
  rw [htitle]
  decide

/-- The scan gives the type of `a` up and registers it again for `b`. -/
theorem registered_scan_moved :
    (edited movedDisk).Present "T" ∧ ∃ cache, (edited movedDisk).scan.cache = some cache ∧ HasName cache "T" := by
  obtain ⟨hbefore, hafter⟩ := registered_of_reaches fresh_ofMemory rfl (reaches_edited movedDisk)
  have hrun : "T" ∈ (edited movedDisk).registry.registered ∧ "T" ∈ (edited movedDisk).scan.registry.registered ∧
      (edited movedDisk).activeCache?.isSome = true := by
    decide +kernel
  obtain ⟨hregistered, hscanned, hactive⟩ := hrun
  exact ⟨(hbefore "T" hregistered).1, ((hafter hactive plain_scan_moved "T").1 hscanned).2⟩

end TagTypes.Service
