import Mathlib.Tactic
import TagTypes.Proofs.SchemaCache.Reload
import TagTypes.Proofs.Service.Scan

/-!
# Messages and files written by others

There are two ways for a schema to come in: a message brings it, or others write it into the cache directory and a scan finds it. Both end with the same cache, files, definitions and registered types, if the service was at rest before: then the scan finds a change at one key only, gives the same name up as the message does and synchronizes the same schema. A text that was cached already is the exception: the message synchronizes its schema again and the scan does not, which makes no difference in a service at rest.
-/

namespace TagTypes

namespace Registry

variable {σ : Type} {access : Access σ} {r : Registry σ} {previous : Option Schema} {schema : Schema}

/-- What was told before does not count. -/
theorem replace_tell (access : Access σ) (previous : Option Schema) (schema : Schema) (r : Registry σ) (e : Event) :
    (replace access previous schema (r.tell e)).tags = (replace access previous schema r).tags ∧
      (replace access previous schema (r.tell e)).registered = (replace access previous schema r).registered := by
  unfold replace giveUp
  cases previous with
  | none => exact ⟨rfl, rfl⟩
  | some before =>
    simp only
    split <;> exact ⟨rfl, rfl⟩

theorem replace_of_same (hsame : ∀ before ∈ previous, before.name = schema.name) :
    replace access previous schema r = (r.sync access schema).2 := by
  rw [replace, giveUp_of_same hsame]

theorem registered_sync_of_mem (hschema : schema.name ∈ r.registered) : (r.sync access schema).2.registered = r.registered := by
  have hadd : addType schema.name r.registered = r.registered := if_pos (List.contains_iff_mem.2 hschema)
  unfold sync
  simp only [tell, hadd, ite_self]

theorem mem_registered_giveUp {name : String} (hregistered : name ∈ r.registered)
    (hkept : ∀ before ∈ previous, before.name ≠ name) : name ∈ (giveUp access previous schema r).registered := by
  apply giveUp_induction (P := fun r => name ∈ r.registered) schema hregistered
  intro before hbefore
  unfold remove
  simp only [tell]
  split
  · exact List.mem_filter.2 ⟨hregistered, by simpa using (hkept before hbefore).symm⟩
  · exact hregistered

end Registry

namespace Service

open SchemaCache (Coherent mem_added mem_updated mem_deleted isValidKey loadAll)

/-! ### States of a service -/

/-- The states that a service comes to while others do what they like to its disk and to its provider, which stays in memory. -/
inductive Attains (s : Service) : Service → Prop
  | here : Attains s s
  | next {t : Service} (a : Action) (ht : Attains s t) : Attains s (t.perform a)
  | retag {t : Service} (tags : Depot) (ht : Attains s t)
      (hmemory : (tags.memory? t.settings.provider.name).isSome = true) :
      Attains s { t with registry := { t.registry with tags } }

/-- A reload would find nothing new, the cached schemas have different names, all of them are registered, and to synchronize one of them again would leave the provider as it is. -/
structure AtRest (s : Service) (cache : SchemaCache) : Prop where
  unchanged : (cache.reload s.disk).1.any = false
  distinct : (cache.schemas.map Schema.name).Nodup
  named : ∀ schema ∈ cache.schemas, schema.name ≠ ""
  registered : ∀ schema ∈ cache.schemas, schema.name ∈ s.registry.registered
  synced : ∀ schema ∈ cache.schemas, (s.syncType schema).config? = s.config?

variable {s t : Service} {q : Registry Tags} {cache : SchemaCache} {key other text : String} {schema : Schema} {disk : Disk}

theorem syncAll_singleton (harrange : s.arrange = fun schemas => some (Dependency.order schemas)) (schema : Schema) :
    s.syncAll [schema] = s.syncType schema := by
  have hordered : s.access.arrange [schema] = some [schema] := by
    have hsame : s.access.arrange = s.arrange := rfl
    rw [hsame, harrange]
    exact congrArg some (List.perm_singleton.1 (Dependency.perm_order [schema]))
  rw [syncAll, Registry.syncAll, hordered]
  rfl

theorem Orderly.attains (h : Orderly s q) (ht : Attains s t) : ∃ q', Orderly t q' := by
  induction ht with
  | here => exact ⟨q, h⟩
  | next a _ ih =>
    obtain ⟨q', hq'⟩ := ih
    exact hq'.perform a
  | retag tags _ hmemory ih =>
    obtain ⟨q', hq'⟩ := ih
    obtain ⟨kept, hkept⟩ := Option.isSome_iff_exists.1 hmemory
    exact ⟨{ q' with tags := kept }, hq'.allowDelete, ⟨⟨hkept, rfl⟩, hq'.holds.registered, hq'.holds.log⟩, hq'.named,
      hq'.coherent⟩

/-! What a service does leaves the way in which it arranges schemas. -/

theorem arrange_received : (s.received key text).arrange = s.arrange := by
  unfold received receive
  cases s.activeCache? with
  | none => rfl
  | some cache =>
    simp only
    rcases cache.save key text s.disk with ⟨e | ⟨schema, saved⟩, disk⟩
    · cases e <;> rfl
    · simp only
      cases cache.schema? key with
      | none => rfl
      | some previous =>
        simp only
        split <;> rfl

theorem arrange_deleted : (s.deleted key).arrange = s.arrange := by
  unfold deleted
  cases s.activeCache? with
  | none => rfl
  | some cache =>
    simp only
    split <;> split <;> rfl

theorem arrange_scan : s.scan.arrange = s.arrange := by
  unfold scan
  cases s.activeCache? with
  | none => rfl
  | some cache =>
    simp only [foldl_removeType]
    split <;> split <;> rfl

theorem arrange_handle (signal : Broker.Signal) : (s.handle signal).arrange = s.arrange := by
  cases signal with
  | received name text => exact arrange_received
  | deleted name => exact arrange_deleted
  | connected => rfl
  | disconnected cause => rfl

theorem arrange_start (k : Broker.Conditions) : (s.start k).arrange = s.arrange := by
  rcases hprepare : SchemaCache.prepare { directory := cacheDirectory s.settings } s.disk with ⟨e | cache, disk⟩
  · rw [start_unprepared hprepare]
    rfl
  · rw [start_prepared hprepare]
    apply startWith_induction (P := fun t => t.arrange = s.arrange) (Q := fun t => t.arrange = s.arrange)
    · exact fun _ _ _ ht => ht
    · exact fun signal _ t ht => (arrange_handle signal).trans ht
    · exact fun _ ht => ht
    · exact fun _ ht => ht
    · exact fun _ _ _ ht => ht
    · rfl

theorem arrange_perform (a : Action) : (s.perform a).arrange = s.arrange := by
  cases a with
  | start k => exact arrange_start k
  | stop k =>
    obtain ⟨feed, attached, scanning, timer, hstop⟩ := stop_eq k s
    rw [perform, hstop]
  | message m =>
    cases m with
    | received key text => exact arrange_received
    | deleted key => exact arrange_deleted
  | scan => exact arrange_scan
  | edit disk => rfl

theorem Attains.arrange_eq (ht : Attains s t) : t.arrange = s.arrange := by
  induction ht with
  | here => rfl
  | next a _ ih => rw [arrange_perform, ih]
  | retag tags _ _ ih => exact ih

theorem attains_run (actions : List Action) (s : Service) : Attains s (s.run actions) := by
  induction actions using List.reverseRecOn with
  | nil => exact .here
  | append_singleton rest a ih =>
    rw [run, List.foldl_concat]
    exact .next a ih

/-- The registry over the tags in memory after a message that was accepted. -/
theorem Orderly.holds_received (h : Orderly s q) (hactive : s.activeCache? = some cache) {saved : SchemaCache}
    (hsave : cache.save key text s.disk = (.ok (schema, saved), disk)) : (s.received key text).Holds
      (Registry.replace (Tags.access s.arrange) (cache.schema? key) schema (q.tell (.schemaReceived key))) := by
  have hadmitted := h.admitted (activeCache?_eq_some_iff.1 hactive).2 hsave
  rw [received_saved hactive h.allowDelete hsave]
  exact hadmitted.holds.replace _ _

/-- After a message that was accepted, to synchronize its schema again would leave the provider as it is. -/
theorem Orderly.config?_syncType_received (h : Orderly s q) (hactive : s.activeCache? = some cache) {saved : SchemaCache}
    (hsave : cache.save key text s.disk = (.ok (schema, saved), disk)) :
    ((s.received key text).syncType schema).config? = (s.received key text).config? := by
  have hreceived := h.holds_received hactive hsave
  rw [(hreceived.syncType schema).config?_eq, hreceived.config?_eq, arrange_received, Registry.replace]
  exact Registry.config?_sync_sync

/-- The schemas of two keys have two names. -/
theorem AtRest.name_ne (h : AtRest s cache) {found before : Schema} (hother : key ≠ other)
    (hfound : cache.schema? other = some found) (hbefore : cache.schema? key = some before) : before.name ≠ found.name := by
  have hnames : (cache.entries.schemas.entries.map fun e => e.2.name).Nodup := by
    have hdistinct := h.distinct
    unfold SchemaCache.schemas Dict.values at hdistinct
    rw [List.map_map] at hdistinct
    exact hdistinct
  intro hsame
  have heq := List.inj_on_of_nodup_map hnames (Dict.mem_entries_iff.2 hbefore) (Dict.mem_entries_iff.2 hfound) hsame
  exact hother (congrArg Prod.fst heq)

/-! ### A scan that finds one key changed -/

section Changed

variable {old new : CachedSchemas} {directory : FilePath} {entry : CachedSchema}
  (hnew : ∀ other, new.get? other = if key = other then some entry else old.get? other)
include hnew

theorem mem_added_iff : other ∈ (SchemaCache.changes old new).added ↔ other = key ∧ old.get? key = none := by
  rw [mem_added, hnew]
  constructor
  · intro hfound
    obtain ⟨hbefore, after, hafter⟩ := hfound
    by_cases hother : key = other
    · subst hother
      exact ⟨rfl, hbefore⟩
    · rw [if_neg hother, hbefore] at hafter
      cases hafter
  · intro hboth
    obtain ⟨rfl, hbefore⟩ := hboth
    exact ⟨hbefore, entry, if_pos rfl⟩

theorem mem_updated_iff : other ∈ (SchemaCache.changes old new).updated ↔
    other = key ∧ ∃ before, old.get? key = some before ∧ before.text ≠ entry.text := by
  rw [mem_updated]
  constructor
  · intro hfound
    obtain ⟨before, after, hbefore, hafter, htext⟩ := hfound
    rw [hnew] at hafter
    split at hafter
    · rename_i hother
      cases hafter
      subst hother
      exact ⟨rfl, before, hbefore, htext⟩
    · rw [hbefore] at hafter
      cases hafter
      exact absurd rfl htext
  · intro hboth
    obtain ⟨rfl, before, hbefore, htext⟩ := hboth
    exact ⟨before, entry, hbefore, by rw [hnew, if_pos rfl], htext⟩

theorem deleted_eq_nil : (SchemaCache.changes old new).deleted = [] := by
  apply List.eq_nil_iff_forall_not_mem.2
  intro other hother
  obtain ⟨⟨before, hbefore⟩, hgone⟩ := mem_deleted.1 hother
  rw [hnew] at hgone
  split at hgone
  · cases hgone
  · rw [hbefore] at hgone
    cases hgone

/-- The scan gives up the name that the key had before, if that is another one. -/
theorem removeEach_staleTypes {σ : Type} (access : Access σ) (r : Registry σ)
    (hnamed : ∀ before ∈ SchemaCache.schema? ⟨directory, old⟩ key, before.name ≠ "")
    (hsame : ∀ before, old.get? key = some before → before.text = entry.text → before.schema.name = entry.schema.name) :
    r.removeEach access (staleTypes ⟨directory, old⟩ ⟨directory, new⟩ (SchemaCache.changes old new)) =
      r.giveUp access (SchemaCache.schema? ⟨directory, old⟩ key) entry.schema := by
  have hdeleted := deleted_eq_nil hnew
  unfold staleTypes
  rw [hdeleted, List.nil_append]
  by_cases hupdated : ∃ before, old.get? key = some before ∧ before.text ≠ entry.text
  · have honly : Text.sorted (SchemaCache.changes old new).updated = [key] := by
      apply Text.eq_singleton_of_nodup (Text.nodup_sorted SchemaCache.nodup_updated)
      intro other
      rw [Text.mem_sorted, mem_updated_iff hnew, and_iff_left hupdated]
    obtain ⟨before, hbefore, -⟩ := hupdated
    have hold : SchemaCache.schema? ⟨directory, old⟩ key = some before.schema := SchemaCache.schema?_of_get? hbefore
    have hafter : SchemaCache.schema? ⟨directory, new⟩ key = some entry.schema :=
      SchemaCache.schema?_of_get? ((hnew key).trans (if_pos rfl))
    have hstale : staleType? ⟨directory, old⟩ ⟨directory, new⟩ (SchemaCache.changes old new) key =
        if before.schema.name ≠ entry.schema.name then some before.schema.name else none := by
      have hne := hnamed before.schema hold
      rw [staleType?, hdeleted, hold, hafter]
      simp [hne]
    rw [honly, hold, List.filterMap_cons, hstale]
    by_cases hname : before.schema.name = entry.schema.name
    · rw [if_neg (not_not_intro hname), Registry.giveUp_of_same (by simpa using hname)]
      rfl
    · rw [if_pos hname, Registry.giveUp_of_renamed hname]
      rfl
  · have hnone : (SchemaCache.changes old new).updated = [] := by
      apply List.eq_nil_iff_forall_not_mem.2
      intro other hother
      exact hupdated ((mem_updated_iff hnew).1 hother).2
    rw [hnone, Text.sorted_nil, Registry.giveUp_of_same]
    · rfl
    · intro before hbefore
      obtain ⟨text, hentry⟩ := SchemaCache.schema?_eq_some_iff.1 hbefore
      apply hsame _ hentry
      by_contra htext
      exact hupdated ⟨_, hentry, htext⟩

/-- If the types of all other keys are registered, the scan synchronizes the schema of the key alone, and that only if its text is not as before or its type is not registered. -/
theorem mem_pendingKeys_iff {registry : Registry Depot}
    (hothers : ∀ other schema, key ≠ other → SchemaCache.schema? ⟨directory, old⟩ other = some schema →
      schema.name ∈ registry.registered) :
    other ∈ pendingKeys registry ⟨directory, new⟩ (SchemaCache.changes old new) ↔
      other = key ∧ ((∀ before, old.get? key = some before → before.text ≠ entry.text) ∨
        entry.schema.name ∉ registry.registered) := by
  have hafter : SchemaCache.schema? ⟨directory, new⟩ key = some entry.schema :=
    SchemaCache.schema?_of_get? ((hnew key).trans (if_pos rfl))
  rw [mem_pendingKeys_iff_or, mem_added_iff hnew, mem_updated_iff hnew]
  constructor
  · rintro (⟨rfl, hnone⟩ | ⟨rfl, before, hbefore, htext⟩ | ⟨schema, hschema, hunregistered⟩)
    · refine ⟨rfl, Or.inl fun before hbefore => ?_⟩
      rw [hnone] at hbefore
      cases hbefore
    · refine ⟨rfl, Or.inl fun found hfound => ?_⟩
      rw [hbefore] at hfound
      cases hfound
      exact htext
    · by_cases hother : key = other
      · subst hother
        cases hafter.symm.trans hschema
        exact ⟨rfl, Or.inr hunregistered⟩
      · have hkept : SchemaCache.schema? ⟨directory, new⟩ other = SchemaCache.schema? ⟨directory, old⟩ other :=
          SchemaCache.schema?_congr ((hnew other).trans (if_neg hother))
        rw [hkept] at hschema
        exact absurd (hothers other schema hother hschema) hunregistered
  · rintro ⟨rfl, htext | hunregistered⟩
    · cases hbefore : old.get? other with
      | none => exact Or.inl ⟨rfl, rfl⟩
      | some before => exact Or.inr (Or.inl ⟨rfl, before, rfl, htext before hbefore⟩)
    · exact Or.inr (Or.inr ⟨entry.schema, hafter, hunregistered⟩)

end Changed

/-! ### A schema that others have written -/

/-- The text of a schema was written for a key into the cache directory of a running service at rest, which gave `disk`. -/
structure Delivered (s : Service) (q : Registry Tags) (cache : SchemaCache) (key text : String) (schema : Schema)
    (disk : Disk) : Prop extends Orderly s q where
  arrange : s.arrange = fun schemas => some (Dependency.order schemas)
  active : s.activeCache? = some cache
  rest : AtRest s cache
  validKey : isValidKey key = true
  write : Disk.writeText (cache.fileFor key) text s.disk = (.ok (), disk)
  noReturn : '\r' ∉ text.toList
  parse : Schema.parse key text = .ok schema

/-- The service that has read its cache again, with another disk. -/
def reread (s : Service) (cache : SchemaCache) (disk : Disk) : Service :=
  { s.withDisk disk with cache := some (cache.reload disk).2 }

namespace Delivered

variable (h : Delivered s q cache key text schema disk)
include h

theorem coherent_cache : Coherent cache.entries := h.coherent cache (activeCache?_eq_some_iff.1 h.active).2

/-- What the cache held for the key is the schema of a text. -/
theorem eq_of_text {before : CachedSchema} (hbefore : cache.entries.get? key = some before) (htext : before.text = text) :
    before = ⟨schema, text⟩ := by
  have hparse := h.coherent_cache key before hbefore
  rw [htext, h.parse] at hparse
  obtain ⟨found, text'⟩ := before
  cases hparse
  cases htext
  rfl

/-- The reload finds the schema under its key and all other keys as before. -/
theorem get?_reload (other : String) : (cache.reload disk).2.entries.get? other =
    if key = other then some (CachedSchema.mk schema text) else cache.entries.get? other := by
  have hne : key ≠ "" := by
    rintro rfl
    cases h.validKey
  obtain ⟨place, hwritten⟩ := Disk.written_of_writeText h.write
  have hbefore : (loadAll cache.directory s.disk).get? other = cache.entries.get? other :=
    h.coherent_cache.get?_eq_of_unchanged (SchemaCache.coherent_loadAll _ _) h.rest.unchanged
  rw [← hbefore]
  exact SchemaCache.get?_loadAll_written hwritten hne h.noReturn h.parse

/-- The scan gives up the name that the message gives up. -/
theorem reloaded_eq : (s.withDisk disk).reloaded cache =
    (s.reread cache disk).withRegistry
      ((s.withDisk disk).registry.giveUp s.access (cache.schema? key) schema) := by
  have hstale : (s.withDisk disk).registry.removeEach s.access (staleTypes cache (cache.reload disk).2 (cache.reload disk).1) =
      (s.withDisk disk).registry.giveUp s.access (cache.schema? key) schema := by
    apply removeEach_staleTypes h.get?_reload
    · intro before hbefore
      exact h.rest.named before (SchemaCache.mem_schemas hbefore)
    · intro before hbefore hsame
      rw [h.eq_of_text hbefore hsame]
  rw [← hstale]
  rfl

/-- A key is synchronized by the scan if and only if it is the key of the schema, and the text is new to it or the type is not registered. -/
theorem mem_pending_iff : other ∈ pendingKeys ((s.withDisk disk).reloaded cache).registry (cache.reload disk).2
    (cache.reload disk).1 ↔ other = key ∧ ((∀ before, cache.entries.get? key = some before → before.text ≠ text) ∨
      schema.name ∉ ((s.withDisk disk).reloaded cache).registry.registered) := by
  apply mem_pendingKeys_iff h.get?_reload
  intro other found hother hfound
  rw [h.reloaded_eq]
  apply Registry.mem_registered_giveUp
  · exact h.rest.registered found (SchemaCache.mem_schemas hfound)
  · intro before hbefore
    exact h.rest.name_ne hother hfound hbefore

/-- A text that is new to the key is synchronized in the place of the one before. -/
theorem scan_changed (hchanged : ∀ before, cache.entries.get? key = some before → before.text ≠ text) :
    (s.withDisk disk).scan = (s.reread cache disk).withRegistry
      ((s.withDisk disk).registry.replace s.access (cache.schema? key) schema) := by
  have hpending : pendingKeys ((s.withDisk disk).reloaded cache).registry (cache.reload disk).2 (cache.reload disk).1 = [key] := by
    apply Text.eq_singleton_of_nodup (Text.nodup_sortedSet _)
    intro other
    exact h.mem_pending_iff.trans (and_iff_left (Or.inl hchanged))
  have hschemas : [key].filterMap (cache.reload disk).2.schema? = [schema] := by
    have hafter : (cache.reload disk).2.schema? key = some schema :=
      SchemaCache.schema?_of_get? ((h.get?_reload key).trans (if_pos rfl))
    rw [List.filterMap_cons, hafter]
    rfl
  have hdisk : (s.withDisk disk).disk = disk := rfl
  rw [Service.scan_active (s := s.withDisk disk) h.active h.allowDelete, hdisk, hpending]
  simp only [hschemas]
  rw [h.reloaded_eq, syncAll_singleton (s := (s.reread cache disk).withRegistry _) h.arrange]
  rfl

/-- A text that was cached under the key already is not synchronized. -/
theorem scan_same (hsame : cache.entries.get? key = some ⟨schema, text⟩) :
    (s.withDisk disk).scan = s.reread cache disk := by
  have hschema : cache.schema? key = some schema := SchemaCache.schema?_of_get? hsame
  have hreloaded := h.reloaded_eq
  rw [hschema, Registry.giveUp_of_same (by simp)] at hreloaded
  have hpending : pendingKeys ((s.withDisk disk).reloaded cache).registry (cache.reload disk).2 (cache.reload disk).1 = [] := by
    apply List.eq_nil_iff_forall_not_mem.2
    intro other hother
    obtain ⟨-, htext | hunregistered⟩ := h.mem_pending_iff.1 hother
    · exact htext _ hsame rfl
    · rw [hreloaded] at hunregistered
      exact hunregistered (h.rest.registered schema (SchemaCache.mem_schemas hschema))
  have hdisk : (s.withDisk disk).disk = disk := rfl
  rw [Service.scan_active (s := s.withDisk disk) h.active h.allowDelete, hdisk, hpending]
  simp only [hreloaded]
  rfl

/-- The service that has got the message. -/
theorem received_eq : s.received key text =
    (s.admitted { cache with entries := cache.entries.insert key ⟨schema, text⟩ } disk key).withRegistry
      (((s.withDisk disk).registry.tell (.schemaReceived key)).replace s.access (cache.schema? key) schema) := by
  have hsave := SchemaCache.save_of_writeText h.validKey h.parse h.write
  rw [received_saved h.active h.allowDelete hsave]
  rfl

/-- Both services hold the same schemas and texts. -/
theorem cached?_received : (s.received key text).cached? = (s.reread cache disk).cached? := by
  funext other
  have hinsert : (s.received key text).cached? other = (cache.entries.insert key ⟨schema, text⟩).get? other := by
    rw [h.received_eq]
    rfl
  have hreload : (s.reread cache disk).cached? other = (cache.reload disk).2.entries.get? other := rfl
  rw [hinsert, hreload, h.get?_reload, CachedSchemas.get?_insert]

theorem files_received : (s.received key text).disk = disk := by
  have hadmitted := h.admitted (activeCache?_eq_some_iff.1 h.active).2 (SchemaCache.save_of_writeText h.validKey h.parse h.write)
  rw [h.received_eq]
  exact hadmitted.holds.disk_replace _ _

/-- To synchronize the schema of a cached text once more changes nothing. -/
theorem config?_received_same (hsame : cache.entries.get? key = some ⟨schema, text⟩) :
    (s.received key text).config? = s.config? := by
  have hschema : cache.schema? key = some schema := SchemaCache.schema?_of_get? hsame
  have hsave := SchemaCache.save_of_writeText h.validKey h.parse h.write
  have hreceived := h.holds_received h.active hsave
  rw [hschema] at hreceived
  have hsynced := h.holds.syncType schema
  have htags : (Registry.replace (Tags.access s.arrange) (some schema) schema (q.tell (.schemaReceived key))).tags =
      (q.sync (Tags.access s.arrange) schema).2.tags := by
    rw [(Registry.replace_tell _ _ _ _ _).1, Registry.replace_of_same (by simp)]
  rw [hreceived.config?_eq, htags, ← hsynced.config?_eq]
  exact h.rest.synced schema (SchemaCache.mem_schemas hschema)

theorem agree_same (hsame : cache.entries.get? key = some ⟨schema, text⟩) :
    Alike (s.received key text) (s.withDisk disk).scan ∧
      (s.received key text).registry.registered = (s.withDisk disk).scan.registry.registered := by
  have hschema : cache.schema? key = some schema := SchemaCache.schema?_of_get? hsame
  rw [h.scan_same hsame]
  refine ⟨⟨h.cached?_received, congrArg Disk.node? h.files_received, h.config?_received_same hsame⟩, ?_⟩
  have hregistered := h.rest.registered schema (SchemaCache.mem_schemas hschema)
  rw [h.received_eq, hschema, Registry.replace_of_same (by simp)]
  exact Registry.registered_sync_of_mem hregistered

theorem agree_changed (hchanged : ∀ before, cache.entries.get? key = some before → before.text ≠ text) :
    Alike (s.received key text) (s.withDisk disk).scan ∧
      (s.received key text).registry.registered = (s.withDisk disk).scan.registry.registered := by
  obtain ⟨htags, hregistered⟩ := Registry.replace_tell s.access (cache.schema? key) schema (s.withDisk disk).registry
    (.schemaReceived key)
  have hcached := h.cached?_received
  rw [h.scan_changed hchanged]
  rw [h.received_eq] at hcached ⊢
  refine ⟨⟨hcached, congrArg (fun tags : Depot => tags.disk.node?) htags, ?_⟩, hregistered⟩
  exact congrArg (fun tags : Depot => fun path => (tags.directory.find? s.settings.provider.name).bind fun index =>
    tags.providers[index]?.bind (Provider.config? path)) htags

end Delivered

/-- Others may do what they like to the disk and the provider of a service, which stays in memory: if the service is at rest, then a schema that a message brings and one that others write into the cache directory, to be found by a scan, end in the same cache, files, definitions and registered types. -/
theorem alike_received_scan (hs : Fresh s) (harrange : s.arrange = fun schemas => some (Dependency.order schemas))
    (ht : Attains s t) (hactive : t.activeCache? = some cache) (hrest : AtRest t cache) (hkey : isValidKey key = true)
    (hwrite : Disk.writeText (cache.fileFor key) text t.disk = (.ok (), disk)) (htext : '\r' ∉ text.toList)
    (hparse : Schema.parse key text = .ok schema) :
    Alike (t.received key text) (t.withDisk disk).scan ∧
      (t.received key text).registry.registered = (t.withDisk disk).scan.registry.registered := by
  obtain ⟨q, hq, -⟩ := hs.orderly
  obtain ⟨q', hq'⟩ := hq.attains ht
  have h : Delivered t q' cache key text schema disk := ⟨hq', ht.arrange_eq.trans harrange, hactive, hrest, hkey, hwrite, htext, hparse⟩
  by_cases hchanged : ∀ before, cache.entries.get? key = some before → before.text ≠ text
  · exact h.agree_changed hchanged
  · push Not at hchanged
    obtain ⟨before, hbefore, hsame⟩ := hchanged
    rw [h.eq_of_text hbefore hsame] at hbefore
    exact h.agree_same hbefore

/-! ### A schema with a new title -/

/-- A started service with nothing in its cache directory. -/
@[irreducible]
def started : Service := ofMemory.run [.start {}]

theorem attains_started : Attains ofMemory started := by
  unfold started
  exact attains_run _ _

/-- The service with a schema of the given title under the key `a`. -/
def withTitle (title : String) : Service := started.received "a" (titled title)

theorem attains_withTitle (title : String) : Attains ofMemory (withTitle title) :=
  .next (.message (.received "a" (titled title))) attains_started

/-- A service whose empty cache took a schema is at rest if a reload finds nothing new and the type is registered. -/
theorem Orderly.atRest_received (h : Orderly s q) (hactive : s.activeCache? = some cache) (hnone : cache.schemas = [])
    {saved : SchemaCache} (hsave : cache.save key text s.disk = (.ok (schema, saved), disk))
    (hunchanged : (saved.reload (s.received key text).disk).1.any = false) (hname : schema.name ≠ "")
    (hregistered : schema.name ∈ (s.received key text).registry.registered) : AtRest (s.received key text) saved := by
  have honly := SchemaCache.schemas_save hnone hsave
  refine ⟨hunchanged, ?_, ?_, ?_, ?_⟩
  · rw [honly]
    exact List.nodup_singleton _
  · simpa [honly] using hname
  · simpa [honly] using hregistered
  · simpa [honly] using h.config?_syncType_received hactive hsave

theorem atRest_withTitle : ∃ cache, (withTitle "A").activeCache? = some cache ∧ AtRest (withTitle "A") cache := by
  have hstart : started.activeCache?.map (fun cache =>
      (cache.schemas.map Schema.name, (cache.save "a" (titled "A") started.disk).1.isOk)) = some ([], true) := by
    decide +kernel
  have hrun : (withTitle "A").activeCache?.map (fun cache =>
      ((cache.reload (withTitle "A").disk).1.any, cache.schemas.map Schema.name)) = some (false, ["A"]) ∧
      "A" ∈ (withTitle "A").registry.registered := by
    decide +kernel
  obtain ⟨cache, hactive, hstart⟩ := Option.map_eq_some_iff.1 hstart
  obtain ⟨hnothing, hsaved⟩ := Prod.mk.inj hstart
  have hnone : cache.schemas = [] := List.map_eq_nil_iff.1 hnothing
  obtain ⟨q, hq, -⟩ := fresh_ofMemory.orderly
  obtain ⟨q', hq'⟩ := hq.attains attains_started
  rcases hsave : cache.save "a" (titled "A") started.disk with ⟨e | ⟨schema, saved⟩, disk⟩
  · rw [hsave] at hsaved
    cases hsaved
  · have htaken : (withTitle "A").activeCache? = some saved := by
      rw [withTitle, received_saved hactive hq'.allowDelete hsave]
      exact activeCache?_eq_some_iff.2 ⟨(activeCache?_eq_some_iff.1 hactive).1, rfl⟩
    rw [htaken, Option.map_some, Option.some.injEq, Prod.mk.injEq, SchemaCache.schemas_save hnone hsave] at hrun
    obtain ⟨⟨hunchanged, hnames⟩, hregistered⟩ := hrun
    have hname : schema.name = "A" := (List.cons.inj hnames).1
    refine ⟨saved, htaken, hq'.atRest_received hactive hnone hsave hunchanged ?_ ?_⟩
    · rw [hname]
      decide
    · rwa [hname]

/-- A message and a written file both bring the new title in the place of the old one. -/
theorem alike_retitled : ∃ disk, "B" ∈ ((withTitle "A").received "a" (titled "B")).registry.registered ∧
    Alike ((withTitle "A").received "a" (titled "B")) ((withTitle "A").withDisk disk).scan ∧
      ((withTitle "A").received "a" (titled "B")).registry.registered =
        ((withTitle "A").withDisk disk).scan.registry.registered := by
  obtain ⟨cache, hactive, hrest⟩ := atRest_withTitle
  have hrun : (withTitle "A").activeCache?.map (fun cache =>
      (Disk.writeText (cache.fileFor "a") (titled "B") (withTitle "A").disk).1.isOk) = some true ∧
      "B" ∈ ((withTitle "A").received "a" (titled "B")).registry.registered := by
    decide +kernel
  have hparsed : (Schema.parse "a" (titled "B")).isOk = true := by decide +kernel
  obtain ⟨hwritten, hregistered⟩ := hrun
  rw [hactive, Option.map_some, Option.some.injEq] at hwritten
  rcases hwrite : Disk.writeText (cache.fileFor "a") (titled "B") (withTitle "A").disk with ⟨e | ⟨⟩, disk⟩
  · rw [hwrite] at hwritten
    cases hwritten
  · cases hparse : Schema.parse "a" (titled "B") with
    | error e =>
      rw [hparse] at hparsed
      cases hparsed
    | ok schema =>
      exact ⟨disk, hregistered, alike_received_scan fresh_ofMemory rfl (attains_withTitle "A") hactive hrest (by decide) hwrite
        (by decide +kernel) hparse⟩

end Service

end TagTypes
