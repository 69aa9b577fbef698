import Mathlib.Tactic
import TagTypes.Proofs.Service.Outcome

/-!
# A scan settles

After a scan the cache is what a reload reads from the disk, and the types of all cached schemas are registered. A service that is up to date in this sense has nothing to do in a scan: no file has changed, no name is given up and no schema is left to be synchronized. So one more scan leaves it as it is and asks nothing of its provider. That nothing is asked is said by exchanging the providers: a scan leaves whatever stands in their place as it is, also a provider that writes down its calls.
-/

namespace TagTypes

namespace SchemaCache

/-- Between a cache and itself nothing has changed. -/
theorem changes_self (entries : CachedSchemas) : changes entries entries = {} := by
  have hkept : ∀ key ∈ entries.texts.keys, entries.texts.contains key = true := fun key hkey => Dict.mem_keys_iff.1 hkey
  have hnone : entries.texts.keys.filter (!entries.texts.contains ·) = [] :=
    List.filter_eq_nil_iff.2 fun key hkey => by simp [hkept key hkey]
  have hsame : entries.texts.keys.filter (fun key => entries.texts.contains key &&
      entries.texts.get? key ≠ entries.texts.get? key) = [] :=
    List.filter_eq_nil_iff.2 fun key _ => by simp
  rw [changes, hnone, hsame, Text.sorted_nil]

end SchemaCache

namespace Service

open TagPath (IsName)

variable {s : Service} {q : Registry Tags} {cache : SchemaCache}

/-- The cache holds what is in its directory, and the types of all its schemas are registered. -/
structure UpToDate (s : Service) (cache : SchemaCache) : Prop where
  active : s.activeCache? = some cache
  read : SchemaCache.loadAll cache.directory s.disk = cache.entries
  registered : ∀ key schema, cache.schema? key = some schema → schema.name ∈ s.registry.registered

/-- The service with other providers. -/
def withTags (s : Service) (tags : Depot) : Service := { s with registry := { s.registry with tags } }

/-- Where nothing has changed no name is given up. -/
theorem staleTypes_unchanged (old new : SchemaCache) : staleTypes old new {} = [] := by
  rw [staleTypes, List.append_nil, Text.sorted_nil, List.filterMap_nil]

namespace UpToDate

theorem reload_eq (h : UpToDate s cache) : cache.reload s.disk = ({}, cache) := by
  rw [SchemaCache.reload, h.read, SchemaCache.changes_self]

theorem pendingKeys_eq_nil (h : UpToDate s cache) : pendingKeys s.registry cache {} = [] := by
  apply List.eq_nil_iff_forall_not_mem.2
  intro key hkey
  rcases mem_pendingKeys_iff_or.1 hkey with hadded | hupdated | ⟨schema, hschema, hunregistered⟩
  · cases hadded
  · cases hupdated
  · exact hunregistered (h.registered key schema hschema)

/-- A service that is up to date does nothing in a scan. -/
theorem scan_eq (h : UpToDate s cache) : s.scan = s := by
  have hcached : { s with cache := some cache } = s := by
    rw [← (activeCache?_eq_some_iff.1 h.active).2]
  rw [Service.scan, h.active]
  simp only [h.reload_eq, staleTypes_unchanged, List.foldl_nil, ite_self, hcached, h.pendingKeys_eq_nil]

/-- Being up to date is no matter of the providers. -/
theorem withTags (h : UpToDate s cache) {tags : Depot} (htags : tags.disk = s.disk) : UpToDate (s.withTags tags) cache := by
  refine ⟨h.active, ?_, h.registered⟩
  have hdisk : (s.withTags tags).disk = s.disk := htags
  rw [hdisk]
  exact h.read

end UpToDate

/-! ### What a scan comes to -/

/-- The service after a reload of its cache and the removal of some types. -/
def rereadWithout (s : Service) (cache : SchemaCache) (types : List String) : Service :=
  { s with cache := some (cache.reload s.disk).2 }.withRegistry (s.registry.removeEach s.access types)

/-- The schemas that are to be synchronized after that. -/
def pendingWithout (s : Service) (cache : SchemaCache) (types : List String) : List Schema :=
  (pendingKeys (s.rereadWithout cache types).registry (cache.reload s.disk).2 (cache.reload s.disk).1).filterMap
    (cache.reload s.disk).2.schema?

/-- Whether types may be deleted or not: a scan removes some types, if any, and then synchronizes schemas. -/
theorem exists_scan_eq (harrange : s.arrange = fun schemas => some (Dependency.order schemas))
    (hactive : s.activeCache? = some cache) :
    ∃ types, s.scan = (s.rereadWithout cache types).syncAll (s.pendingWithout cache types) := by
  let types : List String := if s.allowDelete then staleTypes cache (cache.reload s.disk).2 (cache.reload s.disk).1 else []
  have hremoved : (if s.allowDelete then
      (staleTypes cache (cache.reload s.disk).2 (cache.reload s.disk).1).foldl (fun s type => s.removeType type)
        { s with cache := some (cache.reload s.disk).2 }
      else { s with cache := some (cache.reload s.disk).2 }) = s.rereadWithout cache types := by
    simp only [types]
    split
    · exact foldl_removeType _ _
    · rfl
  have hdelete : { s with cache := some (cache.reload s.disk).2 }.allowDelete = s.allowDelete := rfl
  refine ⟨types, ?_⟩
  rw [Service.scan, hactive, pendingWithout]
  simp only [hdelete, hremoved]
  split
  · rename_i hnone
    rw [hnone]
    exact (syncAll_nil (s := s.rereadWithout cache types) harrange).symm
  · rfl

section Scan

variable (h : s.Holds q) (harrange : s.arrange = fun schemas => some (Dependency.order schemas))
include h

theorem Holds.rereadWithout (cache : SchemaCache) (types : List String) :
    (s.rereadWithout cache types).Holds (q.removeEach (Tags.access s.arrange) types) :=
  Holds.removeEach (s := { s with cache := some (cache.reload s.disk).2 }) h types

/-- Neither removals nor synchronizations touch the disk of a provider in memory. -/
theorem Holds.disk_rereadWithout_syncAll (cache : SchemaCache) (types : List String) (schemas : List Schema) :
    ((s.rereadWithout cache types).syncAll schemas).disk = s.disk := by
  have hremoved : (s.rereadWithout cache types).disk = s.disk :=
    (Registry.removeEach_simulated (Holds.simulated s) types h).tags.2
  have hsynced : ((s.rereadWithout cache types).syncAll schemas).disk = (s.rereadWithout cache types).disk :=
    (Registry.syncAll_simulated (Holds.simulated _) (h.rereadWithout cache types) schemas).2.tags.2
  exact hsynced.trans hremoved

include harrange

/-- A schema that was read is registered already, or it is pending and is registered now. -/
theorem Holds.mem_registered_rereadWithout_syncAll {types : List String} {key : String} {schema : Schema}
    (hschema : (cache.reload s.disk).2.schema? key = some schema) (hname : IsName schema.name) :
    schema.name ∈ ((s.rereadWithout cache types).syncAll (s.pendingWithout cache types)).registry.registered := by
  have hreread := h.rereadWithout cache types
  have harranged : (s.rereadWithout cache types).arrange = fun schemas => some (Dependency.order schemas) := harrange
  rw [(hreread.syncAll _).registered, harranged, Registry.mem_registered_syncAll, ← hreread.registered]
  by_cases hregistered : schema.name ∈ (s.rereadWithout cache types).registry.registered
  · exact Or.inl hregistered
  · have hpending : schema ∈ s.pendingWithout cache types :=
      List.mem_filterMap.2 ⟨key, mem_pendingKeys _ hschema hregistered, hschema⟩
    obtain ⟨text, hparse⟩ := SchemaCache.Coherent.parse (SchemaCache.coherent_loadAll cache.directory s.disk) hschema
    have hstored := Udt.stored?_of_legibleDefaults (Schema.legibleDefaults_parse hparse) hname
    exact Or.inr ⟨schema, hpending, by rw [hstored]; rfl, rfl⟩

/-- A scan brings a service up to date if all schemas that it reads have names that can name a tag. -/
theorem Holds.upToDate_scan (hactive : s.activeCache? = some cache)
    (hnames : ∀ key schema, (cache.reload s.disk).2.schema? key = some schema → IsName schema.name) :
    UpToDate s.scan (cache.reload s.disk).2 := by
  obtain ⟨types, hscan⟩ := exists_scan_eq harrange hactive
  rw [hscan]
  refine ⟨activeCache?_eq_some_iff.2 ⟨(activeCache?_eq_some_iff.1 hactive).1, rfl⟩, ?_, ?_⟩
  · rw [h.disk_rereadWithout_syncAll cache types]
    rfl
  · exact fun key schema hschema => h.mem_registered_rereadWithout_syncAll harrange hschema (hnames key schema hschema)

end Scan

/-- If all schemas in the cache directory have names that can name a tag, then a second scan after a first one leaves a service with a provider in memory as it is: its cache, disk, provider, registered types and events. It would leave any other providers as they are as well, so it calls none. -/
theorem scan_scan (hmemory : (s.registry.tags.memory? s.settings.provider.name).isSome = true)
    (harrange : s.arrange = fun schemas => some (Dependency.order schemas)) (hactive : s.activeCache? = some cache)
    (hnames : ∀ key schema, (cache.reload s.disk).2.schema? key = some schema → IsName schema.name) :
    s.scan.scan = s.scan ∧
      ∀ tags : Depot, tags.disk = s.scan.disk → (s.scan.withTags tags).scan = s.scan.withTags tags := by
  obtain ⟨q, hq⟩ := exists_holds hmemory
  have hcurrent := hq.upToDate_scan harrange hactive hnames
  exact ⟨hcurrent.scan_eq, fun tags htags => (hcurrent.withTags htags).scan_eq⟩

/-- The service with the schema `A` under the key `a`, after others have put the file of the key `b`, with other line ends, in the place of that of `a`. -/
@[irreducible]
def replaced : Service :=
  (withTitle "A").withDisk (Disk.writeText (FilePath.parse "modules/schema-tag-provider/schemas/b.json")
    "\x7b\r\n\"title\": \"B\"\x7d" started.disk).2

theorem attains_replaced : Attains ofMemory replaced := by
  unfold replaced
  exact .next (.edit _) (attains_withTitle "A")

/-- The first scan exchanges the two types, and the second has nothing to do. -/
theorem scan_scan_replaced : "A" ∈ replaced.registry.registered ∧ replaced.scan.registry.registered = ["B"] ∧
    replaced.scan.scan = replaced.scan := by
  have hrun : replaced.activeCache?.map (fun cache => (cache.reload replaced.disk).2.schemas.map Schema.name) = some ["B"] ∧
      "A" ∈ replaced.registry.registered ∧ replaced.scan.registry.registered = ["B"] := by
    decide +kernel
  have hmemory : (replaced.registry.tags.memory? replaced.settings.provider.name).isSome = true := by decide +kernel
  have harrange : replaced.arrange = fun schemas => some (Dependency.order schemas) := attains_replaced.arrange_eq
  obtain ⟨hread, hbefore, hafter⟩ := hrun
  obtain ⟨cache, hactive, hread⟩ := Option.map_eq_some_iff.1 hread
  refine ⟨hbefore, hafter, (scan_scan hmemory harrange hactive fun key schema hschema => ?_).1⟩
  have hname := List.mem_map_of_mem (f := Schema.name) (SchemaCache.mem_schemas hschema)
  rw [hread, List.mem_singleton] at hname
  rw [hname]
  decide

end Service

end TagTypes
