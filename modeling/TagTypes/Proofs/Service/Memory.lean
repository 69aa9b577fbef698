import Mathlib.Tactic
import TagTypes.Proofs.Registry.Simulation
import TagTypes.Proofs.SchemaCache
import TagTypes.Service

/-!
# Services over a provider in memory

What the service does to its registry it could do to a registry over the tags of its provider, if the provider keeps them in memory. Each operation of the service is written as one change of the cache, the disk and the registry.
-/

namespace TagTypes

namespace Service

open Registry (Related)

/-- The provider of the service keeps its tags in memory, and `q` is the registry seen over these tags alone. -/
def Holds (s : Service) (q : Registry Tags) : Prop := Related (Depot.Keeps s.settings.provider.name s.disk) s.registry q

theorem Holds.simulated (s : Service) :
    Access.Simulated (Depot.Keeps s.settings.provider.name s.disk) s.access (Tags.access s.arrange) :=
  Depot.simulated _ _ _

variable {s : Service} {q : Registry Tags}

theorem exists_holds (hmemory : (s.registry.tags.memory? s.settings.provider.name).isSome = true) :
    ∃ q, s.Holds q := by
  obtain ⟨tags, htags⟩ := Option.isSome_iff_exists.1 hmemory
  exact ⟨{ s.registry with tags }, ⟨htags, rfl⟩, rfl, rfl⟩

theorem Holds.registered (h : s.Holds q) : s.registry.registered = q.registered := Related.registered h

theorem Holds.config? (h : s.Holds q) (path : String) :
    s.registry.tags.config? s.settings.provider.name path = q.tags.config? path :=
  Depot.config?_of_memory? (Related.tags h).1 path

/-! ### Operations as changes of the registry -/

/-- The service with another registry. -/
def withRegistry (s : Service) (r : Registry Depot) : Service := { s with registry := r }

theorem holds_withRegistry {r : Registry Depot} (h : Related (Depot.Keeps s.settings.provider.name s.disk) r q) :
    (s.withRegistry r).Holds q := by
  have hdisk : (s.withRegistry r).disk = s.disk := h.tags.2
  refine ⟨?_, h.registered, h.log⟩
  rw [hdisk]
  exact h.tags

theorem Holds.withDisk (h : s.Holds q) (disk : Disk) : (s.withDisk disk).Holds q := by
  have hrelated : Related _ s.registry q := h
  exact ⟨⟨hrelated.tags.1, rfl⟩, hrelated.registered, hrelated.log⟩

theorem Holds.tell (h : s.Holds q) (e : Event) : (s.tell e).Holds (q.tell e) := Related.tell h e

theorem Holds.removeType (h : s.Holds q) (type : String) :
    (s.removeType type).Holds (q.remove (Tags.access s.arrange) type).2 :=
  holds_withRegistry (Registry.remove_simulated (Holds.simulated s) h type).2

theorem Holds.syncAll (h : s.Holds q) (schemas : List Schema) :
    (s.syncAll schemas).Holds (q.syncAll (Tags.access s.arrange) schemas).2 :=
  holds_withRegistry (Registry.syncAll_simulated (Holds.simulated s) h schemas).2

theorem Holds.removeEach (h : s.Holds q) (types : List String) :
    (s.withRegistry (s.registry.removeEach s.access types)).Holds (q.removeEach (Tags.access s.arrange) types) :=
  holds_withRegistry (Registry.removeEach_simulated (Holds.simulated s) types h)

theorem Holds.replace (h : s.Holds q) (previous : Option Schema) (schema : Schema) :
    (s.withRegistry (s.registry.replace s.access previous schema)).Holds
      (q.replace (Tags.access s.arrange) previous schema) :=
  holds_withRegistry (Registry.replace_simulated (Holds.simulated s) h previous schema)

theorem Holds.syncType (h : s.Holds q) (schema : Schema) :
    (s.syncType schema).Holds (q.sync (Tags.access s.arrange) schema).2 := h.replace none schema

/-! A provider in memory does not touch the disk. -/

theorem Holds.disk_removeType (h : s.Holds q) (type : String) : (s.removeType type).disk = s.disk :=
  (Registry.remove_simulated (Holds.simulated s) h type).2.tags.2

theorem Holds.disk_replace (h : s.Holds q) (previous : Option Schema) (schema : Schema) :
    (s.withRegistry (s.registry.replace s.access previous schema)).disk = s.disk :=
  (Registry.replace_simulated (Holds.simulated s) h previous schema).tags.2

theorem foldl_removeType (types : List String) :
    ∀ s : Service, types.foldl (fun s type => s.removeType type) s =
      s.withRegistry (s.registry.removeEach s.access types) := by
  induction types with
  | nil => exact fun s => rfl
  | cons type rest ih =>
    intro s
    rw [List.foldl_cons, ih]
    rfl

variable {cache : SchemaCache} {key text : String}

theorem received_inactive (hactive : s.activeCache? = none) : s.received key text = s := by
  rw [received, receive, hactive]

theorem received_rejected (hactive : s.activeCache? = some cache) {e : CacheError} {disk : Disk}
    (hsave : cache.save key text s.disk = (.error e, disk)) :
    s.received key text = (s.withDisk disk).tell (.schemaRejected key (rejection e)) := by
  have hbytes : e ≠ .unencodable := SchemaCache.save_ne_unencodable hsave
  rw [received, receive, hactive]
  simp only [hsave]

/-- The service that has taken a schema into its cache. -/
def admitted (s : Service) (saved : SchemaCache) (disk : Disk) (key : String) : Service :=
  ({ s with cache := some saved }.withDisk disk).tell (.schemaReceived key)

theorem received_saved (hactive : s.activeCache? = some cache) (hdelete : s.allowDelete = true) {schema : Schema}
    {saved : SchemaCache} {disk : Disk} (hsave : cache.save key text s.disk = (.ok (schema, saved), disk)) :
    s.received key text =
      (s.admitted saved disk key).withRegistry
        ((s.admitted saved disk key).registry.replace (s.admitted saved disk key).access (cache.schema? key) schema) := by
  have hdelete' : (s.admitted saved disk key).allowDelete = true := hdelete
  rw [received, receive, hactive]
  simp only [hsave]
  rw [← admitted]
  unfold Registry.replace Registry.giveUp
  cases cache.schema? key with
  | none => rfl
  | some previous =>
    simp only [hdelete', Bool.and_true, decide_eq_true_eq]
    split <;> rfl

theorem deleted_inactive (hactive : s.activeCache? = none) : s.deleted key = s := by
  rw [deleted, hactive]

/-- The type that is given up with a key. -/
def typeOf (cache : SchemaCache) (key : String) : String := ((cache.schema? key).map Schema.name).getD key

theorem deleted_kept (hactive : s.activeCache? = some cache) (hdelete : s.allowDelete = true) {e : CacheError} {disk : Disk}
    (hremove : cache.remove key (s.removeType (typeOf cache key)).disk = (.error e, disk)) :
    s.deleted key = (s.removeType (typeOf cache key)).withDisk disk := by
  rw [deleted, hactive]
  simp only [hdelete, if_true]
  rw [← typeOf, hremove]

theorem deleted_removed (hactive : s.activeCache? = some cache) (hdelete : s.allowDelete = true) {saved : SchemaCache}
    {disk : Disk} (hremove : cache.remove key (s.removeType (typeOf cache key)).disk = (.ok saved, disk)) :
    s.deleted key =
      ({ s.removeType (typeOf cache key) with cache := some saved }.withDisk disk).tell (.schemaDeleted key) := by
  rw [deleted, hactive]
  simp only [hdelete, if_true]
  rw [← typeOf, hremove]

theorem scan_inactive (hactive : s.activeCache? = none) : s.scan = s := by
  rw [scan, hactive]

/-- The service after a reload of its cache, without the types that were given up. -/
def reloaded (s : Service) (cache : SchemaCache) : Service :=
  let (changes, new) := cache.reload s.disk
  { s with cache := some new }.withRegistry (s.registry.removeEach s.access (staleTypes cache new changes))

theorem scan_active (hactive : s.activeCache? = some cache) (hdelete : s.allowDelete = true) :
    s.scan =
      match pendingKeys (s.reloaded cache).registry (cache.reload s.disk).2 (cache.reload s.disk).1 with
      | [] => s.reloaded cache
      | pending => (s.reloaded cache).syncAll (pending.filterMap (cache.reload s.disk).2.schema?) := by
  have hdelete' : { s with cache := some (cache.reload s.disk).2 }.allowDelete = true := hdelete
  rw [scan, hactive]
  simp only [hdelete', if_true, foldl_removeType]
  rfl

end Service

end TagTypes
