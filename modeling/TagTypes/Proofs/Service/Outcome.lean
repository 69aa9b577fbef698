import Mathlib.Tactic
import TagTypes.Proofs.Registry.Presence
import TagTypes.Proofs.Service.Agreement

/-!
# What a scan leaves

A scan gives names up and then synchronizes schemas, and it decides on both before the first synchronization. So a type is registered after it if the removals left it registered or if one of the synchronized schemas has its name; and its definition is there if no removal was given its path or if one of these schemas describes it.
-/

namespace TagTypes.Service

open Registry (typePath nestedPaths)
open TagPath (IsName normalize)

variable {s : Service} {q : Registry Tags} {cache : SchemaCache} {key name : String} {schema : Schema}

/-- The names that a scan gives up. -/
def stale (s : Service) (cache : SchemaCache) : List String :=
  staleTypes cache (cache.reload s.disk).2 (cache.reload s.disk).1

/-- The schemas that a scan synchronizes. -/
def pending (s : Service) (cache : SchemaCache) : List Schema :=
  (pendingKeys (s.reloaded cache).registry (cache.reload s.disk).2 (cache.reload s.disk).1).filterMap
    (cache.reload s.disk).2.schema?

theorem syncAll_nil (harrange : s.arrange = fun schemas => some (Dependency.order schemas)) : s.syncAll [] = s := by
  have hordered : s.access.arrange [] = some [] := by
    have hsame : s.access.arrange = s.arrange := rfl
    rw [hsame, harrange]
    exact congrArg some Dependency.order_nil
  rw [syncAll, Registry.syncAll, hordered]
  rfl

theorem scan_eq (harrange : s.arrange = fun schemas => some (Dependency.order schemas))
    (hactive : s.activeCache? = some cache) (hdelete : s.allowDelete = true) :
    s.scan = (s.reloaded cache).syncAll (s.pending cache) := by
  have hreloaded : (s.reloaded cache).arrange = fun schemas => some (Dependency.order schemas) := harrange
  rw [scan_active hactive hdelete, pending]
  split
  · rename_i hnone
    rw [hnone]
    exact (syncAll_nil hreloaded).symm
  · rfl

theorem Holds.reloaded (h : s.Holds q) (cache : SchemaCache) :
    (s.reloaded cache).Holds (q.removeEach (Tags.access s.arrange) (s.stale cache)) :=
  Holds.removeEach (s := { s with cache := some (cache.reload s.disk).2 }) h _

/-- A schema that a reload has read is synchronized if it is new, if its text is another one or if its type is not registered. -/
theorem mem_pendingSchemas_iff (h : s.Holds q) :
    schema ∈ s.pending cache ↔ ∃ key, (cache.reload s.disk).2.schema? key = some schema ∧
      (key ∈ (cache.reload s.disk).1.added ∨ key ∈ (cache.reload s.disk).1.updated ∨
        schema.name ∉ (q.removeEach (Tags.access s.arrange) (s.stale cache)).registered) := by
  have hregistered := (h.reloaded cache).registered
  unfold pending
  simp only [List.mem_filterMap, mem_pendingKeys_iff_or, hregistered]
  constructor
  · rintro ⟨key, hadded | hupdated | ⟨found, hfound, hname⟩, hschema⟩
    · exact ⟨key, hschema, Or.inl hadded⟩
    · exact ⟨key, hschema, Or.inr (Or.inl hupdated)⟩
    · cases hfound.symm.trans hschema
      exact ⟨key, hschema, Or.inr (Or.inr hname)⟩
  · rintro ⟨key, hschema, hadded | hupdated | hname⟩
    · exact ⟨key, Or.inl hadded, hschema⟩
    · exact ⟨key, Or.inr (Or.inl hupdated), hschema⟩
    · exact ⟨key, Or.inr (Or.inr ⟨schema, hschema, hname⟩), hschema⟩

theorem legibleDefaults_of_mem_pending (h : schema ∈ s.pending cache) : schema.LegibleDefaults := by
  obtain ⟨key, -, hschema⟩ := List.mem_filterMap.1 h
  obtain ⟨text, hparse⟩ := SchemaCache.Coherent.parse (SchemaCache.coherent_loadAll cache.directory s.disk) hschema
  exact Schema.legibleDefaults_parse hparse

section Scan

variable (h : s.Holds q) (harrange : s.arrange = fun schemas => some (Dependency.order schemas))
  (hactive : s.activeCache? = some cache) (hdelete : s.allowDelete = true)
include h harrange hactive hdelete

theorem Holds.scan : s.scan.Holds
    ((q.removeEach (Tags.access s.arrange) (s.stale cache)).syncAll (Tags.access s.arrange) (s.pending cache)).2 := by
  rw [scan_eq harrange hactive hdelete]
  exact (h.reloaded cache).syncAll _

/-- Which types are registered after a scan. -/
theorem mem_registered_scan_iff : name ∈ s.scan.registry.registered ↔
    name ∈ (q.removeEach (Tags.access s.arrange) (s.stale cache)).registered ∨
      IsName name ∧ ∃ schema ∈ s.pending cache, schema.name = name := by
  rw [(Holds.scan h harrange hactive hdelete).registered]
  simp only [harrange, Registry.mem_registered_syncAll]
  refine or_congr_right ⟨?_, ?_⟩
  · rintro ⟨schema, hschema, hstored, rfl⟩
    exact ⟨Udt.isName_of_stored? hstored, schema, hschema, rfl⟩
  · rintro ⟨hname, schema, hschema, rfl⟩
    refine ⟨schema, hschema, ?_, rfl⟩
    rw [Udt.stored?_of_legibleDefaults (legibleDefaults_of_mem_pending hschema) hname]
    rfl

/-- Which types have a definition after a scan. -/
theorem isSome_config?_scan_iff (hname : IsName name) : (s.scan.config? (typePath name)).isSome = true ↔
    (s.config? (typePath name)).isSome = true ∧ (∀ type ∈ s.stale cache, normalize (typePath type) ≠ typePath name) ∨
      ∃ schema ∈ s.pending cache, schema.name = name ∨ typePath name ∈ nestedPaths schema := by
  rw [(Holds.scan h harrange hactive hdelete).config?_eq, h.config?_eq, harrange,
    Registry.isSome_config?_syncAll_iff (fun schema => legibleDefaults_of_mem_pending) hname,
    Registry.isSome_config?_removeEach_iff, Registry.normalize_typePath hname]

end Scan

end TagTypes.Service
