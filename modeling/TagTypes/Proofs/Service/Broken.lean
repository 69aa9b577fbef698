import Mathlib.Tactic
import TagTypes.Proofs.Service.Retitled

/-!
# Files that are broken for a moment

A scan does not tell a file that holds no schema from one that is not there: to both it answers by giving the type up. So the type of a key whose file is broken is there after the scan only if the same scan synchronizes another schema that describes it. A message with the same text is rejected and leaves all types as they are.
-/

namespace TagTypes

namespace SchemaCache

variable {directory : FilePath} {disk : Disk} {key : String}

/-- The file that is written for the key can be read, but is no text or the text of no schema. -/
def IsBroken (directory : FilePath) (disk : Disk) (key : String) : Prop :=
  ∃ content, disk.readFile (directory.child (key ++ ".json")) = .ok content ∧
    ∀ text, Disk.decodeText content = .ok text → (Schema.parse key text).isOk = false

theorem IsBroken.held? (h : IsBroken directory disk key) (hkey : key ≠ "") :
    held? directory disk (key ++ ".json") = none := by
  obtain ⟨content, hread, hbroken⟩ := h
  have htext : disk.readText (directory.child (key ++ ".json")) = Disk.decodeText content := by
    rw [Disk.readText, hread]
  rw [SchemaCache.held?, htext, FilePath.stemOf_fileName hkey]
  cases hdecode : Disk.decodeText content with
  | error fault => rfl
  | ok text =>
    have hparse := hbroken text hdecode
    cases hparsed : Schema.parse key text with
    | error e => simp [Except.toOption, hparsed]
    | ok schema =>
      rw [hparsed] at hparse
      cases hparse

/-- Nothing is read for a key whose file is broken. -/
theorem IsBroken.get?_loadAll (h : IsBroken directory disk key)
    (hjson : key = ".json" → SchemaCache.held? directory disk ".json" = none) : (loadAll directory disk).get? key = none := by
  by_cases hkey : key = ""
  · rw [hkey, get?_loadAll_empty]
  · rw [get?_loadAll_eq hkey, h.held? hkey, Option.none_or]
    split
    · rename_i hname
      exact hjson hname
    · rfl

end SchemaCache

namespace Service

open Registry (typePath nestedPaths)
open TagPath (IsName)
open SchemaCache (IsBroken held?)

variable {s : Service} {q : Registry Tags} {cache : SchemaCache} {key text : String} {schema before : Schema}

/-- A running service with a provider in memory has the type of a key's schema. Now the file of this key is broken, and the schemas of all other keys are read as they are cached. -/
structure Broken (s : Service) (cache : SchemaCache) (key : String) (before : Schema) : Prop where
  active : s.activeCache? = some cache
  allowDelete : s.allowDelete = true
  memory : (s.registry.tags.memory? s.settings.provider.name).isSome = true
  arrange : s.arrange = fun schemas => some (Dependency.order schemas)
  cached : cache.schema? key = some before
  named : IsName before.name
  stored : (s.config? (typePath before.name)).isSome = true
  file : IsBroken cache.directory s.disk key
  alone : key = ".json" → held? cache.directory s.disk ".json" = none
  others : ∀ other, key ≠ other → (cache.reload s.disk).2.schema? other = cache.schema? other

namespace Broken

variable (h : Broken s cache key before)
include h

theorem get?_reload : (cache.reload s.disk).2.entries.get? key = none := h.file.get?_loadAll h.alone

theorem schema?_reload : (cache.reload s.disk).2.schema? key = none := by
  rw [SchemaCache.schema?_eq, h.get?_reload, Option.map_none]

/-- The scan gives up the name of the schema, as if the file was gone. -/
theorem mem_stale : before.name ∈ s.stale cache := by
  obtain ⟨text, hentry⟩ := SchemaCache.schema?_eq_some_iff.1 h.cached
  exact mem_staleTypes_iff.2 ⟨key, _, hentry, rfl, Or.inl h.get?_reload⟩

theorem eq_of_mem_stale {type : String} (htype : type ∈ s.stale cache) : type = before.name := by
  obtain ⟨other, entry, hentry, rfl, hchanged⟩ := mem_staleTypes_iff.1 htype
  by_cases hother : key = other
  · subst hother
    rw [← Option.some_inj.1 (h.cached.symm.trans (SchemaCache.schema?_of_get? hentry))]
  · -- the schema of another key is read again, so its name is not given up
    have hsame := h.others other hother
    rw [SchemaCache.schema?_of_get? hentry] at hsame
    rcases hchanged with hgone | ⟨after, hafter, -, -, hne⟩
    · have hnone : (cache.reload s.disk).2.schema? other = none := by
        rw [SchemaCache.schema?_eq, show (cache.reload s.disk).2.entries.get? other = none from hgone, Option.map_none]
      rw [hnone] at hsame
      cases hsame
    · have hread : (cache.reload s.disk).2.schema? other = some _ := SchemaCache.schema?_of_get? hafter
      rw [hread] at hsame
      exact absurd (congrArg Schema.name (Option.some.inj hsame)).symm hne

theorem mem_removeEach_iff (hq : s.Holds q) {name : String} :
    name ∈ (q.removeEach (Tags.access s.arrange) (s.stale cache)).registered ↔
      name ∈ s.registry.registered ∧ name ≠ before.name := by
  have hstored : (q.tags.config? (typePath before.name)).isSome = true := by
    rw [← hq.config?_eq]
    exact h.stored
  rw [hq.registered]
  constructor
  · intro hname
    refine ⟨Registry.mem_registered_of_removeEach _ hname, ?_⟩
    rintro rfl
    exact Registry.notMem_registered_removeEach hstored h.mem_stale (fun _ => h.eq_of_mem_stale) hname
  · intro hboth
    obtain ⟨hname, hne⟩ := hboth
    exact Registry.mem_registered_removeEach_of_notMem (fun hstale => hne (h.eq_of_mem_stale hstale)) hname

/-- The scan synchronizes those cached schemas of other keys that have another text or whose types are not registered after the removal. -/
theorem mem_pending_iff (hq : s.Holds q) :
    schema ∈ s.pending cache ↔ ∃ other, key ≠ other ∧ cache.schema? other = some schema ∧
      (other ∈ (cache.reload s.disk).1.updated ∨ schema.name ∉ s.registry.registered ∨ schema.name = before.name) := by
  have hunregistered : schema.name ∉ (q.removeEach (Tags.access s.arrange) (s.stale cache)).registered ↔
      schema.name ∉ s.registry.registered ∨ schema.name = before.name := by
    rw [h.mem_removeEach_iff hq, not_and_or, not_not]
  rw [mem_pendingSchemas_iff hq, hunregistered]
  refine exists_congr fun other => ?_
  by_cases hother : key = other
  · subst hother
    rw [h.schema?_reload]
    simp
  · rw [h.others other hother, and_iff_right hother]
    refine and_congr_right fun hschema => ?_
    have hadded : other ∉ (cache.reload s.disk).1.added := by
      obtain ⟨text, hentry⟩ := SchemaCache.schema?_eq_some_iff.1 hschema
      intro hmem
      rw [(SchemaCache.mem_added.1 hmem).1] at hentry
      cases hentry
    rw [or_iff_right hadded]

end Broken

/-- A message with a text that is no schema leaves all types as they are. -/
theorem config?_received_of_not_schema (hparse : (Schema.parse key text).isOk = false) :
    (s.received key text).config? = s.config? := by
  cases hactive : s.activeCache? with
  | none => rw [received_inactive hactive]
  | some cache =>
    rcases hsave : cache.save key text s.disk with ⟨e | ⟨schema, saved⟩, disk⟩
    · rw [received_rejected hactive hsave]
      rfl
    · rw [(SchemaCache.save_ok hsave).2.1] at hparse
      cases hparse

/-- If the file of a key is broken, then a scan leaves the definition of the key's type if and only if another cached schema describes it and is synchronized by this scan: because it has the same name, or because it has an inline object of this type and either its text is another one or its own type is not registered. The type stays registered if and only if another cached schema has its name. A message with a text that is no schema takes no type away. -/
theorem config?_scan_of_broken (h : Broken s cache key before) :
    ((s.scan.config? (typePath before.name)).isSome = true ↔ ∃ other schema, key ≠ other ∧ cache.schema? other = some schema ∧
      (schema.name = before.name ∨ typePath before.name ∈ nestedPaths schema ∧
        (other ∈ (cache.reload s.disk).1.updated ∨ schema.name ∉ s.registry.registered))) ∧
    (before.name ∈ s.scan.registry.registered ↔ ∃ other schema, key ≠ other ∧ cache.schema? other = some schema ∧
      schema.name = before.name) ∧
    ∀ text, (Schema.parse key text).isOk = false → (s.received key text).config? = s.config? := by
  obtain ⟨q, hq⟩ := exists_holds h.memory
  refine ⟨?_, ?_, fun text => config?_received_of_not_schema⟩
  · rw [isSome_config?_scan_iff hq h.arrange h.active h.allowDelete h.named]
    constructor
    · rintro (⟨-, hkept⟩ | ⟨schema, hschema, hdescribed⟩)
      · exact absurd (Registry.normalize_typePath h.named) (hkept _ h.mem_stale)
      · obtain ⟨other, hother, hcached, hsynced⟩ := (h.mem_pending_iff hq).1 hschema
        refine ⟨other, schema, hother, hcached, ?_⟩
        tauto
    · rintro ⟨other, schema, hother, hcached, hdescribed⟩
      refine Or.inr ⟨schema, (h.mem_pending_iff hq).2 ⟨other, hother, hcached, ?_⟩, ?_⟩
      · tauto
      · tauto
  · rw [mem_registered_scan_iff hq h.arrange h.active h.allowDelete, h.mem_removeEach_iff hq]
    constructor
    · rintro (⟨-, hne⟩ | ⟨-, schema, hschema, hname⟩)
      · exact absurd rfl hne
      · obtain ⟨other, hother, hcached, -⟩ := (h.mem_pending_iff hq).1 hschema
        exact ⟨other, schema, hother, hcached, hname⟩
    · rintro ⟨other, schema, hother, hcached, hname⟩
      exact Or.inr ⟨h.named, schema, (h.mem_pending_iff hq).2 ⟨other, hother, hcached, Or.inr (Or.inr hname)⟩, hname⟩

/-- A brace that stands alone in the file of the only key. -/
theorem broken_overwritten : ∃ cache before, Broken (overwritten "\x7b") cache "a" before ∧ before.name = "A" ∧
    cache.keys = ["a"] := by
  have hservice : (overwritten "\x7b").allowDelete = true ∧
      ((overwritten "\x7b").registry.tags.memory? (overwritten "\x7b").settings.provider.name).isSome = true ∧
      ((overwritten "\x7b").config? (typePath "A")).isSome = true := by
    decide +kernel
  have hrun : (overwritten "\x7b").activeCache?.map (fun cache => ((cache.schema? "a").map Schema.name, cache.keys,
      (cache.reload (overwritten "\x7b").disk).2.keys,
      ((overwritten "\x7b").disk.readFile (cache.directory.child "a.json")).toOption.map fun content =>
        (Disk.decodeText content).toOption.map fun text => (Schema.parse "a" text).isOk)) =
          some (some "A", ["a"], [], some (some false)) := by
    decide +kernel
  obtain ⟨cache, hactive, hrun⟩ := Option.map_eq_some_iff.1 hrun
  rw [Prod.mk.injEq, Prod.mk.injEq, Prod.mk.injEq] at hrun
  obtain ⟨hcached, hkeys, hnone, hfile⟩ := hrun
  obtain ⟨before, hbefore, hname⟩ := Option.map_eq_some_iff.1 hcached
  obtain ⟨content, hcontent, hdecoded⟩ := Option.map_eq_some_iff.1 hfile
  have hbroken : IsBroken cache.directory (overwritten "\x7b").disk "a" := by
    refine ⟨content, toOption_eq_some_iff.1 hcontent, fun text htext => ?_⟩
    rw [htext] at hdecoded
    exact Option.some.inj hdecoded
  refine ⟨cache, before, ?_, hname, hkeys⟩
  exact {
    active := hactive
    allowDelete := hservice.1
    memory := hservice.2.1
    arrange := (attains_overwritten _).arrange_eq
    cached := hbefore
    named := by rw [hname]; decide
    stored := by rw [hname]; exact hservice.2.2
    file := hbroken
    alone := fun hjson => absurd hjson (by decide)
    others := fun other hother => by
      have hbefore : cache.schema? other = none := by
        rw [SchemaCache.schema?_eq_none_iff, hkeys, List.mem_singleton]
        exact Ne.symm hother
      rw [hbefore, SchemaCache.schema?_eq_none_iff, hnone]
      exact List.not_mem_nil }

/-- A scan that finds only a brace in the file of the only key takes its type away. -/
theorem config?_scan_brace : ((overwritten "\x7b").scan.config? (typePath "A")).isSome = false := by
  obtain ⟨cache, before, hbroken, hname, hkeys⟩ := broken_overwritten
  rw [Bool.eq_false_iff, ← hname]
  intro hthere
  obtain ⟨other, schema, hother, hschema, -⟩ := (config?_scan_of_broken hbroken).1.1 hthere
  have hnone : cache.schema? other = none := by
    rw [SchemaCache.schema?_eq_none_iff, hkeys, List.mem_singleton]
    exact Ne.symm hother
  rw [hnone] at hschema
  cases hschema

/-- A scan does not keep the types whose files are broken. -/
theorem not_kept_broken : ¬∀ (s : Service) (cache : SchemaCache) (key : String) (before : Schema), Broken s cache key before →
    (s.scan.config? (typePath before.name)).isSome = true := by
  intro hall
  obtain ⟨cache, before, hbroken, hname, -⟩ := broken_overwritten
  have hgone : (overwritten "\x7b").scan.registry.registered = [] ∧
      ((overwritten "\x7b").scan.config? (typePath "A")).isSome = false := by
    decide +kernel
  have hkept := hall _ cache "a" before hbroken
  rw [hname, hgone.2] at hkept
  cases hkept

end Service

end TagTypes
