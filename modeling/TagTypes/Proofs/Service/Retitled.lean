import Mathlib.Tactic
import TagTypes.Proofs.Service.Outcome

/-!
# Schemas with new titles

When a key gets a schema of another name, by a message or by a file that a scan finds changed, the type of the name before is given up first and the new one is synchronized then. Whether that goes well does not matter for the first step. The new type is registered and stored if its name can name a tag; if it cannot, then the key has no type any more. After a scan the type of the name before may be there nevertheless, if some other schema describes it.
-/

namespace TagTypes.Service

open Registry (typePath nestedPaths)
open TagPath (IsName)

variable {s t : Service} {q : Registry Tags} {cache saved : SchemaCache} {key text type : String} {schema before : Schema}
  {disk : Disk}

theorem Holds.present_iff_config? (h : s.Holds q) :
    s.Present type ↔ type ∈ s.registry.registered ∧ (s.config? (typePath type)).isSome = true := by
  rw [h.present_iff, h.registered, h.config?_eq]

namespace Orderly

theorem isName_of_present (h : Orderly s q) (hpresent : s.Present type) : IsName type :=
  h.named type (h.holds.present_iff.1 hpresent).1

/-! ### Messages -/

section Received

variable (h : Orderly s q) (hactive : s.activeCache? = some cache)
  (hsave : cache.save key text s.disk = (.ok (schema, saved), disk))
include h hactive hsave

/-- The type of a schema that was taken is there if its name can name a tag. -/
theorem present_received_own_iff : (s.received key text).Present schema.name ↔ IsName schema.name := by
  constructor
  · intro hpresent
    obtain ⟨q', hq'⟩ := h.received key text
    exact hq'.isName_of_present hpresent
  · intro hname
    have hstored := Udt.stored?_of_legibleDefaults (Schema.legibleDefaults_parse (SchemaCache.save_ok hsave).2.1) hname
    rw [(h.holds_received hactive hsave).present_iff, Registry.replace, Registry.mem_registered_sync, hstored,
      Registry.config?_sync hstored]
    exact ⟨Or.inr ⟨rfl, rfl⟩, rfl⟩

/-- The type of the schema before is given up if the new one has another name. -/
theorem not_present_received (hbefore : cache.schema? key = some before) (hpresent : s.Present before.name)
    (hne : before.name ≠ schema.name) : ¬(s.received key text).Present before.name := by
  obtain ⟨-, hstored⟩ := h.holds.present_iff.1 hpresent
  rw [(h.holds_received hactive hsave).present_iff, Registry.replace, hbefore, Registry.giveUp_of_renamed hne,
    Registry.mem_registered_sync, Registry.mem_registered_remove]
  rintro ⟨⟨-, hkept⟩ | ⟨-, hsame⟩, -⟩
  · exact hkept ⟨Tags.contains_of_config? hstored, rfl⟩
  · exact hne hsame

end Received

/-! ### Scans -/

section Scanned

variable (h : Orderly s q) (harrange : s.arrange = fun schemas => some (Dependency.order schemas))
  (hactive : s.activeCache? = some cache) (hupdated : key ∈ (cache.reload s.disk).1.updated)
  (hschema : (cache.reload s.disk).2.schema? key = some schema)
include h harrange hactive hupdated hschema

theorem present_scan_own_iff : s.scan.Present schema.name ↔ IsName schema.name := by
  obtain ⟨q', hq'⟩ := h.scan
  refine ⟨hq'.isName_of_present, fun hname => ?_⟩
  have hpending : schema ∈ s.pending cache := (mem_pendingSchemas_iff h.holds).2 ⟨key, hschema, Or.inr (Or.inl hupdated)⟩
  rw [hq'.holds.present_iff_config?, mem_registered_scan_iff h.holds harrange hactive h.allowDelete,
    isSome_config?_scan_iff h.holds harrange hactive h.allowDelete hname]
  exact ⟨Or.inr ⟨hname, schema, hpending, rfl⟩, Or.inr ⟨schema, hpending, Or.inl rfl⟩⟩

/-- The type of the schema before is there after the scan only if some schema that was read describes it. -/
theorem described_of_present_scan (hbefore : cache.schema? key = some before) (hne : before.name ≠ schema.name)
    (hpresent : s.scan.Present before.name) : ∃ other found, (cache.reload s.disk).2.schema? other = some found ∧
      (found.name = before.name ∨ typePath before.name ∈ nestedPaths found) := by
  obtain ⟨q', hq'⟩ := h.scan
  have hname := hq'.isName_of_present hpresent
  have hstale : before.name ∈ s.stale cache := by
    obtain ⟨entry, after, hentry, hafter, htext⟩ := SchemaCache.mem_updated.1 hupdated
    cases (SchemaCache.schema?_of_get? hentry).symm.trans hbefore
    cases (SchemaCache.schema?_of_get? hafter).symm.trans hschema
    exact mem_staleTypes_iff.2 ⟨key, entry, hentry, rfl, Or.inr ⟨after, hafter, htext, hname.1, hne⟩⟩
  rw [hq'.holds.present_iff_config?, isSome_config?_scan_iff h.holds harrange hactive h.allowDelete hname] at hpresent
  rcases hpresent.2 with ⟨-, hkept⟩ | ⟨found, hfound, hdescribed⟩
  · exact absurd (Registry.normalize_typePath hname) (hkept _ hstale)
  · obtain ⟨other, hother, -⟩ := (mem_pendingSchemas_iff h.holds).1 hfound
    exact ⟨other, found, hother, hdescribed⟩

end Scanned

end Orderly

/-- Whatever others do to the disk and the provider of a service, which stays in memory: if a key's type is registered and stored, and the key gets another schema, then the type of this schema is registered and stored if and only if its name can name a tag; and if the name is another one than before, and no other key's schema had the name before, the type before is given up in any case. After a scan it is registered and stored only if some schema of the cache describes it. -/
theorem present_retitled (hs : Fresh s) (harrange : s.arrange = fun schemas => some (Dependency.order schemas))
    (ht : Attains s t) (hactive : t.activeCache? = some cache) (hbefore : cache.schema? key = some before)
    (hpresent : t.Present before.name) :
    (∀ text schema saved disk, cache.save key text t.disk = (.ok (schema, saved), disk) →
      ((t.received key text).Present schema.name ↔ IsName schema.name) ∧
        (before.name ≠ schema.name →
          (∀ other found, cache.schema? other = some found → found.name = before.name → other = key) →
            ¬(t.received key text).Present before.name)) ∧
    ∀ schema, key ∈ (cache.reload t.disk).1.updated → (cache.reload t.disk).2.schema? key = some schema →
      (t.scan.Present schema.name ↔ IsName schema.name) ∧
        (before.name ≠ schema.name → t.scan.Present before.name →
          ∃ other found, (cache.reload t.disk).2.schema? other = some found ∧
            (found.name = before.name ∨ typePath before.name ∈ nestedPaths found)) := by
  obtain ⟨q, hq, -⟩ := hs.orderly
  obtain ⟨q', hq'⟩ := hq.attains ht
  have harranged := ht.arrange_eq.trans harrange
  constructor
  · intro text schema saved disk hsave
    exact ⟨hq'.present_received_own_iff hactive hsave,
      fun hne _ => hq'.not_present_received hactive hsave hbefore hpresent hne⟩
  · intro schema hupdated hschema
    exact ⟨hq'.present_scan_own_iff harranged hactive hupdated hschema,
      hq'.described_of_present_scan harranged hactive hupdated hschema hbefore⟩

/-- The service with the schema `A` under the key `a`, after others have written a text into the file of this key. -/
@[irreducible]
def overwritten (text : String) : Service :=
  (withTitle "A").withDisk
    (Disk.writeText (FilePath.parse "modules/schema-tag-provider/schemas/a.json") text (withTitle "A").disk).2

theorem attains_overwritten (text : String) : Attains ofMemory (overwritten text) := by
  unfold overwritten
  exact .next (.edit _) (attains_withTitle "A")

/-- The key of `withTitle "A"`, which is the only one, may get a title with a slash: the text is taken, and the type was there before. -/
theorem exists_save_slash : ∃ cache before schema saved disk, (withTitle "A").activeCache? = some cache ∧
    cache.schema? "a" = some before ∧ before.name = "A" ∧ (withTitle "A").Present before.name ∧
    (∀ other found, cache.schema? other = some found → other = "a") ∧
    cache.save "a" (titled "x/y") (withTitle "A").disk = (.ok (schema, saved), disk) ∧ schema.name = "x/y" := by
  have hrun : (withTitle "A").activeCache?.map (fun cache => (cache.keys, (cache.schema? "a").map Schema.name,
      (cache.save "a" (titled "x/y") (withTitle "A").disk).1.toOption.map fun saved => saved.1.name)) =
        some (["a"], some "A", some "x/y") := by
    decide +kernel
  have hpresent : (withTitle "A").Present "A" := by
    unfold Present
    decide +kernel
  obtain ⟨cache, hactive, hrun⟩ := Option.map_eq_some_iff.1 hrun
  rw [Prod.mk.injEq, Prod.mk.injEq] at hrun
  obtain ⟨hkeys, hbefore, htaken⟩ := hrun
  have honly : ∀ other found, cache.schema? other = some found → other = "a" := by
    intro other found hfound
    rw [← List.mem_singleton, ← hkeys, SchemaCache.mem_keys_iff]
    exact Option.isSome_of_mem hfound
  obtain ⟨before, hbefore, hname⟩ := Option.map_eq_some_iff.1 hbefore
  obtain ⟨⟨schema, saved⟩, htaken, hslash⟩ := Option.map_eq_some_iff.1 htaken
  rcases hsave : cache.save "a" (titled "x/y") (withTitle "A").disk with ⟨outcome, disk⟩
  rw [hsave] at htaken
  cases toOption_eq_some_iff.1 htaken
  exact ⟨cache, before, schema, saved, disk, hactive, hbefore, hname, by rw [hname]; exact hpresent, honly, hsave, hslash⟩

/-- A message with a slash in the title leaves the key without a type; a scan that finds another title brings its type. -/
theorem present_retitled_slash : ¬((withTitle "A").received "a" (titled "x/y")).Present "A" ∧
    (overwritten (titled "B")).scan.Present "B" := by
  constructor
  · obtain ⟨cache, before, schema, saved, disk, hactive, hbefore, hname, hpresent, honly, hsave, hslash⟩ := exists_save_slash
    have hgone := ((present_retitled fresh_ofMemory rfl (attains_withTitle "A") hactive hbefore hpresent).1 _ _ _ _ hsave).2
      (by rw [hname, hslash]; decide) fun other found hfound _ => honly other found hfound
    rwa [hname] at hgone
  · have hrun : (overwritten (titled "B")).activeCache?.map (fun cache => ((cache.schema? "a").map Schema.name,
        (cache.reload (overwritten (titled "B")).disk).1.updated,
        ((cache.reload (overwritten (titled "B")).disk).2.schema? "a").map Schema.name)) = some (some "A", ["a"], some "B") := by
      decide +kernel
    have hpresent : (overwritten (titled "B")).Present "A" := by
      unfold Present
      decide +kernel
    obtain ⟨cache, hactive, hrun⟩ := Option.map_eq_some_iff.1 hrun
    rw [Prod.mk.injEq, Prod.mk.injEq] at hrun
    obtain ⟨hbefore, hupdated, hafter⟩ := hrun
    obtain ⟨before, hbefore, hname⟩ := Option.map_eq_some_iff.1 hbefore
    obtain ⟨schema, hschema, hnew⟩ := Option.map_eq_some_iff.1 hafter
    have hthere := ((present_retitled fresh_ofMemory rfl (attains_overwritten _) hactive hbefore (by rw [hname]; exact hpresent)).2
      schema (by rw [hupdated]; exact List.mem_cons_self) hschema).1.2 (by rw [hnew]; decide)
    rwa [hnew] at hthere

/-- A new title takes the type of the old one away although its own type cannot be imported. -/
theorem not_present_retitled : ¬∀ (s t : Service) (cache saved : SchemaCache) (key text : String) (before schema : Schema)
    (disk : Disk), Fresh s → (s.arrange = fun schemas => some (Dependency.order schemas)) → Attains s t →
    t.activeCache? = some cache → cache.schema? key = some before → t.Present before.name →
    cache.save key text t.disk = (.ok (schema, saved), disk) →
    (t.received key text).Present before.name ∨ (t.received key text).Present schema.name := by
  intro hall
  obtain ⟨cache, before, schema, saved, disk, hactive, hbefore, hname, hpresent, honly, hsave, hslash⟩ := exists_save_slash
  have hgone : "A" ∉ ((withTitle "A").received "a" (titled "x/y")).registry.registered ∧
      "x/y" ∉ ((withTitle "A").received "a" (titled "x/y")).registry.registered := by
    decide +kernel
  rcases hall _ _ cache saved "a" _ before schema disk fresh_ofMemory rfl (attains_withTitle "A") hactive hbefore hpresent hsave
    with hold | hnew
  · rw [hname] at hold
    exact hgone.1 hold.1
  · rw [hslash] at hnew
    exact hgone.2 hnew.1

end TagTypes.Service
