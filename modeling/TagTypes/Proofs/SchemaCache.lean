import Mathlib.Tactic
import TagTypes.Proofs.Dict
import TagTypes.Proofs.Disk.Writing
import TagTypes.SchemaCache

/-!
# Coherent caches

The two dictionaries of a cache have the same keys, so they are looked up as one. In a coherent cache each schema is the one that its text describes. All operations of a cache keep it coherent, whatever is on the disk, so the text under a key determines the schema.
-/

namespace TagTypes

namespace CachedSchemas

variable {c : CachedSchemas} {key : String} {entry : CachedSchema}

/-- Where one dictionary has nothing the other has nothing. -/
theorem isSome_get?_schemas (c : CachedSchemas) (key : String) : (c.schemas.get? key).isSome = (c.texts.get? key).isSome := by
  rw [Bool.eq_iff_iff, ← Dict.mem_keys_iff, ← Dict.mem_keys_iff, c.keys_eq]

theorem get?_schemas (c : CachedSchemas) (key : String) : c.schemas.get? key = (c.get? key).map CachedSchema.schema := by
  have hboth := c.isSome_get?_schemas key
  unfold get?
  cases hschema : c.schemas.get? key with
  | none => rfl
  | some schema =>
    rw [hschema, Option.isSome_some, eq_comm, Option.isSome_iff_exists] at hboth
    obtain ⟨text, htext⟩ := hboth
    rw [htext]
    rfl

theorem get?_texts (c : CachedSchemas) (key : String) : c.texts.get? key = (c.get? key).map CachedSchema.text := by
  have hboth := c.isSome_get?_schemas key
  unfold get?
  cases htext : c.texts.get? key with
  | none => cases c.schemas.get? key <;> rfl
  | some text =>
    rw [htext, Option.isSome_some, Option.isSome_iff_exists] at hboth
    obtain ⟨schema, hschema⟩ := hboth
    rw [hschema]
    rfl

@[simp] theorem get?_empty (key : String) : (∅ : CachedSchemas).get? key = none := rfl

@[simp] theorem get?_insert (c : CachedSchemas) (key other : String) (entry : CachedSchema) :
    (c.insert key entry).get? other = if key = other then some entry else c.get? other := by
  by_cases hkey : key = other <;> simp [get?, insert, hkey]

@[simp] theorem get?_erase (c : CachedSchemas) (key other : String) :
    (c.erase key).get? other = if key = other then none else c.get? other := by
  by_cases hkey : key = other <;> simp [get?, erase, hkey]

theorem mem_keys_schemas : key ∈ c.schemas.keys ↔ ∃ entry, c.get? key = some entry := by
  rw [Dict.mem_keys_iff, get?_schemas, Option.isSome_map, Option.isSome_iff_exists]

theorem mem_keys_texts : key ∈ c.texts.keys ↔ ∃ entry, c.get? key = some entry := by
  rw [← c.keys_eq, mem_keys_schemas]

theorem eq_empty_of_get? (hnone : ∀ key, c.get? key = none) : c = ∅ := by
  obtain ⟨schemas, texts, hkeys⟩ := c
  have hschemas : schemas = ∅ := Dict.eq_empty_of_get? fun key => by
    rw [get?_schemas ⟨schemas, texts, hkeys⟩ key, hnone]
    rfl
  have htexts : texts = ∅ := Dict.eq_empty_of_get? fun key => by
    rw [get?_texts ⟨schemas, texts, hkeys⟩ key, hnone]
    rfl
  subst hschemas
  subst htexts
  rfl

theorem erase_of_get?_eq_none (hnone : c.get? key = none) : c.erase key = c := by
  have hschemas : c.schemas.erase key = c.schemas := Dict.erase_of_get?_eq_none (by rw [get?_schemas, hnone]; rfl)
  have htexts : c.texts.erase key = c.texts := Dict.erase_of_get?_eq_none (by rw [get?_texts, hnone]; rfl)
  simp only [erase, hschemas, htexts]

end CachedSchemas

namespace SchemaCache

/-- Each cached schema is the one read from its text. -/
def Coherent (entries : CachedSchemas) : Prop :=
  ∀ key entry, entries.get? key = some entry → Schema.parse key entry.text = .ok entry.schema

theorem coherent_empty : Coherent ∅ := by
  intro key entry hentry
  cases hentry

theorem Coherent.insert {entries : CachedSchemas} (hentries : Coherent entries) {key text : String}
    {schema : Schema} (hschema : Schema.parse key text = .ok schema) : Coherent (entries.insert key ⟨schema, text⟩) := by
  intro other entry hentry
  rw [CachedSchemas.get?_insert] at hentry
  split at hentry
  · rename_i hkey
    cases hentry
    cases hkey
    exact hschema
  · exact hentries other entry hentry

theorem Coherent.erase {entries : CachedSchemas} (hentries : Coherent entries) (key : String) :
    Coherent (entries.erase key) := by
  intro other entry hentry
  rw [CachedSchemas.get?_erase] at hentry
  split at hentry
  · cases hentry
  · exact hentries other entry hentry

theorem coherent_load (directory : FilePath) (disk : Disk) {entries : CachedSchemas}
    (hentries : Coherent entries) (name : String) : Coherent (load directory disk entries name) := by
  unfold load
  simp only
  split
  · exact hentries
  · split
    · exact hentries
    · rename_i hschema
      exact hentries.insert hschema

theorem coherent_loadAll (directory : FilePath) (disk : Disk) : Coherent (loadAll directory disk) := by
  unfold loadAll
  generalize fileNames directory disk = names
  suffices hfold : ∀ entries, Coherent entries → Coherent (names.foldl (load directory disk) entries) from
    hfold ∅ coherent_empty
  induction names with
  | nil => exact fun _ hentries => hentries
  | cons name rest ih => exact fun entries hentries => ih _ (coherent_load directory disk hentries name)

/-- In coherent caches a text under a key determines the schema. -/
theorem Coherent.entry_eq {entries others : CachedSchemas} (hentries : Coherent entries) (hothers : Coherent others)
    {key : String} {entry other : CachedSchema} (hentry : entries.get? key = some entry)
    (hother : others.get? key = some other) (htext : entry.text = other.text) : entry = other := by
  have hparse := hentries key entry hentry
  rw [htext, hothers key other hother] at hparse
  obtain ⟨schema, text⟩ := entry
  obtain ⟨schema', text'⟩ := other
  cases hparse
  cases htext
  rfl

variable {c saved : SchemaCache} {key text : String} {schema : Schema} {disk disk' : Disk}

variable {strike : Option Disk.Strike}

/-- What was saved is the schema of the text, in the place of its key. -/
theorem save_ok (hsave : c.save key text disk strike = (.ok (schema, saved), disk')) :
    isValidKey key = true ∧ Schema.parse key text = .ok schema ∧
      saved = { c with entries := c.entries.insert key ⟨schema, text⟩ } := by
  unfold save at hsave
  split at hsave
  · cases hsave
  · rename_i hkey
    split at hsave
    · cases hsave
    · rename_i parsed hparse
      split at hsave
      · cases hsave
      · cases hsave
      · cases hsave
      · cases hsave
        exact ⟨by simpa using hkey, hparse, rfl⟩

/-- The cache takes a text if it is a schema and the file for its key can be written. -/
theorem save_of_writeText (hkey : isValidKey key = true) (hparse : Schema.parse key text = .ok schema)
    (hwrite : Disk.writeText (c.fileFor key) text disk = (.ok (), disk')) :
    c.save key text disk = (.ok (schema, { c with entries := c.entries.insert key ⟨schema, text⟩ }), disk') := by
  unfold save
  rw [hkey, hparse]
  simp only [Bool.not_true, Bool.false_eq_true, if_false, Disk.writeTextUnder_none, hwrite]

/-- Only a write that is struck finds a text without bytes. -/
theorem save_ne_unencodable {e : CacheError} (hsave : c.save key text disk = (.error e, disk')) : e ≠ .unencodable := by
  rintro rfl
  unfold save at hsave
  split at hsave
  · cases hsave
  · split at hsave
    · cases hsave
    · split at hsave
      · cases hsave
      · rename_i hwrite
        rw [Disk.writeTextUnder_none] at hwrite
        exact Disk.writeText_ne_unencodable (congrArg Prod.fst hwrite)
      · cases hsave
      · cases hsave

theorem remove_ok (hremove : c.remove key disk = (.ok saved, disk')) :
    isValidKey key = true ∧ saved = { c with entries := c.entries.erase key } := by
  unfold remove at hremove
  split at hremove
  · cases hremove
  · rename_i hkey
    split at hremove
    · cases hremove
    · cases hremove
    · cases hremove
      exact ⟨by simpa using hkey, rfl⟩

/-- A schema goes if its file can be removed or is not there. -/
theorem remove_of_removeFileIfThere (hkey : isValidKey key = true)
    (hremove : Disk.removeFileIfThere (c.fileFor key) disk = (.ok (), disk')) :
    c.remove key disk = (.ok { c with entries := c.entries.erase key }, disk') := by
  unfold remove
  rw [hkey]
  simp only [Bool.not_true, Bool.false_eq_true, if_false, hremove]

theorem prepare_ok (hprepare : c.prepare disk = (.ok saved, disk')) :
    saved = { c with entries := loadAll c.directory disk' } := by
  unfold prepare at hprepare
  split at hprepare
  · cases hprepare
  · cases hprepare
  · cases hprepare
    rfl

theorem schema?_eq (c : SchemaCache) (key : String) : c.schema? key = (c.entries.get? key).map CachedSchema.schema :=
  c.entries.get?_schemas key

theorem schema?_congr {other : SchemaCache} (hentry : c.entries.get? key = other.entries.get? key) :
    c.schema? key = other.schema? key := by
  rw [c.schema?_eq, other.schema?_eq, hentry]

theorem text?_eq (c : SchemaCache) (key : String) : c.text? key = (c.entries.get? key).map CachedSchema.text :=
  c.entries.get?_texts key

theorem text?_eq_some_iff : c.text? key = some text ↔ ∃ entry, c.entries.get? key = some entry ∧ entry.text = text := by
  rw [text?_eq, Option.map_eq_some_iff]

theorem mem_keys_iff : key ∈ c.keys ↔ (c.schema? key).isSome = true := Dict.mem_keys_iff

theorem mem_keys_iff_get? : key ∈ c.keys ↔ ∃ entry, c.entries.get? key = some entry := CachedSchemas.mem_keys_schemas

theorem schema?_eq_some_iff : c.schema? key = some schema ↔ ∃ text, c.entries.get? key = some ⟨schema, text⟩ := by
  rw [schema?_eq, Option.map_eq_some_iff]
  constructor
  · intro hfound
    obtain ⟨⟨found, text⟩, hentry, rfl⟩ := hfound
    exact ⟨text, hentry⟩
  · intro hboth
    obtain ⟨text, hentry⟩ := hboth
    exact ⟨⟨schema, text⟩, hentry, rfl⟩

theorem schema?_of_get? {entry : CachedSchema} (hentry : c.entries.get? key = some entry) :
    c.schema? key = some entry.schema := by
  rw [schema?_eq, hentry]
  rfl

theorem schema?_eq_none_iff : c.schema? key = none ↔ key ∉ c.keys := by
  rw [mem_keys_iff, Bool.not_eq_true, Option.isSome_eq_false_iff, Option.isNone_iff_eq_none]

theorem schema?_insert {other : String} :
    ({ c with entries := c.entries.insert key ⟨schema, text⟩ } : SchemaCache).schema? other =
      if key = other then some schema else c.schema? other :=
  Dict.get?_insert ..

theorem schema?_erase {other : String} :
    ({ c with entries := c.entries.erase key } : SchemaCache).schema? other =
      if key = other then none else c.schema? other :=
  Dict.get?_erase ..

theorem mem_schemas_iff : schema ∈ c.schemas ↔ ∃ key, c.schema? key = some schema := Dict.mem_values_iff

theorem mem_schemas (hschema : c.schema? key = some schema) : schema ∈ c.schemas := mem_schemas_iff.2 ⟨key, hschema⟩

/-- An empty cache that took a text has just the schema of this text. -/
theorem schemas_save (hnone : c.schemas = []) (hsave : c.save key text disk = (.ok (schema, saved), disk')) :
    saved.schemas = [schema] := by
  have hentries : c.entries.schemas.entries = [] := by simpa [schemas, Dict.values] using hnone
  rw [(save_ok hsave).2.2]
  simp [schemas, Dict.values, CachedSchemas.insert, Dict.insert, hentries, Dict.place]

theorem Coherent.parse (hc : Coherent c.entries) (hschema : c.schema? key = some schema) :
    ∃ text, Schema.parse key text = .ok schema := by
  obtain ⟨text, hentry⟩ := schema?_eq_some_iff.1 hschema
  have hparse := hc key _ hentry
  simp only at hparse
  exact ⟨text, hparse⟩

end SchemaCache

end TagTypes
