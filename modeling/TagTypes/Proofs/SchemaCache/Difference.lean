import Mathlib.Tactic
import TagTypes.Proofs.SchemaCache.Run

/-!
# What a reload reports

A reload compares what was cached with what it finds, and its report is exactly the difference of the two: which keys came, which went, and which are still there with another text. What it does not name is as before, the schema included, since a cache is coherent whatever was done with it. What it finds are the schemas in those files of the directory whose name ends in `.json` and whose content is a text that describes a schema; all others are passed over.
-/

namespace TagTypes.SchemaCache

/-- The changes are exactly the difference between two caches. -/
structure IsDifference (before after : SchemaCache) (changes : CacheChanges) : Prop where
  keys : ∀ key, key ∈ after.keys ↔ key ∈ before.keys ∧ key ∉ changes.deleted ∨ key ∈ changes.added
  added_notMem : ∀ key ∈ changes.added, key ∉ before.keys
  updated_subset : ∀ key ∈ changes.updated, key ∈ before.keys
  deleted_subset : ∀ key ∈ changes.deleted, key ∈ before.keys
  added_updated : changes.added.Disjoint changes.updated
  added_deleted : changes.added.Disjoint changes.deleted
  updated_deleted : changes.updated.Disjoint changes.deleted
  /-- The updated keys are those that were kept with another text. -/
  updated : ∀ key, key ∈ changes.updated ↔
    ∃ old new, before.text? key = some old ∧ after.text? key = some new ∧ old ≠ new
  /-- What is not named is as it was. -/
  others : ∀ key, key ∉ changes.added → key ∉ changes.updated → key ∉ changes.deleted →
    after.text? key = before.text? key ∧ after.schema? key = before.schema? key
  any : changes.any = false ↔ ∀ key, after.text? key = before.text? key

/-- A file of the directory, with this name and this text, holds a schema. -/
def HoldsSchema (directory : FilePath) (disk : Disk) (name text : String) : Prop :=
  ∃ place content schema, disk.status directory = .ok (place, .directory) ∧
    disk.node? (place ++ [name]) = some (.file content) ∧ ".json".toList.isSuffixOf name.toList = true ∧
    disk.readText (directory.child name) = .ok text ∧ Schema.parse (FilePath.stemOf name) text = .ok schema

variable {c before after : SchemaCache} {directory : FilePath} {disk : Disk} {key name text : String}

/-! ### The difference of two caches -/

theorem mem_keys_iff_of_changes :
    key ∈ after.keys ↔
      key ∈ before.keys ∧ key ∉ (changes before.entries after.entries).deleted ∨
        key ∈ (changes before.entries after.entries).added := by
  rw [mem_keys_iff_get?, mem_keys_iff_get?, mem_deleted, mem_added]
  cases hbefore : before.entries.get? key with
  | none => simp
  | some entry => simp [Option.ne_none_iff_exists']

theorem mem_updated_iff_text? :
    key ∈ (changes before.entries after.entries).updated ↔
      ∃ old new, before.text? key = some old ∧ after.text? key = some new ∧ old ≠ new := by
  rw [mem_updated]
  constructor
  · intro hupdated
    obtain ⟨old, new, hold, hnew, hne⟩ := hupdated
    exact ⟨old.text, new.text, text?_eq_some_iff.2 ⟨old, hold, rfl⟩, text?_eq_some_iff.2 ⟨new, hnew, rfl⟩, hne⟩
  · intro htexts
    obtain ⟨first, second, hbefore, hafter, hne⟩ := htexts
    obtain ⟨old, hold, rfl⟩ := text?_eq_some_iff.1 hbefore
    obtain ⟨new, hnew, rfl⟩ := text?_eq_some_iff.1 hafter
    exact ⟨old, new, hold, hnew, hne⟩

/-- A key that no change names has the same text, or none as before. -/
theorem text?_eq_iff_notMem :
    after.text? key = before.text? key ↔
      key ∉ (changes before.entries after.entries).added ∧ key ∉ (changes before.entries after.entries).updated ∧
        key ∉ (changes before.entries after.entries).deleted := by
  rw [mem_added, mem_updated, mem_deleted, text?_eq, text?_eq]
  cases hbefore : before.entries.get? key with
  | none => cases hafter : after.entries.get? key <;> simp
  | some old =>
    cases hafter : after.entries.get? key with
    | none => simp
    | some new => simp [eq_comm]

theorem any_changes_eq_false_iff :
    (changes before.entries after.entries).any = false ↔ ∀ key, after.text? key = before.text? key := by
  simp only [text?_eq_iff_notMem, forall_and, ← List.eq_nil_iff_forall_not_mem, CacheChanges.any, Bool.not_eq_false',
    Bool.and_eq_true, List.isEmpty_iff, and_assoc]

/-- In coherent caches equal texts under a key belong to equal schemas. -/
theorem Coherent.schema?_eq (hbefore : Coherent before.entries) (hafter : Coherent after.entries)
    (htext : after.text? key = before.text? key) : after.schema? key = before.schema? key := by
  rw [text?_eq, text?_eq] at htext
  rw [after.schema?_eq, before.schema?_eq]
  cases hold : before.entries.get? key with
  | none =>
    rw [hold, Option.map_none, Option.map_eq_none_iff] at htext
    rw [htext]
  | some old =>
    rw [hold, Option.map_some, Option.map_eq_some_iff] at htext
    obtain ⟨new, hnew, htext⟩ := htext
    rw [hnew, hafter.entry_eq hbefore hnew hold htext]

theorem isDifference_changes (hbefore : Coherent before.entries) (hafter : Coherent after.entries) :
    IsDifference before after (changes before.entries after.entries) where
  keys _ := mem_keys_iff_of_changes
  added_notMem key hadded hkey := by
    obtain ⟨entry, hentry⟩ := mem_keys_iff_get?.1 hkey
    rw [(mem_added.1 hadded).1] at hentry
    cases hentry
  updated_subset key hupdated := by
    obtain ⟨old, -, hold, -⟩ := mem_updated.1 hupdated
    exact mem_keys_iff_get?.2 ⟨old, hold⟩
  deleted_subset key hdeleted := mem_keys_iff_get?.2 (mem_deleted.1 hdeleted).1
  added_updated key hadded hupdated := by
    obtain ⟨old, -, hold, -⟩ := mem_updated.1 hupdated
    rw [(mem_added.1 hadded).1] at hold
    cases hold
  added_deleted key hadded hdeleted := by
    obtain ⟨old, hold⟩ := (mem_deleted.1 hdeleted).1
    rw [(mem_added.1 hadded).1] at hold
    cases hold
  updated_deleted key hupdated hdeleted := by
    obtain ⟨-, new, -, hnew, -⟩ := mem_updated.1 hupdated
    rw [(mem_deleted.1 hdeleted).2] at hnew
    cases hnew
  updated _ := mem_updated_iff_text?
  others key hadded hupdated hdeleted := by
    have htext := text?_eq_iff_notMem.2 ⟨hadded, hupdated, hdeleted⟩
    exact ⟨htext, hbefore.schema?_eq hafter htext⟩
  any := any_changes_eq_false_iff

/-! ### The files of a directory -/

theorem holdsSchema_of_held? {entry : CachedSchema} (hname : IsNameFor key name) (hheld : held? directory disk name = some entry) :
    HoldsSchema directory disk name entry.text := by
  obtain ⟨text, hread, hparsed⟩ := Option.bind_eq_some_iff.1 hheld
  obtain ⟨schema, hparse, rfl⟩ := Option.map_eq_some_iff.1 hparsed
  have hread := toOption_eq_some_iff.1 hread
  obtain ⟨place, content, hstatus, hnode, -⟩ := Disk.status_of_readText hread
  exact ⟨place, content, schema, hstatus, hnode, hname.isSuffixOf, hread, toOption_eq_some_iff.1 hparse⟩

theorem HoldsSchema.exists_held? (h : HoldsSchema directory disk name text) :
    ∃ entry, held? directory disk name = some entry ∧ entry.text = text := by
  obtain ⟨-, -, schema, -, -, -, hread, hparse⟩ := h
  exact ⟨⟨schema, text⟩, by simp [held?, hread, hparse, Except.toOption], rfl⟩

/-- The keys that are read from a directory are those of its files that hold schemas. -/
theorem exists_get?_loadAll_iff :
    (∃ entry, (loadAll directory disk).get? key = some entry) ↔
      ∃ name text, FilePath.stemOf name = key ∧ HoldsSchema directory disk name text := by
  constructor
  · intro hfound
    obtain ⟨entry, hentry⟩ := hfound
    obtain ⟨name, hname, hheld⟩ := exists_of_get?_loadAll hentry
    exact ⟨name, entry.text, (stemOf_eq_iff hname.isSuffixOf).2 hname, holdsSchema_of_held? hname hheld⟩
  · intro hfile
    obtain ⟨name, text, hstem, hholds⟩ := hfile
    obtain ⟨entry, hheld, -⟩ := hholds.exists_held?
    obtain ⟨-, -, -, -, -, hsuffix, -⟩ := hholds
    rw [← Option.ne_none_iff_exists', Ne, get?_loadAll_eq_none_iff]
    intro hnone
    rw [hnone name ((stemOf_eq_iff hsuffix).1 hstem)] at hheld
    cases hheld

/-! ### Reloads -/

/-- Whatever was done with a cache, a reload from any disk reports exactly how the cache differs from before, and then the keys are those of the files that hold schemas. -/
theorem reload_reports {actions : List Action} {start : Disk} (hrun : (run ({ directory }, start) actions).1 = c) (disk : Disk) :
    IsDifference c (c.reload disk).2 (c.reload disk).1 ∧
      ∀ key, key ∈ (c.reload disk).2.keys ↔
        ∃ name text, FilePath.stemOf name = key ∧ HoldsSchema directory disk name text := by
  have hcoherent : Coherent (run ({ directory }, start) actions).1.entries := coherent_run coherent_empty
  have hdirectory := directory_run ({ directory }, start) actions
  rw [hrun] at hcoherent hdirectory
  refine ⟨isDifference_changes hcoherent (coherent_loadAll c.directory disk), fun key => ?_⟩
  rw [mem_keys_iff_get?, show directory = c.directory from hdirectory.symm]
  exact exists_get?_loadAll_iff

/-- A disk with a directory `s` that holds one file. -/
def shelf (name text : String) : Disk :=
  { nodes := Dict.ofList [(["s"], .directory), (["s", name], .file text.toUTF8)] }

/-- A cache with the schema `a`: its text is edited, or its file goes and a hidden one comes. -/
theorem reload_reports_edited :
    let c := (run ({ directory := ⟨.here, ["s"]⟩ }, shelf "a.json" "\x7b\x7d") [.prepare]).1
    c.keys = ["a"] ∧
      IsDifference c (c.reload (shelf "a.json" "\x7b \x7d")).2 { updated := ["a"] } ∧
      IsDifference c (c.reload (shelf ".json" "\x7b\x7d")).2 { added := [".json"], deleted := ["a"] } ∧
      (c.reload (shelf "a.json" "\x7b")).2.keys = [] := by
  intro c
  have hedited : (c.reload (shelf "a.json" "\x7b \x7d")).1 = { updated := ["a"] } := by decide +kernel
  have hexchanged : (c.reload (shelf ".json" "\x7b\x7d")).1 = { added := [".json"], deleted := ["a"] } := by decide +kernel
  have hfirst := (reload_reports (c := c) rfl (shelf "a.json" "\x7b \x7d")).1
  have hsecond := (reload_reports (c := c) rfl (shelf ".json" "\x7b\x7d")).1
  rw [hedited] at hfirst
  rw [hexchanged] at hsecond
  exact ⟨by decide +kernel, hfirst, hsecond, by decide +kernel⟩

end TagTypes.SchemaCache
