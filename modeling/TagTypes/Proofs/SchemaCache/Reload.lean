import Mathlib.Tactic
import TagTypes.Proofs.Disk.FileName
import TagTypes.Proofs.Disk.Writing
import TagTypes.Proofs.Json.LineEnds
import TagTypes.Proofs.SchemaCache.Files

/-!
# Reloading a cache

A reload takes the files in order of their names, and a later file of a key replaces an earlier one. Only one key can have two files, since only the name `.json` keeps its ending as a key. The file that is written for a key is the last of its files. So the schema in this file is the one that is read for the key, and it is read with unified line ends; if there is none, then for the key `.json` alone the other file counts. If a text for a key is written into the cache directory by others, then a reload finds the schema of that text under the key and all other keys as before.
-/

namespace TagTypes

/-- The cached schema with a text as it is read from a file. -/
def CachedSchema.unified (e : CachedSchema) : CachedSchema := { e with text := String.ofList (unifyLineEnds e.text.toList) }

namespace SchemaCache

variable {c : SchemaCache} {directory : FilePath} {disk disk' : Disk} {key other name text : String} {schema : Schema}

/-! ### Names of the files of a key -/

/-- The file of this name is one of the key: the one that is written for it, or for the key `.json` the one that is named like it. -/
def IsNameFor (key name : String) : Prop := key ≠ "" ∧ name = key ++ ".json" ∨ key = ".json" ∧ name = ".json"

theorem isNameFor_fileName (hkey : key ≠ "") : IsNameFor key (key ++ ".json") := Or.inl ⟨hkey, rfl⟩

theorem isNameFor_json : IsNameFor ".json" ".json" := Or.inr ⟨rfl, rfl⟩

theorem isSuffixOf_fileName (key : String) : ".json".toList.isSuffixOf (key ++ ".json").toList = true := by
  rw [String.toList_append]
  exact List.isSuffixOf_iff_suffix.2 (List.suffix_append _ _)

theorem IsNameFor.isSuffixOf (h : IsNameFor key name) : ".json".toList.isSuffixOf name.toList = true := by
  rcases h with ⟨-, rfl⟩ | ⟨-, rfl⟩
  · exact isSuffixOf_fileName key
  · decide

theorem IsNameFor.ne_up (h : IsNameFor key name) : name ≠ ".." := by
  rintro rfl
  exact absurd h.isSuffixOf (by decide)

/-- The file that is written for one key is none of another key. -/
theorem IsNameFor.ne_fileName (h : IsNameFor key name) (hother : other ≠ "") (hne : other ≠ key) : name ≠ other ++ ".json" := by
  rcases h with ⟨-, rfl⟩ | ⟨-, rfl⟩
  · exact fun heq => hne ((String.append_left_inj _).1 heq).symm
  · exact fun heq => hother (String.append_eq_right_iff.1 heq.symm)

theorem stemOf_eq_iff (hname : ".json".toList.isSuffixOf name.toList = true) :
    FilePath.stemOf name = key ↔ IsNameFor key name := by
  constructor
  · rintro rfl
    obtain ⟨cs, rfl⟩ := FilePath.json_of_isSuffix hname
    rw [FilePath.stemOf_json]
    split
    · rename_i hnil
      subst hnil
      exact Or.inr ⟨rfl, rfl⟩
    · rename_i hne
      refine Or.inl ⟨fun hempty => hne (String.ofList_eq_empty_iff.1 hempty), ?_⟩
      rw [String.ofList_append, String.ofList_toList]
  · rintro (⟨hkey, rfl⟩ | ⟨rfl, rfl⟩)
    · exact FilePath.stemOf_fileName hkey
    · exact FilePath.stemOf_json []

/-- Of the files of a key the one that is written for the key comes last. -/
theorem le_fileName (hname : ".json".toList.isSuffixOf name.toList = true) (hstem : FilePath.stemOf name = key) :
    name ≤ key ++ ".json" := by
  rcases (stemOf_eq_iff hname).1 hstem with ⟨-, rfl⟩ | ⟨rfl, rfl⟩
  · exact le_refl _
  · decide

/-! ### Files of the cache directory -/

/-- What a file of the cache directory holds, if that is a schema. -/
def held? (directory : FilePath) (disk : Disk) (name : String) : Option CachedSchema :=
  (disk.readText (directory.child name)).toOption.bind fun text =>
    (Schema.parse (FilePath.stemOf name) text).toOption.map fun schema => ⟨schema, text⟩

theorem get?_load (entries : CachedSchemas) :
    (load directory disk entries name).get? key =
      if FilePath.stemOf name = key then (held? directory disk name).or (entries.get? key) else entries.get? key := by
  unfold load held?
  cases disk.readText (directory.child name) with
  | error fault => simp [Except.toOption]
  | ok text =>
    cases hparse : Schema.parse (FilePath.stemOf name) text with
    | error e => simp [Except.toOption, hparse]
    | ok schema => simp [Except.toOption, hparse]

/-- The last of the files of a key that hold schemas counts. -/
theorem get?_foldl_load (names : List String) (entries : CachedSchemas) :
    (names.foldl (load directory disk) entries).get? key =
      ((names.filter fun name => FilePath.stemOf name = key).reverse.findSome? (held? directory disk)).or
        (entries.get? key) := by
  induction names generalizing entries with
  | nil => rfl
  | cons name rest ih =>
    rw [List.foldl_cons, ih, get?_load]
    by_cases hstem : FilePath.stemOf name = key
    · rw [if_pos hstem, List.filter_cons_of_pos (by simpa using hstem), List.reverse_cons, List.findSome?_append,
        List.findSome?_singleton, Option.or_assoc]
    · rw [if_neg hstem, List.filter_cons_of_neg (by simpa using hstem)]

/-- The files of a key in the cache directory, the last one first. -/
def filesOf (directory : FilePath) (disk : Disk) (key : String) : List String :=
  ((fileNames directory disk).filter fun name => FilePath.stemOf name = key).reverse

theorem get?_loadAll : (loadAll directory disk).get? key = (filesOf directory disk key).findSome? (held? directory disk) := by
  rw [loadAll, get?_foldl_load, CachedSchemas.get?_empty, Option.or_none, filesOf]

theorem mem_filesOf {place : List String} (hstatus : disk.status directory = .ok (place, .directory)) :
    name ∈ filesOf directory disk key ↔
      name ∈ disk.namesIn place ∧ ".json".toList.isSuffixOf name.toList = true ∧ FilePath.stemOf name = key := by
  unfold filesOf fileNames
  simp only [hstatus, List.mem_reverse, List.mem_filter, decide_eq_true_eq, and_assoc]

theorem pairwise_filesOf (directory : FilePath) (disk : Disk) (key : String) : (filesOf directory disk key).Pairwise (fun a b => b ≤ a) := by
  have hnames : (fileNames directory disk).Pairwise (· ≤ ·) := by
    unfold fileNames
    split
    · exact (Text.pairwise_sorted _).filter _
    · exact List.Pairwise.nil
  exact List.pairwise_reverse.2 (hnames.filter _)

theorem mem_filesOf_iff {place : List String} (hstatus : disk.status directory = .ok (place, .directory)) :
    name ∈ filesOf directory disk key ↔ name ∈ disk.namesIn place ∧ IsNameFor key name := by
  rw [mem_filesOf hstatus]
  refine and_congr_right fun _ => ?_
  constructor
  · intro hboth
    obtain ⟨hsuffix, hstem⟩ := hboth
    exact (stemOf_eq_iff hsuffix).1 hstem
  · exact fun hname => ⟨hname.isSuffixOf, (stemOf_eq_iff hname.isSuffixOf).2 hname⟩

/-! ### What is read for a key -/

/-- What holds a schema is a file in the directory, which is there. -/
theorem exists_of_held? {entry : CachedSchema} (hheld : held? directory disk name = some entry) :
    ∃ place, disk.status directory = .ok (place, .directory) ∧ name ∈ disk.namesIn place := by
  obtain ⟨text, hread, -⟩ := Option.bind_eq_some_iff.1 hheld
  cases hfound : disk.readText (directory.child name) with
  | error fault =>
    rw [hfound] at hread
    cases hread
  | ok found =>
    obtain ⟨place, content, hstatus, hnode, -⟩ := Disk.status_of_readText hfound
    refine ⟨place, hstatus, ?_⟩
    rw [Disk.mem_namesIn, hnode]
    rfl

theorem held?_of_not_directory (hnone : ∀ place, disk.status directory ≠ .ok (place, .directory)) :
    held? directory disk name = none := by
  cases hheld : held? directory disk name with
  | none => rfl
  | some entry =>
    obtain ⟨place, hstatus, -⟩ := exists_of_held? hheld
    exact absurd hstatus (hnone place)

theorem exists_of_get?_loadAll {entry : CachedSchema} (hentry : (loadAll directory disk).get? key = some entry) :
    ∃ name, IsNameFor key name ∧ held? directory disk name = some entry := by
  rw [get?_loadAll] at hentry
  obtain ⟨name, hname, hheld⟩ := List.exists_of_findSome?_eq_some hentry
  obtain ⟨place, hstatus, -⟩ := exists_of_held? hheld
  exact ⟨name, ((mem_filesOf_iff hstatus).1 hname).2, hheld⟩

/-- Nothing is read for a key if and only if none of its files holds a schema. -/
theorem get?_loadAll_eq_none_iff :
    (loadAll directory disk).get? key = none ↔ ∀ name, IsNameFor key name → held? directory disk name = none := by
  constructor
  · intro hnone name hname
    cases hheld : held? directory disk name with
    | none => rfl
    | some entry =>
      obtain ⟨place, hstatus, hthere⟩ := exists_of_held? hheld
      rw [get?_loadAll, List.findSome?_eq_none_iff] at hnone
      rw [hnone name ((mem_filesOf_iff hstatus).2 ⟨hthere, hname⟩)] at hheld
      cases hheld
  · intro hnone
    cases hentry : (loadAll directory disk).get? key with
    | none => rfl
    | some entry =>
      obtain ⟨name, hname, hheld⟩ := exists_of_get?_loadAll hentry
      rw [hnone name hname] at hheld
      cases hheld

/-- The schema in the file that is written for a key is the one of the key. -/
theorem get?_loadAll_of_held? {entry : CachedSchema} (hkey : key ≠ "")
    (hheld : held? directory disk (key ++ ".json") = some entry) : (loadAll directory disk).get? key = some entry := by
  obtain ⟨place, hstatus, hthere⟩ := exists_of_held? hheld
  have hmem : key ++ ".json" ∈ filesOf directory disk key :=
    (mem_filesOf_iff hstatus).2 ⟨hthere, isNameFor_fileName hkey⟩
  have hpairwise := pairwise_filesOf directory disk key
  rw [get?_loadAll]
  cases hfiles : filesOf directory disk key with
  | nil =>
    rw [hfiles] at hmem
    cases hmem
  | cons first rest =>
    have hfirst : first = key ++ ".json" := by
      have hfound : first ∈ filesOf directory disk key := by simp [hfiles]
      obtain ⟨-, hsuffix, hstem⟩ := (mem_filesOf hstatus).1 hfound
      rw [hfiles] at hmem hpairwise
      rcases List.mem_cons.1 hmem with heq | hrest
      · exact heq.symm
      · -- the first file comes last in order, as the one that is written for the key does
        exact le_antisymm (le_fileName hsuffix hstem) (List.rel_of_pairwise_cons hpairwise hrest)
    rw [List.findSome?_cons, hfirst, hheld]

theorem get?_loadAll_empty : (loadAll directory disk).get? "" = none := by
  rw [get?_loadAll_eq_none_iff]
  rintro name (⟨hkey, -⟩ | ⟨hkey, -⟩)
  · exact absurd rfl hkey
  · exact absurd hkey (by decide)

/-- For a key the schema in the file that is written for it is read. If there is none, then only for the key `.json` another file counts. -/
theorem get?_loadAll_eq (hkey : key ≠ "") : (loadAll directory disk).get? key =
    (held? directory disk (key ++ ".json")).or (if key = ".json" then held? directory disk ".json" else none) := by
  cases hown : held? directory disk (key ++ ".json") with
  | some entry => rw [get?_loadAll_of_held? hkey hown, Option.some_or]
  | none =>
    rw [Option.none_or]
    cases hentry : (loadAll directory disk).get? key with
    | some entry =>
      obtain ⟨name, ⟨-, rfl⟩ | ⟨rfl, rfl⟩, hheld⟩ := exists_of_get?_loadAll hentry
      · rw [hown] at hheld
        cases hheld
      · rw [if_pos rfl, hheld]
    | none =>
      split
      · rename_i hjson
        subst hjson
        exact (get?_loadAll_eq_none_iff.1 hentry _ isNameFor_json).symm
      · rfl

/-- If only the file that is written for one key has another content, then all other keys are read as before. -/
theorem get?_loadAll_of_ne (hkey : key ≠ "") (hother : key ≠ other)
    (hheld : ∀ name, name ≠ ".." → name ≠ key ++ ".json" → held? directory disk' name = held? directory disk name) :
    (loadAll directory disk').get? other = (loadAll directory disk).get? other := by
  by_cases hempty : other = ""
  · rw [hempty, get?_loadAll_empty, get?_loadAll_empty]
  · have hsame : ∀ name, IsNameFor other name → held? directory disk' name = held? directory disk name :=
      fun name hname => hheld name hname.ne_up (hname.ne_fileName hkey hother)
    rw [get?_loadAll_eq hempty, get?_loadAll_eq hempty, hsame _ (isNameFor_fileName hempty)]
    split
    · rename_i hjson
      subst hjson
      rw [hsame _ isNameFor_json]
    · rfl

/-! ### Texts with unified line ends -/

theorem text_unified_eq_iff {entry : CachedSchema} : entry.unified.text = entry.text ↔ '\r' ∉ entry.text.toList := by
  rw [CachedSchema.unified, ← unifyLineEnds_eq_iff, ← String.toList_inj, String.toList_ofList]

theorem unified_of_noReturn {entry : CachedSchema} (htext : '\r' ∉ entry.text.toList) : entry.unified = entry := by
  rw [CachedSchema.unified, unifyLineEnds_of_notMem htext, String.ofList_toList]

/-- What was read from a file has unified line ends. -/
theorem noReturn_of_held? {entry : CachedSchema} (hheld : held? directory d name = some entry) : '\r' ∉ entry.text.toList := by
  obtain ⟨text, hread, hparse⟩ := Option.bind_eq_some_iff.1 hheld
  obtain ⟨schema, -, rfl⟩ := Option.map_eq_some_iff.1 hparse
  cases hfound : d.readText (directory.child name) with
  | error fault =>
    rw [hfound] at hread
    cases hread
  | ok found =>
    rw [hfound] at hread
    cases hread
    obtain ⟨place, content, -, -, hdecode⟩ := Disk.status_of_readText hfound
    unfold Disk.decodeText at hdecode
    split at hdecode
    · cases hdecode
      change '\r' ∉ (String.ofList _).toList
      rw [String.toList_ofList]
      exact notMem_unifyLineEnds _
    · cases hdecode

/-! ### A file written by others -/

section Written

variable {place : List String}

theorem held?_changed_of_ne {found : Option ByteArray} (h : Disk.Changed directory place (key ++ ".json") found disk disk')
    (hup : name ≠ "..") (hname : name ≠ key ++ ".json") : held? directory disk' name = held? directory disk name := by
  rw [held?, held?, h.readText_child_of_ne hup hname]

variable (h : Disk.Changed directory place (key ++ ".json") (some text.toUTF8) disk disk')
include h

/-- The file of a key that was written holds its schema, the text with unified line ends. -/
theorem held?_written (hkey : key ≠ "") (hparse : Schema.parse key text = .ok schema) :
    held? directory disk' (key ++ ".json") = some ⟨schema, String.ofList (unifyLineEnds text.toList)⟩ := by
  rw [held?, h.readText_child, FilePath.stemOf_fileName hkey]
  simp [Except.toOption, Schema.parse_unifyLineEnds hparse]

/-- What is read from a directory into which others have written a schema for a key. -/
theorem get?_loadAll_written (hkey : key ≠ "") (htext : '\r' ∉ text.toList) (hparse : Schema.parse key text = .ok schema) :
    (loadAll directory disk').get? other =
      if key = other then some ⟨schema, text⟩ else (loadAll directory disk).get? other := by
  split
  · rename_i hother
    subst hother
    rw [get?_loadAll_of_held? hkey (held?_written h hkey hparse), unifyLineEnds_of_notMem htext, String.ofList_toList]
  · rename_i hother
    exact get?_loadAll_of_ne hkey hother fun name => held?_changed_of_ne h

end Written

/-! ### Changes -/

section Changes

variable {old new : CachedSchemas}

theorem mem_added : key ∈ (changes old new).added ↔ old.get? key = none ∧ ∃ entry, new.get? key = some entry := by
  simp only [changes, Text.mem_sorted, List.mem_filter, Bool.not_eq_true', Dict.contains_eq_false_iff,
    CachedSchemas.mem_keys_texts, CachedSchemas.get?_texts, Option.map_eq_none_iff, and_comm]

theorem mem_deleted : key ∈ (changes old new).deleted ↔ (∃ entry, old.get? key = some entry) ∧ new.get? key = none := by
  simp only [changes, Text.mem_sorted, List.mem_filter, Bool.not_eq_true', Dict.contains_eq_false_iff,
    CachedSchemas.mem_keys_texts, CachedSchemas.get?_texts, Option.map_eq_none_iff]

theorem mem_updated : key ∈ (changes old new).updated ↔
    ∃ before after, old.get? key = some before ∧ new.get? key = some after ∧ before.text ≠ after.text := by
  simp only [changes, Text.mem_sorted, List.mem_filter, Bool.and_eq_true, Dict.contains_iff,
    CachedSchemas.mem_keys_texts, CachedSchemas.get?_texts, decide_eq_true_eq]
  constructor
  · intro hfound
    obtain ⟨⟨after, hafter⟩, ⟨text, htext⟩, hne⟩ := hfound
    obtain ⟨before, hbefore, -⟩ := Option.map_eq_some_iff.1 htext
    rw [hbefore, hafter] at hne
    exact ⟨before, after, hbefore, hafter, fun heq => hne (congrArg some heq)⟩
  · intro hboth
    obtain ⟨before, after, hbefore, hafter, hne⟩ := hboth
    rw [hbefore, hafter]
    exact ⟨⟨after, rfl⟩, ⟨before.text, rfl⟩, fun heq => hne (Option.some.inj heq)⟩

theorem nodup_updated : (changes old new).updated.Nodup := Text.nodup_sorted (new.texts.nodup.filter _)

/-- Between coherent caches without changes each key has the same schema with the same text. -/
theorem Coherent.get?_eq_of_unchanged (hold : Coherent old) (hnew : Coherent new) (hsame : (changes old new).any = false) :
    new.get? key = old.get? key := by
  simp only [CacheChanges.any, Bool.not_eq_false', Bool.and_eq_true, List.isEmpty_iff] at hsame
  obtain ⟨⟨hadded, hupdated⟩, hdeleted⟩ := hsame
  cases hbefore : old.get? key with
  | none =>
    by_contra hafter
    have hkey : key ∈ (changes old new).added := mem_added.2 ⟨hbefore, Option.ne_none_iff_exists'.1 hafter⟩
    rw [hadded] at hkey
    cases hkey
  | some before =>
    cases hafter : new.get? key with
    | none =>
      have hkey : key ∈ (changes old new).deleted := mem_deleted.2 ⟨⟨before, hbefore⟩, hafter⟩
      rw [hdeleted] at hkey
      cases hkey
    | some after =>
      have htext : before.text = after.text := by
        by_contra hne
        have hkey : key ∈ (changes old new).updated := mem_updated.2 ⟨before, after, hbefore, hafter, hne⟩
        rw [hupdated] at hkey
        cases hkey
      exact congrArg some (hnew.entry_eq hold hafter hbefore htext.symm)

end Changes

end SchemaCache

end TagTypes
