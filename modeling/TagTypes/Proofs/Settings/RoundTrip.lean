import TagTypes.Proofs.Disk.Making
import TagTypes.Proofs.Settings.File
import TagTypes.Proofs.Yaml.Meaning.Entries

/-!
# Saved settings are loaded again

Saving passes three layers, and loading undoes them in turn: the disk keeps the bytes, the library makes of them the value that it wrote, and every setting takes its entry from there. That a library makes of the bytes what it wrote is assumed of it here, for the settings that are saved; it is proved of the standard one, unless a number has so many digits that it cannot be written. The texts may look like numbers, truth values or marks of the file.
-/

namespace TagTypes.Settings

open Yaml (Value Entry)

variable {root : Value} {fields : Fields} {name : String} {e : Entry} {entries defaults : List (String × Entry)} {s : Settings}

/-! ### Entries as fields -/

theorem lookup_values (hnodup : (entries.map Prod.fst).Nodup) (hmem : (name, e) ∈ entries) :
    Value.lookup name (Entry.values entries) = some e.value := by
  induction entries with
  | nil => cases hmem
  | cons first rest ih =>
    obtain ⟨other, found⟩ := first
    rw [List.map_cons, List.nodup_cons] at hnodup
    rw [Entry.values, Value.lookup]
    rcases List.mem_cons.1 hmem with heq | hrest
    · cases heq
      rw [if_pos rfl]
    · have hne : other ≠ name := by
        rintro rfl
        exact hnodup.1 (List.mem_map.2 ⟨_, hrest, rfl⟩)
      rw [if_neg hne, ih hnodup.2 hrest]

theorem value?_values (hnodup : (entries.map Prod.fst).Nodup) (hmem : (name, e) ∈ entries) :
    value? (Entry.values entries) name = some e.value := by
  rw [value?, lookup_values hnodup hmem]
  cases e <;> rfl

theorem exists_of_lookup_values {v : Value} (hv : Value.lookup name (Entry.values entries) = some v) :
    ∃ e, (name, e) ∈ entries ∧ v = e.value := by
  induction entries with
  | nil => cases hv
  | cons first rest ih =>
    obtain ⟨other, found⟩ := first
    rw [Entry.values, Value.lookup] at hv
    split at hv
    · rename_i heq
      cases hv
      exact ⟨found, by rw [heq]; exact List.mem_cons_self, rfl⟩
    · obtain ⟨e, hmem, he⟩ := ih hv
      exact ⟨e, List.mem_cons_of_mem _ hmem, he⟩

/-- Only a group is nested. -/
theorem isTooDeep_value (he : ∀ inner, e ≠ .group inner) : isTooDeep root e.value = false := by
  cases e with
  | group inner => exact absurd rfl (he inner)
  | int n =>
    have hliteral : root.literal (.int n) = if Value.isTooLong n then .error .tooManyDigits else .ok (Text.intText n).toList := rfl
    rw [Entry.value, isTooDeep, hliteral]
    cases Value.isTooLong n <;> rfl
  | _ => rfl

/-- An entry that is no group blocks no setting. -/
theorem not_isBlocked_of_value (hvalue : value? fields name = some e.value) (he : ∀ inner, e ≠ .group inner) (default : Entry) :
    ¬IsBlocked root fields (name, default) := by
  rintro ⟨v, hv, hblocks⟩
  cases hvalue.symm.trans hv
  rcases hblocks with hdeep | ⟨-, negative, hinfinite⟩
  · rw [isTooDeep_value he] at hdeep
    cases hdeep
  · cases e <;> cases hinfinite

theorem not_isBlocked_values (hflat : ∀ f ∈ entries, ∀ inner, f.2 ≠ .group inner) (f : String × Entry) :
    ¬IsBlocked root (Entry.values entries) f := by
  rintro ⟨v, hv, hblocks⟩
  have hlookup : Value.lookup f.1 (Entry.values entries) = some v := by
    unfold value? at hv
    split at hv
    · cases hv
    · exact hv
  obtain ⟨e, hmem, rfl⟩ := exists_of_lookup_values hlookup
  exact not_isBlocked_of_value hv (hflat _ hmem) f.2 ⟨_, hv, hblocks⟩

/-- The entry is of the kind that the default of its name wants. -/
def Suits (default e : String × Entry) : Prop :=
  default.1 = e.1 ∧ ∀ root, converted? root default.1 default.2 e.2.value = some e.2

theorem readGroup_values (hnodup : (entries.map Prod.fst).Nodup) (hsuits : List.Forall₂ Suits defaults entries) :
    readGroup root (Entry.values entries) defaults = entries := by
  have hread : ∀ found ⊆ entries, ∀ {defaults}, List.Forall₂ Suits defaults found →
      readGroup root (Entry.values entries) defaults = found := by
    intro found hsub defaults hfound
    induction hfound with
    | nil => rfl
    | @cons default e defaults found hfirst _ ih =>
      obtain ⟨hname, hconverted⟩ := hfirst
      rw [List.cons_subset] at hsub
      have hvalue : value? (Entry.values entries) default.1 = some e.2.value := by
        rw [hname]
        exact value?_values hnodup hsub.1
      have hsetting : setting root (Entry.values entries) default.1 default.2 = e.2 := by
        rw [setting, hvalue, Option.bind_some, hconverted, Option.getD_some]
      rw [readGroup, List.map_cons, hsetting, hname]
      exact congrArg (e :: ·) (ih hsub.2)
  exact hread entries (List.Subset.refl _) hsuits

theorem suits_text (name default value : String) : Suits (name, .text default) (name, .text value) :=
  ⟨rfl, fun _ => rfl⟩

theorem suits_bool (name : String) (default value : Bool) : Suits (name, .bool default) (name, .bool value) :=
  ⟨rfl, fun _ => rfl⟩

theorem suits_int {name : String} (hname : name ≠ "qos") (default value : Int) : Suits (name, .int default) (name, .int value) :=
  ⟨rfl, fun root => by simp [converted?, wholeFor?, hname, Entry.value, whole?, Except.toOption]⟩

theorem suits_level {value : Int} (hvalue : 0 ≤ value ∧ value ≤ 2) (default : Int) : Suits ("qos", .int default) ("qos", .int value) :=
  ⟨rfl, fun root => by simp [converted?, wholeFor?, Entry.value, whole?, Except.toOption, hvalue]⟩

theorem readGroup_broker {b : BrokerSettings} (hqos : 0 ≤ b.qos ∧ b.qos ≤ 2) :
    readGroup root (Entry.values b.entries) ({} : BrokerSettings).entries = b.entries := by
  refine readGroup_values ?_ ?_
  · simp only [BrokerSettings.entries, List.map_cons, List.map_nil]
    decide
  · simp [BrokerSettings.entries, suits_text, suits_bool, suits_int, suits_level hqos]

theorem readGroup_cache (c : CacheSettings) :
    readGroup root (Entry.values c.entries) ({} : CacheSettings).entries = c.entries := by
  refine readGroup_values ?_ ?_
  · simp only [CacheSettings.entries, List.map_cons, List.map_nil]
    decide
  · simp [CacheSettings.entries, suits_text, suits_int]

theorem readGroup_provider (p : ProviderSettings) :
    readGroup root (Entry.values p.entries) ({} : ProviderSettings).entries = p.entries := by
  refine readGroup_values ?_ ?_
  · simp only [ProviderSettings.entries, List.map_cons, List.map_nil]
    decide
  · simp [ProviderSettings.entries, suits_text, suits_bool]

theorem nodup_entries : (s.entries.map Prod.fst).Nodup := by
  simp only [entries, List.map_cons, List.map_nil]
  decide

/-- The value that stands in the file of settings. -/
def writtenValue (s : Settings) : Value := (Entry.group s.fileEntries).value

theorem rootFields_writtenValue : rootFields s.writtenValue = Entry.values s.entries := rfl

theorem sectionFields_writtenValue (hmem : (name, .group entries) ∈ s.entries) :
    sectionFields s.writtenValue (rootFields s.writtenValue) name = Entry.values entries := by
  rw [rootFields_writtenValue, sectionFields, lookup_values nodup_entries hmem]
  rfl

/-- Settings are read from the value that is written for them. -/
theorem ofValue_writtenValue (hqos : 0 ≤ s.broker.qos ∧ s.broker.qos ≤ 2) : ofValue s.writtenValue = .ok s := by
  have hbroker : ("mqtt", .group s.broker.entries) ∈ s.entries := by simp [entries]
  have hcache : ("schema_cache", .group s.cache.entries) ∈ s.entries := by simp [entries]
  have hprovider : ("tag_provider", .group s.provider.entries) ∈ s.entries := by simp [entries]
  have hdirectory : value? (rootFields s.writtenValue) "data_dir" = some (.str s.dataDirectory) :=
    value?_values (e := .text s.dataDirectory) nodup_entries (by simp [entries])
  refine ofValue_eq_ok_iff.2 ⟨not_hasBlocked_iff.2 ⟨?_, ?_, ?_, ?_⟩, ?_⟩
  · refine not_isBlocked_of_value (e := .text s.dataDirectory) hdirectory (fun inner hgroup => ?_) _
    cases hgroup
  · rw [sectionFields_writtenValue hbroker]
    exact fun f _ => not_isBlocked_values (by simp [BrokerSettings.entries]) f
  · rw [sectionFields_writtenValue hcache]
    exact fun f _ => not_isBlocked_values (by simp [CacheSettings.entries]) f
  · rw [sectionFields_writtenValue hprovider]
    exact fun f _ => not_isBlocked_values (by simp [ProviderSettings.entries]) f
  · have htext : setting s.writtenValue (rootFields s.writtenValue) "data_dir" (.text ({} : Settings).dataDirectory) =
        .text s.dataDirectory := by
      rw [setting, hdirectory]
      rfl
    simp only [entries, List.map_cons, List.map_nil, readEntry, htext, sectionFields_writtenValue hbroker,
      sectionFields_writtenValue hcache, sectionFields_writtenValue hprovider, readGroup_broker hqos, readGroup_cache,
      readGroup_provider]

/-! ### Saving -/

/-- A file can be written where the path leads, after the directories above it are made. -/
def IsWritable (path : FilePath) (disk : Disk) : Prop :=
  ∃ disk', Disk.ensureDirectories path.parent disk = (.ok (), disk') ∧ (Disk.writeText path "" disk').1 = .ok ()

variable {path : FilePath} {disk disk' : Disk} {text : String}

theorem child_parent_of_writeText (hwrite : Disk.writeText path text disk = (.ok (), disk')) :
    ∃ name, path = path.parent.child name := by
  obtain ⟨anchor, parts⟩ := path
  rcases List.eq_nil_or_concat parts with rfl | ⟨above, name, rfl⟩
  · obtain ⟨place, hstatus⟩ := Disk.status_anchor anchor disk
    have hdirectory : disk.isDirectoryAt ⟨anchor, []⟩ = true := by rw [Disk.isDirectoryAt, hstatus]
    have hresult := Disk.fst_writeText ⟨anchor, []⟩ text disk
    rw [hwrite, hdirectory] at hresult
    cases hlocate : disk.locate ⟨anchor, []⟩ <;> simp [hlocate] at hresult
  · exact ⟨name, by simp [FilePath.parent, FilePath.child]⟩

/-- Settings that are saved where a file can be written: the file has what the library wrote below the comment, and a fault of the library is not hidden. -/
theorem save_of_isWritable (yaml : Yaml.Library) (hwritable : IsWritable path disk) (s : Settings) :
    ∃ disk' place, save yaml path s disk = ((yaml.dump s.fileEntries).2.elim (.ok ()) fun fault => .error (.yaml fault), disk') ∧
      disk'.status path = .ok (place, .file (comment ++ (yaml.dump s.fileEntries).1).toUTF8) := by
  obtain ⟨between, hdirectories, hwrite⟩ := hwritable
  let text := comment ++ (yaml.dump s.fileEntries).1
  have hwritten : (Disk.writeText path text between).1 = .ok () := by
    rw [Disk.fst_writeText] at hwrite ⊢
    exact hwrite
  rcases hresult : Disk.writeText path text between with ⟨result, disk'⟩
  rw [hresult] at hwritten
  cases hwritten
  obtain ⟨name, hname⟩ := child_parent_of_writeText hresult
  have hchild := hresult
  rw [hname] at hchild
  obtain ⟨place, hchanged⟩ := Disk.written_of_writeText hchild
  refine ⟨disk', place ++ [name], ?_, ?_⟩
  · have haction : (do
        Disk.ensureDirectories path.parent
        Disk.writeText path text : DiskAction Unit) disk = (.ok (), disk') := by
      rw [Disk.bind_apply, hdirectories]
      exact hresult
    simp only [save]
    rw [haction]
  · rw [hname]
    exact hchanged.status_child

/-! ### The saved text -/

theorem wellFormed_group {entries : List (String × Entry)} {depth : Nat} (hdepth : depth ≤ Entry.deepest) (hne : entries ≠ [])
    (hnames : (entries.map Prod.fst).Nodup ∧ ∀ name ∈ entries.map Prod.fst, Yaml.IsName name)
    (hentries : ∀ e ∈ entries.map Prod.snd, e.WellFormed (depth + 1)) : (Entry.group entries).WellFormed depth :=
  ⟨hdepth, hne, hnames.1, Entry.allWellFormed_iff.2 ⟨hnames.2, hentries⟩⟩

theorem wellFormed_entries (s : Settings) : (Entry.group s.entries).WellFormed 1 := by
  have hbroker : (Entry.group s.broker.entries).WellFormed 2 := by
    refine wellFormed_group (by decide) (List.cons_ne_nil _ _) ?_ ?_
    · simp only [BrokerSettings.entries, List.map_cons, List.map_nil]
      decide
    · simp [BrokerSettings.entries, Entry.WellFormed, Entry.deepest]
  have hcache : (Entry.group s.cache.entries).WellFormed 2 := by
    refine wellFormed_group (by decide) (List.cons_ne_nil _ _) ?_ ?_
    · simp only [CacheSettings.entries, List.map_cons, List.map_nil]
      decide
    · simp [CacheSettings.entries, Entry.WellFormed, Entry.deepest]
  have hprovider : (Entry.group s.provider.entries).WellFormed 2 := by
    refine wellFormed_group (by decide) (List.cons_ne_nil _ _) ?_ ?_
    · simp only [ProviderSettings.entries, List.map_cons, List.map_nil]
      decide
    · simp [ProviderSettings.entries, Entry.WellFormed, Entry.deepest]
  refine wellFormed_group (by decide) (List.cons_ne_nil _ _) ?_ ?_
  · simp only [entries, List.map_cons, List.map_nil]
    decide
  · have hdirectory : (Entry.text s.dataDirectory).WellFormed 2 := by simp [Entry.WellFormed, Entry.deepest]
    simp only [entries, List.map_cons, List.map_nil, List.forall_mem_cons]
    exact ⟨hdirectory, hbroker, hcache, hprovider, List.forall_mem_nil _⟩

theorem wellFormed_file (s : Settings) : (Entry.group s.fileEntries).WellFormed 0 :=
  ⟨Nat.zero_le _, List.cons_ne_nil _ _, List.nodup_singleton _, by decide, wellFormed_entries s, trivial⟩

/-- The library makes of what it writes for some entries their value again, and a line of comment above them changes nothing. -/
structure Undoes (yaml : Yaml.Library) (entries : List (String × Entry)) : Prop where
  whole : (yaml.dump entries).2 = none
  undone : yaml.load (yaml.dump entries).1.toUTF8 = .ok (Entry.group entries).value
  commented : yaml.load (comment ++ (yaml.dump entries).1).toUTF8 = yaml.load (yaml.dump entries).1.toUTF8

/-- Saved settings are loaded again as they were, with any library that undoes what it writes for them. -/
theorem load_save (yaml : Yaml.Library) (hundoes : Undoes yaml s.fileEntries) (hwritable : IsWritable path disk)
    (hqos : 0 ≤ s.broker.qos ∧ s.broker.qos ≤ 2) :
    ∃ disk', save yaml path s disk = (.ok (), disk') ∧ load yaml path disk' = (.ok s, disk') := by
  obtain ⟨disk', place, hsave, hfile⟩ := save_of_isWritable yaml hwritable s
  rw [hundoes.whole] at hsave
  obtain ⟨hfree, hentries⟩ := ofValue_eq_ok_iff.1 (ofValue_writtenValue hqos)
  have hload := hundoes.commented.trans hundoes.undone
  refine ⟨disk', hsave, ?_⟩
  rw [load_of_status hfile, ofBytes_eq_ok_iff.2 (.value hload hfree hentries)]

/-! ### The standard library -/

theorem notMem_write (s : Settings) : '\r' ∉ (Yaml.write s.fileEntries).toList := by
  have hwritten : Yaml.Writer.Common (Yaml.Writer.writeEntries 0 s.fileEntries) :=
    Yaml.Writer.common_writeEntries _ (wellFormed_file s).2.2.2
  rw [Yaml.toList_write]
  exact fun hreturn => absurd (hwritten _ hreturn) (by decide)

theorem dump_standard {entries : List (String × Entry)} (htexts : (Entry.group entries).value.hasTooLong = false) :
    Yaml.Library.standard.dump entries = (Yaml.write entries, none) := by
  simp only [Yaml.Library.standard, htexts, Bool.false_eq_true, if_false]

/-- The standard library undoes what it writes, unless there is a number of so many digits that it cannot be written. -/
theorem undoes_standard (htexts : (Entry.group s.fileEntries).value.hasTooLong = false) : Undoes .standard s.fileEntries := by
  have hdump := dump_standard htexts
  have hload (front : String) (hplain : '\r' ∉ front.toList) (hfront : Yaml.Tokens.Reader.IsFront front.toList) :
      Yaml.Library.standard.load (front ++ Yaml.write s.fileEntries).toUTF8 = .ok s.writtenValue := by
    have hdecode : Disk.decodeText (front ++ Yaml.write s.fileEntries).toUTF8 = .ok (front ++ Yaml.write s.fileEntries) := by
      rw [Disk.decodeText_toUTF8, unifyLineEnds_of_notMem, String.ofList_toList]
      rw [String.toList_append, List.mem_append, not_or]
      exact ⟨hplain, notMem_write s⟩
    have hread := Yaml.read_write hfront (wellFormed_file s) htexts
    rw [String.ofList_toList] at hread
    simp only [Yaml.Library.standard, hdecode]
    exact hread
  have hcomment : Yaml.Tokens.Reader.IsFront comment.toList := by
    have hinline : Yaml.Writer.Inline " Schema Tag Provider configuration".toList :=
      List.all_eq_true.1 (by decide : List.all _ Yaml.Writer.isPrintable = true)
    exact .comment hinline
  have hundone := hload "" (by decide) .nothing
  rw [String.empty_append] at hundone
  refine ⟨by rw [hdump], ?_, ?_⟩
  · rw [hdump]
    exact hundone
  · rw [hdump, hload comment (by decide) hcomment, hundone]

theorem isWritable_empty : IsWritable configPath {} := by
  refine ⟨{}, ?_, ?_⟩
  · rfl
  · exact toOption_eq_some_iff.1 (by decide +kernel)

/-- Settings with texts that look like something else. -/
def tricky : Settings :=
  { dataDirectory := "null", broker := { clientId := "012", topic := "yes", password := "- # 'x': \x7b\n\u00e9", qos := 2 } }

theorem load_save_tricky : Undoes .standard tricky.fileEntries ∧
    ∃ disk', save .standard configPath tricky {} = (.ok (), disk') ∧ load .standard configPath disk' = (.ok tricky, disk') := by
  have hundoes : Undoes .standard tricky.fileEntries := undoes_standard (by decide +kernel)
  exact ⟨hundoes, load_save .standard hundoes isWritable_empty (by decide)⟩

end TagTypes.Settings
