import Mathlib.Tactic
import TagTypes.Proofs.Disk.Sparing
import TagTypes.Proofs.SchemaCache.Run

/-!
# Durable caches

If only a cache works in its directory, and no files were there at first, then each file there is that of a key, and it holds what is cached under this key, even where calls failed. Only a write that was struck leaves a file that is cut, until the key is saved again or removed, or the directory is read. So a new cache that is prepared over the directory holds the same schemas under all keys whose files are not cut; their texts are read with unified line ends, which does not change what they describe.
-/

namespace TagTypes.SchemaCache

open Disk (Grown)

variable {s : SchemaCache × Disk} {c : SchemaCache} {directory : FilePath} {d d' : Disk} {place cut : List String}
  {key other name text : String} {schema : Schema} {found : Option ByteArray} {a : Action} {actions : List Action}

/-! ### Files of keys -/

/-- The schema for a key that is read from a content. -/
def readAs (key : String) (content : ByteArray) : Option CachedSchema :=
  (Disk.decodeText content).toOption.bind fun text =>
    (Schema.parse key text).toOption.map fun schema => ⟨schema, text⟩

/-- What the file of a key holds, if that is a schema. This does not ask whether the way to the file is there. -/
def stored? (directory : FilePath) (d : Disk) (key : String) : Option CachedSchema :=
  (d.content? (d.placeOf directory ++ [key ++ ".json"])).bind (readAs key)

theorem readAs_toUTF8 (hparse : Schema.parse key text = .ok schema) :
    readAs key text.toUTF8 = some (CachedSchema.mk schema text).unified := by
  rw [readAs, Disk.decodeText_toUTF8]
  simp only [Except.toOption, Option.bind_some, Schema.parse_unifyLineEnds hparse, Option.map_some]
  rfl

theorem stored?_grown (hgrown : Grown d d') (directory : FilePath) (key : String) :
    stored? directory d' key = stored? directory d key := by
  rw [stored?, stored?, Disk.placeOf_congr hgrown.workingDirectory, Disk.content?_congr fun _ => hgrown.node?_file_iff]

theorem stored?_changed (h : Disk.Changed directory place (key ++ ".json") found d d') (other : String) :
    stored? directory d' other = if key = other then found.bind (readAs key) else stored? directory d other := by
  have hsame : place ++ [key ++ ".json"] = d.placeOf directory ++ [other ++ ".json"] ↔ key = other := by
    rw [← h.place_eq, List.append_cancel_left_eq, List.singleton_inj, String.append_left_inj]
  unfold stored?
  rw [Disk.placeOf_congr h.workingDirectory, h.content?]
  by_cases hkey : key = other
  · rw [if_pos (hsame.2 hkey), if_pos hkey, hkey]
  · rw [if_neg (fun heq => hkey (hsame.1 heq)), if_neg hkey]

/-- What is read from the directory comes from a file in it. -/
theorem exists_content_of_held? {entry : CachedSchema} (hheld : held? directory d name = some entry) :
    ∃ content, d.content? (d.placeOf directory ++ [name]) = some content := by
  obtain ⟨text, hread, -⟩ := Option.bind_eq_some_iff.1 hheld
  obtain ⟨place, content, hstatus, hnode, -⟩ := Disk.status_of_readText (toOption_eq_some_iff.1 hread)
  rw [Disk.eq_placeOf_of_status hstatus] at hnode
  exact ⟨content, Disk.content?_eq_some_iff.2 hnode⟩

/-! ### The files of a cache that works alone -/

/-- Each file below the cache directory is that of a key, and the directory is there if there are any. The files of keys that are not cut hold what is cached. -/
structure Mirrored (c : SchemaCache) (d : Disk) (cut : List String) : Prop where
  isFile : ∀ below content, d.content? (d.placeOf c.directory ++ below) = some content →
    ∃ key, hasFile c.directory key = true ∧ below = [key ++ ".json"]
  directory : ∀ below content, d.content? (d.placeOf c.directory ++ below) = some content →
    ∃ place, d.status c.directory = .ok (place, .directory)
  stored : ∀ key, key ∉ cut → stored? c.directory d key = (c.entries.get? key).map CachedSchema.unified

theorem mirrored_bare (hbare : d.Bare directory) (cut : List String) : Mirrored { directory } d cut := by
  have hnone : ∀ below, d.content? (d.placeOf directory ++ below) = none := fun below => by
    rw [Option.eq_none_iff_forall_ne_some]
    exact fun content hcontent => hbare below content (Disk.content?_eq_some_iff.1 hcontent)
  refine ⟨fun below content hcontent => ?_, fun below content hcontent => ?_, fun key _ => ?_⟩
  · rw [hnone] at hcontent
    cases hcontent
  · rw [hnone] at hcontent
    cases hcontent
  · rw [stored?, hnone]
    rfl

namespace Mirrored

variable (h : Mirrored c d cut)
include h

theorem hasFile_of_content {content : ByteArray} (hcontent : d.content? (d.placeOf c.directory ++ [key ++ ".json"]) = some content) :
    hasFile c.directory key = true := by
  obtain ⟨own, hown, hname⟩ := h.isFile _ content hcontent
  rwa [(String.append_left_inj _).1 (List.singleton_inj.1 hname)]

theorem content?_json : d.content? (d.placeOf c.directory ++ [".json"]) = none := by
  rw [Option.eq_none_iff_forall_ne_some]
  intro content hcontent
  obtain ⟨own, hown, hname⟩ := h.isFile _ content hcontent
  rw [hasFile, Bool.and_eq_true] at hown
  exact ne_empty_of_isValidKey hown.1 (String.append_eq_right_iff.1 (List.singleton_inj.1 hname).symm)

/-- For each key the schema in its file is read. -/
theorem get?_loadAll (hstatus : d.status c.directory = .ok (place, .directory)) (key : String) :
    (loadAll c.directory d).get? key = stored? c.directory d key := by
  have hjson : held? c.directory d ".json" = none := by
    rw [Option.eq_none_iff_forall_ne_some]
    intro entry hheld
    obtain ⟨content, hcontent⟩ := exists_content_of_held? hheld
    rw [h.content?_json] at hcontent
    cases hcontent
  unfold stored?
  cases hcontent : d.content? (d.placeOf c.directory ++ [key ++ ".json"]) with
  | none =>
    rw [Option.bind_none, get?_loadAll_eq_none_iff]
    rintro name (⟨-, rfl⟩ | ⟨-, rfl⟩)
    · rw [Option.eq_none_iff_forall_ne_some]
      intro entry hheld
      obtain ⟨content, hfound⟩ := exists_content_of_held? hheld
      rw [hcontent] at hfound
      cases hfound
    · exact hjson
  | some content =>
    have hfile := h.hasFile_of_content hcontent
    rw [hasFile, Bool.and_eq_true] at hfile
    obtain ⟨hvalid, hfits⟩ := hfile
    have hkey := ne_empty_of_isValidKey hvalid
    obtain ⟨hwalk, hnull⟩ := Disk.walk_of_status hstatus
    rw [← Disk.eq_placeOf_of_status hstatus] at hcontent
    have hread := Disk.readText_of_status
      (Disk.status_child_of_walk hwalk hnull (isFileName_of_isValidKey hvalid) hfits (Disk.content?_eq_some_iff.1 hcontent))
    rw [get?_loadAll_eq hkey, hjson, held?, hread, FilePath.stemOf_fileName hkey, ite_self, Option.or_none]
    rfl

theorem mono (hgrown : Grown d d') : Mirrored c d' cut := by
  have hplace := Disk.placeOf_congr hgrown.workingDirectory c.directory
  have hcontent : ∀ place, d'.content? place = d.content? place := fun place => Disk.content?_congr fun _ => hgrown.node?_file_iff
  refine ⟨fun below content => ?_, fun below content hfound => ?_, fun key hkey => ?_⟩
  · rw [hplace, hcontent]
    exact h.isFile below content
  · rw [hplace, hcontent] at hfound
    obtain ⟨place, hstatus⟩ := h.directory below content hfound
    exact ⟨place, hgrown.status hstatus⟩
  · rw [stored?_grown hgrown, h.stored key hkey]

/-- Where the directory is read, no file counts as cut any more: what it holds is cached, if that is a schema. -/
theorem read : Mirrored { c with entries := loadAll c.directory d } d [] := by
  refine ⟨h.isFile, h.directory, fun key _ => ?_⟩
  by_cases hthere : ∃ place, d.status c.directory = .ok (place, .directory)
  · obtain ⟨place, hstatus⟩ := hthere
    cases hentry : (loadAll c.directory d).get? key with
    | none => rw [← h.get?_loadAll hstatus, hentry, Option.map_none]
    | some entry =>
      obtain ⟨name, -, hheld⟩ := exists_of_get?_loadAll hentry
      rw [← h.get?_loadAll hstatus, hentry, Option.map_some, unified_of_noReturn (noReturn_of_held? hheld)]
  · rw [loadAll_of_not_directory fun place hstatus => hthere ⟨place, hstatus⟩, stored?, CachedSchemas.get?_empty, Option.map_none]
    cases hcontent : d.content? (d.placeOf c.directory ++ [key ++ ".json"]) with
    | none => rfl
    | some content => exact absurd (h.directory _ content hcontent) hthere

/-- The file of a key changes together with what is cached under it, or the key is cut. -/
theorem changed (hkey : isValidKey key = true) (hchanged : Disk.Changed c.directory place (key ++ ".json") found d d')
    {entries : CachedSchemas} {cut' : List String}
    (hown : key ∉ cut' → found.bind (readAs key) = (entries.get? key).map CachedSchema.unified)
    (hothers : ∀ other, key ≠ other → other ∉ cut' → other ∉ cut ∧ entries.get? other = c.entries.get? other) :
    Mirrored { c with entries } d' cut' where
  isFile below content hcontent := by
    rw [Disk.placeOf_congr hchanged.workingDirectory, hchanged.content?] at hcontent
    split at hcontent
    · rename_i hbelow
      rw [← hchanged.place_eq, List.append_cancel_left_eq] at hbelow
      exact ⟨key, by rw [hasFile, hkey, Disk.fits_of_locate hchanged.located]; rfl, hbelow.symm⟩
    · exact h.isFile below content hcontent
  directory _ _ _ := ⟨place, hchanged.status_after⟩
  stored other hother := by
    rw [stored?_changed hchanged]
    split
    · rename_i hsame
      subst hsame
      exact hown hother
    · rename_i hne
      obtain ⟨huncut, hentry⟩ := hothers other hne hother
      rw [h.stored other huncut, hentry]

theorem saved (hkey : isValidKey key = true) (hparse : Schema.parse key text = .ok schema)
    (hwritten : Disk.Changed c.directory place (key ++ ".json") (some text.toUTF8) d d') :
    Mirrored { c with entries := c.entries.insert key ⟨schema, text⟩ } d' (cut.filter (· ≠ key)) := by
  refine h.changed hkey hwritten (fun _ => ?_) fun other hne hother => ?_
  · rw [CachedSchemas.get?_insert, if_pos rfl, Option.bind_some, readAs_toUTF8 hparse, Option.map_some]
  · rw [CachedSchemas.get?_insert, if_neg hne]
    exact ⟨fun hcut => hother (List.mem_filter.2 ⟨hcut, by simpa using Ne.symm hne⟩), rfl⟩

/-- After a struck write the key is cut, and its schema is cached as before. -/
theorem struck (hkey : isValidKey key = true) (hwritten : Disk.Changed c.directory place (key ++ ".json") found d d') :
    Mirrored c d' (key :: cut) :=
  h.changed hkey hwritten (fun hcut => absurd List.mem_cons_self hcut) fun _ _ hother =>
    ⟨fun hcut => hother (List.mem_cons_of_mem _ hcut), rfl⟩

/-- A schema that was removed is gone together with its file. -/
theorem erased (hkey : isValidKey key = true) (hremoved : Disk.Changed c.directory place (key ++ ".json") none d d') :
    Mirrored { c with entries := c.entries.erase key } d' (cut.filter (· ≠ key)) := by
  refine h.changed hkey hremoved (fun _ => ?_) fun other hne hother => ?_
  · rw [CachedSchemas.get?_erase, if_pos rfl, Option.bind_none, Option.map_none]
  · rw [CachedSchemas.get?_erase, if_neg hne]
    exact ⟨fun hcut => hother (List.mem_filter.2 ⟨hcut, by simpa using Ne.symm hne⟩), rfl⟩

/-- To remove a key without a file leaves no trace of it. -/
theorem missing (hnone : ∀ place, d.walk (d.start c.directory) c.directory.parts = .ok place →
      d.node? (place ++ [key ++ ".json"]) = none) :
    Mirrored { c with entries := c.entries.erase key } d (cut.filter (· ≠ key)) := by
  refine ⟨h.isFile, h.directory, fun other hother => ?_⟩
  rw [CachedSchemas.get?_erase]
  split
  · rename_i hsame
    subst hsame
    unfold stored?
    cases hcontent : d.content? (d.placeOf c.directory ++ [key ++ ".json"]) with
    | none => rfl
    | some content =>
      obtain ⟨place, hstatus⟩ := h.directory _ content hcontent
      rw [← Disk.eq_placeOf_of_status hstatus, Disk.content?_eq_some_iff, hnone place (Disk.walk_of_status hstatus).1] at hcontent
      cases hcontent
  · rename_i hne
    exact h.stored other fun hcut => hother (List.mem_filter.2 ⟨hcut, by simpa using Ne.symm hne⟩)

end Mirrored

/-! ### Keys with cut files -/

/-- The action is one of the cache itself, be it that its write is struck. -/
def Action.IsOwn : Action → Prop
  | .edit _ => False
  | _ => True

/-- The keys with cut files after an action. A struck write cuts the file of its key, if the call would have gone well without the strike; a key that is saved or removed has no cut file, and none has where the directory is read. -/
def cutBy (s : SchemaCache × Disk) (cut : List String) : Action → List String
  | .prepare => if (s.1.prepare s.2).1.isOk then [] else cut
  | .save key text => if (s.1.save key text s.2).1.isOk then cut.filter (· ≠ key) else cut
  | .struck key text _ => if (s.1.save key text s.2).1.isOk then key :: cut else cut
  | .remove key => if (s.1.remove key s.2).1.isOk then cut.filter (· ≠ key) else cut
  | .reload => []
  | .edit _ => cut

/-- The keys with cut files after a run. -/
def cutKeys (s : SchemaCache × Disk) (cut : List String) : List Action → List String
  | [] => cut
  | a :: rest => cutKeys (act s a) (cutBy s cut a) rest

theorem mirrored_act (hs : Mirrored s.1 s.2 cut) (ha : a.IsOwn) : Mirrored (act s a).1 (act s a).2 (cutBy s cut a) := by
  cases a with
  | prepare =>
    rcases houtcome : s.1.prepare s.2 with ⟨_ | c, d'⟩
    · simp only [act, cutBy, houtcome]
      exact hs.mono (prepare_disk houtcome).1
    · simp only [act, cutBy, houtcome]
      rw [prepare_ok houtcome]
      exact (hs.mono (prepare_disk houtcome).1).read
  | save key text =>
    rcases houtcome : s.1.save key text s.2 with ⟨_ | ⟨schema, c⟩, d'⟩
    · simp only [act, cutBy, houtcome]
      rw [save_disk houtcome]
      exact hs
    · simp only [act, cutBy, houtcome]
      obtain ⟨place, hwritten⟩ := save_disk houtcome
      obtain ⟨hkey, hparse, rfl⟩ := save_ok houtcome
      exact hs.saved hkey hparse hwritten
  | struck key text strike =>
    rcases houtcome : s.1.save key text s.2 strike with ⟨result, d'⟩
    rcases save_struck houtcome with ⟨e, rfl, rfl, hplain⟩ | ⟨rfl, hplain, hkey, place, hwritten⟩
    · simp only [act, cutBy, houtcome, hplain]
      exact hs
    · simp only [act, cutBy, houtcome, hplain, if_true]
      exact hs.struck hkey hwritten
  | remove key =>
    rcases houtcome : s.1.remove key s.2 with ⟨_ | c, d'⟩
    · simp only [act, cutBy, houtcome]
      rw [remove_disk houtcome]
      exact hs
    · simp only [act, cutBy, houtcome]
      obtain ⟨hkey, rfl⟩ := remove_ok houtcome
      rcases remove_disk houtcome with ⟨place, hremoved⟩ | ⟨rfl, hnone⟩
      · exact hs.erased hkey hremoved
      · exact hs.missing hnone
  | reload => exact hs.read
  | edit disk => exact ha.elim

theorem mirrored_run (hs : Mirrored s.1 s.2 cut) (hactions : ∀ a ∈ actions, a.IsOwn) :
    Mirrored (run s actions).1 (run s actions).2 (cutKeys s cut actions) := by
  induction actions generalizing s cut with
  | nil => exact hs
  | cons a rest ih =>
    rw [List.forall_mem_cons] at hactions
    exact ih (mirrored_act hs hactions.1) hactions.2

/-- A new cache that is prepared over mirrored files holds what is cached under the keys that are not cut, the texts with unified line ends. -/
theorem Mirrored.prepared (hc : Mirrored c d cut) (hkey : key ∉ cut) :
    (act ({ directory := c.directory }, d) .prepare).1.entries.get? key = (c.entries.get? key).map CachedSchema.unified := by
  rw [← hc.stored key hkey]
  rcases houtcome : prepare { directory := c.directory } d with ⟨_ | fresh, d'⟩
  · simp only [act, houtcome]
    unfold stored?
    cases hcontent : d.content? (d.placeOf c.directory ++ [key ++ ".json"]) with
    | none => rfl
    | some content =>
      obtain ⟨place, hstatus⟩ := hc.directory _ content hcontent
      exact absurd hstatus ((prepare_disk houtcome).2 place)
  · simp only [act, houtcome]
    obtain ⟨hgrown, place, hstatus⟩ := prepare_disk houtcome
    rw [prepare_ok houtcome, ← stored?_grown hgrown]
    exact (hc.mono hgrown).get?_loadAll hstatus key

/-- Two more calls, of which the second one is struck. -/
def breaking : List Action := trying ++ [.save "x" spread, .struck "x" spread (.noRoom 3)]

def broken : SchemaCache × Disk := run ({ directory := ⟨.here, ["a", "schemas"]⟩ }, {}) breaking

/-- A schema, and a text for its key whose write is struck. -/
def losing (strike : Disk.Strike) : List Action :=
  [.prepare, .save "a" "\x7b\x7d", .struck "a" "\x7b\"title\": \"\uFFFD\"\x7d" strike]

/-- A directory with a name that is too long, below another one that is missing. -/
def unreachable : FilePath := ⟨.here, ["a", String.ofList (List.replicate 256 'x')]⟩

end TagTypes.SchemaCache
