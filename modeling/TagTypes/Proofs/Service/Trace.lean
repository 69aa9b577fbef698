import Mathlib.Tactic
import TagTypes.Proofs.Registry.History
import TagTypes.Proofs.SchemaCache.Run
import TagTypes.Proofs.Service.Sharing

/-!
# The trace of a message

A service tells what became of a message. If the cache does not take the text, because the key is no file name, the text is no schema or the file cannot be written, then this is the one thing that happens: the message is told as rejected, and all else stays as it is, but that a write for which there is too little room leaves a beginning of the text in the file. Otherwise the schema is told as received; then, if it came in the place of one with another name and types may be deleted, the type of that name as removed; and at last its own type as synchronized. The events of the last two kinds say what became of the registered types.
-/

namespace TagTypes

/-! ### Texts that a cache does not take -/

namespace SchemaCache

variable {c : SchemaCache} {key text : String} {disk : Disk}

/-- The key is no file name, the text is no schema, or the file cannot be written. -/
def Refuses (c : SchemaCache) (disk : Disk) (key text : String) : Prop :=
  isValidKey key = false ∨ (Schema.parse key text).isOk = false ∨ (Disk.writeText (c.fileFor key) text disk).1.isOk = false

/-- A cache in this directory was prepared at some time. -/
def Prepared (c : SchemaCache) : Prop := ∃ disk, (prepare { directory := c.directory } disk).1.isOk = true

theorem Prepared.nullFree (h : Prepared c) : Disk.NullFree c.directory := by
  obtain ⟨disk, hok⟩ := h
  rcases houtcome : prepare { directory := c.directory } disk with ⟨_ | saved, disk'⟩
  · rw [houtcome] at hok
    cases hok
  · obtain ⟨-, place, hstatus⟩ := prepare_disk houtcome
    exact (Disk.walk_of_status hstatus).2

/-- A text that is refused leaves the disk as it is. A null character in the path, which nobody would handle, is not the reason. -/
theorem save_of_refuses (hprepared : Prepared c) (hrefuses : Refuses c disk key text) :
    ∃ e, c.save key text disk = (.error e, disk) ∧ e ≠ .embeddedNull := by
  unfold save
  by_cases hkey : isValidKey key = true
  · rw [hkey]
    simp only [Bool.not_true, Bool.false_eq_true, if_false]
    cases hparse : Schema.parse key text with
    | error error => exact ⟨_, rfl, by simp⟩
    | ok schema =>
      rcases hwrite : Disk.writeText (c.fileFor key) text disk with ⟨fault | _, disk'⟩
      · obtain rfl := Disk.writeText_error hwrite
        have hnull : Disk.NullFree (c.fileFor key) := hprepared.nullFree.child (isFileName_of_isValidKey hkey).2
        have hfault : (Disk.writeText (c.fileFor key) text disk').1 ≠ .error .embeddedNull :=
          Disk.writeText_ne_embeddedNull hnull
        have hbytes : (Disk.writeText (c.fileFor key) text disk').1 ≠ .error .unencodable := Disk.writeText_ne_unencodable
        simp only [hwrite, ne_eq, Except.error.injEq] at hfault hbytes
        simp only [Disk.writeTextUnder_none, hwrite]
        exact ⟨_, rfl, by simp⟩
      · simp [Refuses, hkey, hparse, hwrite, Except.isOk, Except.toBool] at hrefuses
  · rw [Bool.not_eq_true] at hkey
    rw [hkey]
    exact ⟨_, rfl, by simp⟩

theorem save_of_not_refuses (hrefuses : ¬Refuses c disk key text) :
    ∃ schema saved disk', c.save key text disk = (.ok (schema, saved), disk') := by
  rw [Refuses, not_or, not_or, Bool.not_eq_false, Bool.not_eq_false, Bool.not_eq_false] at hrefuses
  obtain ⟨hkey, hparse, hwrite⟩ := hrefuses
  cases hparsed : Schema.parse key text with
  | error error =>
    rw [hparsed] at hparse
    cases hparse
  | ok schema =>
    rcases hwritten : Disk.writeText (c.fileFor key) text disk with ⟨fault | ⟨⟩, disk'⟩
    · rw [hwritten] at hwrite
      cases hwrite
    · exact ⟨schema, _, disk', save_of_writeText hkey hparsed hwritten⟩

end SchemaCache

/-! ### Messages -/

namespace Service

open TagPath (IsName)

variable {s : Service} {cache saved : SchemaCache} {key text : String} {schema : Schema} {disk : Disk}

/-- The name that the key had before, if the schema has another one and types may be deleted. -/
def outgrown? (s : Service) (cache : SchemaCache) (key : String) (schema : Schema) : Option String :=
  if s.allowDelete then ((cache.schema? key).map Schema.name).filter (· ≠ schema.name) else none

/-- Take the type away that a schema leaves behind, if any. -/
def dropType (type : Option String) (s : Service) : Service := type.elim s fun type => s.removeType type

/-- A schema that the cache has taken: its key's type of another name goes and its own type is brought. -/
theorem received_taken (hactive : s.activeCache? = some cache)
    (hsave : cache.save key text s.disk = (.ok (schema, saved), disk)) :
    s.received key text = ((s.admitted saved disk key).dropType (s.outgrown? cache key schema)).syncType schema := by
  have hdelete : (s.admitted saved disk key).allowDelete = s.allowDelete := rfl
  rw [received, receive, hactive]
  simp only [hsave]
  rw [← admitted, hdelete, outgrown?]
  cases hbefore : cache.schema? key with
  | none => cases s.allowDelete <;> rfl
  | some before =>
    cases s.allowDelete with
    | false => simp [dropType]
    | true =>
      by_cases hsame : before.name = schema.name
      · simp [dropType, hsame, Option.filter]
      · simp [dropType, hsame, Option.filter]

/-- What is told when a type is dropped, and what becomes of the registered types. -/
theorem exists_dropType (hopen : s.registry.log.isOpen = true) (type : Option String) :
    ∃ removed, (s.dropType type).registry.log.isOpen = true ∧
      (s.dropType type).registry.log.events = s.registry.log.events ++ type.toList.map (Event.typeRemoved · removed) ∧
      ∀ name, name ∈ (s.dropType type).registry.registered ↔
        name ∈ s.registry.registered ∧ ¬(removed = true ∧ type = some name) := by
  cases type with
  | none => exact ⟨false, hopen, by simp [dropType], by simp [dropType]⟩
  | some type =>
    refine ⟨(s.registry.remove s.access type).1, ?_, Registry.events_remove hopen type, fun name => ?_⟩
    · exact (Registry.isOpen_remove type).trans hopen
    · rw [Option.some_inj, eq_comm (a := type)]
      exact Registry.mem_registered_remove_iff

/-- To synchronize a type of a provider in memory goes well if and only if its name can name a tag. -/
theorem success_syncType_iff {q : Registry Tags} (h : s.Holds q) (hparse : Schema.parse key text = .ok schema) :
    (s.registry.sync s.access schema).1 = true ↔ IsName schema.name := by
  have hsame : (s.registry.sync s.access schema).1 = (q.sync (Tags.access s.arrange) schema).1 :=
    (Registry.sync_simulated (Holds.simulated s) h schema).1
  rw [hsame, Registry.fst_sync, Registry.deliver_success]
  constructor
  · exact Udt.isName_of_stored?
  · intro hname
    rw [Udt.stored?_of_legibleDefaults (Schema.legibleDefaults_parse hparse) hname]
    rfl

theorem Holds.dropType {q : Registry Tags} (h : s.Holds q) (type : Option String) : ∃ q', (s.dropType type).Holds q' := by
  cases type with
  | none => exact ⟨q, h⟩
  | some type => exact ⟨_, h.removeType type⟩

/-- A text that is refused is told as rejected, and nothing else happens. A strike makes no difference, since nothing is written. -/
theorem receive_of_refuses (hactive : s.activeCache? = some cache) (hprepared : cache.Prepared)
    (hrefuses : cache.Refuses s.disk key text) : ∃ e, (cache.save key text s.disk).1 = .error e ∧ e ≠ .embeddedNull ∧
      ∀ strike, s.receive key text strike = (.ok (), s.tell (.schemaRejected key (rejection e))) := by
  obtain ⟨e, hsave, hnull⟩ := SchemaCache.save_of_refuses hprepared hrefuses
  have hbytes := SchemaCache.save_ne_unencodable hsave
  refine ⟨e, by rw [hsave], hnull, fun strike => ?_⟩
  have hstruck : cache.save key text s.disk strike = (.error e, s.disk) := by
    cases strike with
    | none => exact hsave
    | some strike =>
      rcases houtcome : cache.save key text s.disk (some strike) with ⟨outcome, disk⟩
      rcases SchemaCache.save_struck houtcome with ⟨e', rfl, rfl, hplain⟩ | ⟨-, hplain, -⟩
      · cases hsave.symm.trans hplain
        rfl
      · rw [hsave] at hplain
        cases hplain
  rw [receive, hactive]
  simp only [hstruck]
  rfl

/-- A text whose write is struck leaves a beginning of it in the file of its key, and nothing else changes. For want of room it is told as rejected. -/
theorem receive_of_struck (hactive : s.activeCache? = some cache) (htaken : ¬cache.Refuses s.disk key text) (kept : Nat) :
    ∃ place disk, Disk.Changed cache.directory place (key ++ ".json") (some (text.toUTF8.extract 0 kept)) s.disk disk ∧
      s.receive key text (some (.noRoom kept)) =
        (.ok (), (s.withDisk disk).tell (.schemaRejected key (rejection (.writeFailed (cache.fileFor key))))) := by
  obtain ⟨schema, saved, _, hsave⟩ := SchemaCache.save_of_not_refuses htaken
  rcases houtcome : cache.save key text s.disk (some (.noRoom kept)) with ⟨outcome, disk⟩
  rcases SchemaCache.save_struck houtcome with ⟨e, -, -, hplain⟩ | ⟨rfl, -, -, place, hchanged⟩
  · rw [hsave] at hplain
    cases hplain
  · refine ⟨place, disk, hchanged, ?_⟩
    rw [receive, hactive]
    simp only [houtcome, SchemaCache.struckError]

/-- What a service with a prepared cache tells about a message. If the cache refuses the text, or if there is no room to write all of it, then the message is told as rejected and nothing else happens, but that in the latter case the file of the key holds what there was room for. Otherwise the schema is told as received, then the type that it leaves behind, if any, as removed, and then its own type as synchronized; these two events say which types are registered now, and with a provider in memory the last one tells success if and only if the name can name a tag. -/
theorem received_trace (hactive : s.activeCache? = some cache) (hprepared : cache.Prepared)
    (hopen : s.registry.log.isOpen = true) (key text : String) :
    (cache.Refuses s.disk key text → ∃ e, (cache.save key text s.disk).1 = .error e ∧ e ≠ .embeddedNull ∧
      (∀ strike, s.receive key text strike = (.ok (), s.tell (.schemaRejected key (rejection e)))) ∧
      (s.tell (.schemaRejected key (rejection e))).registry.log.events =
        s.registry.log.events ++ [.schemaRejected key (rejection e)]) ∧
    (¬cache.Refuses s.disk key text → ∀ kept, ∃ place disk,
      Disk.Changed cache.directory place (key ++ ".json") (some (text.toUTF8.extract 0 kept)) s.disk disk ∧
      s.receive key text (some (.noRoom kept)) =
        (.ok (), (s.withDisk disk).tell (.schemaRejected key (rejection (.writeFailed (cache.fileFor key))))) ∧
      ((s.withDisk disk).tell (.schemaRejected key (rejection (.writeFailed (cache.fileFor key))))).registry.log.events =
        s.registry.log.events ++ [.schemaRejected key (rejection (.writeFailed (cache.fileFor key)))]) ∧
    (¬cache.Refuses s.disk key text → ∃ schema removed success, Schema.parse key text = .ok schema ∧
      s.receive key text none = (.ok (), s.received key text) ∧
      (s.received key text).registry.log.events = s.registry.log.events ++ ([.schemaReceived key] ++
        (s.outgrown? cache key schema).toList.map (Event.typeRemoved · removed) ++ [.typeSynced schema.name success]) ∧
      (∀ name, name ∈ (s.received key text).registry.registered ↔ success = true ∧ name = schema.name ∨
        name ∈ s.registry.registered ∧ ¬(removed = true ∧ s.outgrown? cache key schema = some name)) ∧
      ((s.registry.tags.memory? s.settings.provider.name).isSome = true → (success = true ↔ IsName schema.name))) := by
  refine ⟨fun hrefuses => ?_, fun htaken kept => ?_, fun htaken => ?_⟩
  · obtain ⟨e, hsave, hnull, hreceive⟩ := receive_of_refuses hactive hprepared hrefuses
    exact ⟨e, hsave, hnull, hreceive, Registry.events_tell hopen _⟩
  · obtain ⟨place, disk, hchanged, hreceive⟩ := receive_of_struck hactive htaken kept
    exact ⟨place, disk, hchanged, hreceive, Registry.events_tell hopen _⟩
  · obtain ⟨schema, saved, disk, hsave⟩ := SchemaCache.save_of_not_refuses htaken
    have hparse := (SchemaCache.save_ok hsave).2.1
    have hreceive : s.receive key text none = (.ok (), s.received key text) := by
      rw [received, receive, hactive]
      simp only [hsave]
    have hadmitted : (s.admitted saved disk key).registry.log.events = s.registry.log.events ++ [.schemaReceived key] :=
      Registry.events_tell hopen _
    have hlistened : (s.admitted saved disk key).registry.log.isOpen = true := (Registry.isOpen_tell _).trans hopen
    obtain ⟨removed, hstill, hevents, hregistered⟩ := exists_dropType hlistened (s.outgrown? cache key schema)
    let dropped := (s.admitted saved disk key).dropType (s.outgrown? cache key schema)
    refine ⟨schema, removed, (dropped.registry.sync dropped.access schema).1, hparse, hreceive, ?_⟩
    rw [received_taken hactive hsave]
    refine ⟨?_, fun name => ?_, fun hmemory => ?_⟩
    · refine (Registry.events_sync hstill schema).trans ?_
      rw [hevents, hadmitted]
      simp only [List.append_assoc]
      rfl
    · refine Registry.mem_registered_sync_iff.trans ?_
      rw [hregistered, or_comm]
      exact Iff.rfl
    · obtain ⟨q, hq⟩ := exists_holds hmemory
      have hadmittedHolds : (s.admitted saved disk key).Holds (q.tell (.schemaReceived key)) := (hq.withDisk disk).tell _
      obtain ⟨q', hq'⟩ := hadmittedHolds.dropType (s.outgrown? cache key schema)
      exact success_syncType_iff hq' hparse

/-- A text that is no schema changes nothing, one that there is no room for changes the file, and a new title takes the type of the old one away. -/
theorem received_trace_titles : ∃ cache, (withTitles "A" "B").activeCache? = some cache ∧ cache.Prepared ∧
    (∃ e, (withTitles "A" "B").receive "a" "[" (some (.noRoom 0)) = (.ok (), (withTitles "A" "B").tell (.schemaRejected "a" (rejection e)))) ∧
    (∃ disk, (withTitles "A" "B").receive "a" (titled "C") (some (.noRoom 0)) = (.ok (), ((withTitles "A" "B").withDisk disk).tell
      (.schemaRejected "a" (rejection (.writeFailed (cache.fileFor "a")))))) ∧
    ∃ removed, ((withTitles "A" "B").received "a" (titled "C")).registry.log.events =
      (withTitles "A" "B").registry.log.events ++ [.schemaReceived "a", .typeRemoved "A" removed, .typeSynced "C" true] := by
  have hrun : (withTitles "A" "B").activeCache?.map (fun cache =>
      ((SchemaCache.prepare { directory := cache.directory } (withTitles "A" "B").disk).1.isOk,
        (Disk.writeText (cache.fileFor "a") (titled "C") (withTitles "A" "B").disk).1.isOk,
        (cache.schema? "a").map Schema.name)) = some (true, true, some "A") := by
    decide +kernel
  have hopen : (withTitles "A" "B").registry.log.isOpen = true := by decide +kernel
  have hmemory : ((withTitles "A" "B").registry.tags.memory? (withTitles "A" "B").settings.provider.name).isSome = true ∧
      (withTitles "A" "B").allowDelete = true := by
    decide +kernel
  have hparsed : (Schema.parse "a" "[").isOk = false ∧ (Schema.parse "a" (titled "C")).toOption.map Schema.name = some "C" := by
    decide +kernel
  obtain ⟨cache, hactive, hrun⟩ := Option.map_eq_some_iff.1 hrun
  rw [Prod.mk.injEq, Prod.mk.injEq] at hrun
  obtain ⟨hprepared, hwrite, hbefore⟩ := hrun
  have hcache : cache.Prepared := ⟨_, hprepared⟩
  obtain ⟨found, hfound, hname⟩ := Option.map_eq_some_iff.1 hparsed.2
  have hparse := toOption_eq_some_iff.1 hfound
  have htaken : ¬cache.Refuses (withTitles "A" "B").disk "a" (titled "C") := by
    have hkey : SchemaCache.isValidKey "a" = true := by decide
    have hschema : (Schema.parse "a" (titled "C")).isOk = true := by rw [hparse]; rfl
    simp [SchemaCache.Refuses, hkey, hschema, hwrite]
  refine ⟨cache, hactive, hcache, ?_, ?_, ?_⟩
  · obtain ⟨e, -, -, hreceived, -⟩ := (received_trace hactive hcache hopen "a" "[").1 (Or.inr (Or.inl hparsed.1))
    exact ⟨e, hreceived _⟩
  · obtain ⟨-, disk, -, hreceived, -⟩ := (received_trace hactive hcache hopen "a" (titled "C")).2.1 htaken 0
    exact ⟨disk, hreceived⟩
  · obtain ⟨schema, removed, success, hschema, -, hevents, -, hsuccess⟩ :=
      (received_trace hactive hcache hopen "a" (titled "C")).2.2 htaken
    cases hparse.symm.trans hschema
    rw [hname] at hevents hsuccess
    refine ⟨removed, ?_⟩
    rw [hevents, (hsuccess hmemory.1).2 (by decide), outgrown?, hmemory.2, hbefore, hname]
    rfl

/-- The text in the file of a key, if there is one. -/
def fileText? (s : Service) (key : String) : Option String :=
  s.cache.bind fun cache => (s.disk.readText (cache.fileFor key)).toOption

/-- A text whose write is struck empties the file of its key: for want of room it is told as rejected all the same, and as a text without bytes it makes the call fail. -/
theorem not_unchanged_struck : (∃ cache, (withTitles "A" "B").activeCache? = some cache ∧ cache.Prepared) ∧
    (withTitles "A" "B").fileText? "a" = some (titled "A") ∧
    ((withTitles "A" "B").receive "a" (titled "C") (some (.noRoom 0))).1.isOk = true ∧
    ((withTitles "A" "B").receive "a" (titled "C") (some (.noRoom 0))).2.fileText? "a" = some "" ∧
    ((withTitles "A" "B").receive "a" (titled "C") (some .unencodable)).1.isOk = false ∧
    ((withTitles "A" "B").receive "a" (titled "C") (some .unencodable)).2.fileText? "a" = some "" := by
  have hrun : (withTitles "A" "B").activeCache?.map (fun cache =>
      (SchemaCache.prepare { directory := cache.directory } (withTitles "A" "B").disk).1.isOk) = some true := by
    decide +kernel
  obtain ⟨cache, hactive, hprepared⟩ := Option.map_eq_some_iff.1 hrun
  refine ⟨⟨cache, hactive, _, hprepared⟩, ?_⟩
  decide +kernel

end Service

end TagTypes
