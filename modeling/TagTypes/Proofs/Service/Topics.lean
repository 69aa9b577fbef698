import Mathlib.Tactic
import TagTypes.Proofs.Broker.Naming
import TagTypes.Proofs.Service.Confinement

/-!
# Topics that do not interfere

A message acts on the key that its topic gives and on no other: what is cached under another key stays, and so does the file of that key, unless the provider keeps its own files there. So messages on two topics interfere only if the topics give one key, that is, if they differ in slashes and underscores only.
-/

namespace TagTypes

namespace Service

open Broker (IsBase flattened)

variable {s t : Service} {key other : String} {settings : Settings} {disk : Disk}

/-! ### The feed of a service -/

/-- The feed is idle and has the settings of the service. -/
structure Wired (settings : Settings) (s : Service) : Prop where
  configured : s.settings = settings
  feed : ∀ feed, s.feed = some feed → feed.Idle settings.broker

theorem Wired.of_same (h : Wired settings s) (hsettings : t.settings = s.settings) (hfeed : t.feed = s.feed) : Wired settings t :=
  ⟨hsettings.trans h.configured, fun feed heq => h.feed feed (hfeed ▸ heq)⟩

theorem feed_dropType (type : Option String) (s : Service) :
    (s.dropType type).settings = s.settings ∧ (s.dropType type).feed = s.feed := by
  cases type <;> exact ⟨rfl, rfl⟩

theorem feed_handle (signal : Broker.Signal) (s : Service) :
    (s.handle signal).settings = s.settings ∧ (s.handle signal).feed = s.feed := by
  cases signal with
  | received key text =>
    change (s.received key text).settings = _ ∧ (s.received key text).feed = _
    cases hactive : s.activeCache? with
    | none =>
      rw [received_inactive hactive]
      exact ⟨rfl, rfl⟩
    | some cache =>
      rcases hsave : cache.save key text s.disk with ⟨e | ⟨schema, saved⟩, disk⟩
      · rw [received_rejected hactive hsave]
        exact ⟨rfl, rfl⟩
      · rw [received_taken hactive hsave]
        exact feed_dropType _ (s.admitted saved disk key)
  | deleted key =>
    change (s.deleted key).settings = _ ∧ (s.deleted key).feed = _
    cases hactive : s.activeCache? with
    | none =>
      rw [deleted_inactive hactive]
      exact ⟨rfl, rfl⟩
    | some cache =>
      rw [deleted_active hactive]
      split <;> exact feed_dropType _ s
  | connected | disconnected cause => exact ⟨rfl, rfl⟩

theorem feed_foldl_handle (signals : List Broker.Signal) (s : Service) :
    (signals.foldl handle s).settings = s.settings ∧ (signals.foldl handle s).feed = s.feed := by
  induction signals generalizing s with
  | nil => exact ⟨rfl, rfl⟩
  | cons signal rest ih =>
    obtain ⟨hsettings, hfeed⟩ := ih (s.handle signal)
    exact ⟨hsettings.trans (feed_handle signal s).1, hfeed.trans (feed_handle signal s).2⟩

theorem feed_scan (s : Service) : s.scan.settings = s.settings ∧ s.scan.feed = s.feed := by
  cases hactive : s.activeCache? with
  | none =>
    rw [scan_inactive hactive]
    exact ⟨rfl, rfl⟩
  | some cache =>
    rw [scan, hactive]
    simp only [foldl_removeType]
    split <;> split <;> exact ⟨rfl, rfl⟩

namespace Wired

variable (h : Wired settings s)
include h

theorem happen {step : Broker.Client Unit → Broker.Client Unit} (hstep : ∀ c, (step c).settings = c.settings) :
    Wired settings (s.happen step) := by
  unfold Service.happen
  cases hfeed : s.feed with
  | none => exact h
  | some feed =>
    have hidle : (feed.happen step).2.Idle settings.broker :=
      Broker.Feed.idle_collect ((hstep feed.client).trans (h.feed feed hfeed).settings)
    obtain ⟨hsettings, hsame⟩ := feed_foldl_handle (feed.happen step).1 { s with feed := some (feed.happen step).2 }
    exact ⟨hsettings.trans h.configured, fun other hother => by cases hsame.symm.trans hother; exact hidle⟩

theorem startFeed (k : Broker.Conditions) : Wired settings (s.startFeed k).2 := by
  unfold Service.startFeed
  cases hcreate : Broker.Feed.create s.settings.broker with
  | error e => exact h
  | ok feed =>
    have hmade : feed.client.settings = settings.broker := by
      rw [← h.configured]
      unfold Broker.Feed.create Broker.Client.create at hcreate
      cases haddress : Broker.Address.parse s.settings.broker.url with
      | error e => rw [haddress] at hcreate; cases hcreate
      | ok address => rw [haddress] at hcreate; cases hcreate; rfl
    have hidle := Broker.Feed.idle_connect k hmade
    simp only
    rcases hconnect : feed.connect k with ⟨result, signals, feed'⟩
    rw [hconnect] at hidle
    obtain ⟨hsettings, hsame⟩ := feed_foldl_handle signals { s with feed := some feed', attached := true }
    have hwired : Wired settings (signals.foldl handle { s with feed := some feed', attached := true }) :=
      ⟨hsettings.trans h.configured, fun other hother => by cases hsame.symm.trans hother; exact hidle⟩
    simp only
    split <;> exact hwired

theorem startWith (k : Broker.Conditions) (cache : SchemaCache) : Wired settings (s.startWith k cache) := by
  have hcached : Wired settings { s with cache := some cache } := h.of_same rfl rfl
  have hscanned : ∀ {t : Service}, Wired settings t →
      Wired settings (({ t with running := true }.syncAll ((t.cache.map SchemaCache.schemas).getD [])).startScanning) := by
    intro t ht
    obtain ⟨scanning, timer, heq⟩ := startScanning_eq ({ t with running := true }.syncAll ((t.cache.map SchemaCache.schemas).getD []))
    rw [heq]
    exact ht.of_same rfl rfl
  unfold Service.startWith
  simp only
  split
  · have hstarted := hcached.startFeed k
    rcases hresult : Service.startFeed k { s with cache := some cache } with ⟨sound, t⟩
    rw [hresult] at hstarted
    simp only
    split
    · exact hscanned hstarted
    · exact hstarted.of_same rfl rfl
  · exact hscanned hcached

theorem start (k : Broker.Conditions) : Wired settings (s.start k) := by
  rcases hprepare : SchemaCache.prepare { directory := cacheDirectory s.settings } s.disk with ⟨e | cache, disk⟩
  · rw [start_unprepared hprepare]
    exact h.of_same rfl rfl
  · rw [start_prepared hprepare]
    exact (h.of_same (t := s.cleared.withDisk disk) rfl rfl).startWith k cache

theorem stop (k : Broker.Conditions) : Wired settings (s.stop k) := by
  unfold Service.stop
  simp only
  split <;> split
  all_goals
    refine ⟨h.configured, fun feed hfeed => ?_⟩
    first
      | exact h.feed feed hfeed
      | obtain ⟨before, hbefore, rfl⟩ := Option.map_eq_some_iff.1 hfeed
        exact (h.feed before hbefore).disconnect k

theorem undergo (incident : Incident) : Wired settings (s.undergo incident) := by
  cases incident with
  | start k => exact h.start k
  | stop k => exact h.stop k
  | scan => exact h.of_same (feed_scan s).1 (feed_scan s).2
  | message topic payload => exact h.happen fun _ => rfl
  | answered code => exact h.happen fun c => c.settings_answered code
  | ended code => exact h.happen fun c => c.settings_ended code
  | edit nodes => exact h.of_same rfl rfl

theorem undergoAll (incidents : List Incident) : Wired settings (s.undergoAll incidents) := by
  induction incidents generalizing s with
  | nil => exact h
  | cons incident rest ih => exact ih (h.undergo incident)

end Wired

theorem wired_build (hbuild : build settings disk = .ok s) : Wired settings s := by
  unfold build at hbuild
  cases hopen : TagProvider.openFolder settings.provider.name (providerFolder settings) disk with
  | error e =>
    rw [providerFolder] at hopen
    simp only [hopen] at hbuild
    cases hbuild
  | ok provider =>
    rw [providerFolder] at hopen
    simp only [hopen] at hbuild
    cases hbuild
    exact ⟨rfl, fun feed hfeed => by cases hfeed⟩

/-! ### Entries of other keys -/

theorem cache_dropType (type : Option String) (s : Service) : (s.dropType type).cache = s.cache := by cases type <;> rfl

/-- A message leaves what is cached under other keys. -/
theorem cached?_take {m : Message} (hother : m.key ≠ other) : (s.take m).cached? other = s.cached? other := by
  cases m with
  | received key text =>
    change (s.received key text).cached? other = _
    cases hactive : s.activeCache? with
    | none => rw [received_inactive hactive]
    | some cache =>
      have hcache := (activeCache?_eq_some_iff.1 hactive).2
      rcases hsave : cache.save key text s.disk with ⟨e | ⟨schema, saved⟩, disk⟩
      · rw [received_rejected hactive hsave]
        rfl
      · have hsaved : ((s.admitted saved disk key).dropType (s.outgrown? cache key schema)).cache = some saved :=
          cache_dropType _ _
        rw [received_taken hactive hsave]
        change ((s.admitted saved disk key).dropType (s.outgrown? cache key schema)).cache.bind (·.entries.get? other) = _
        rw [hsaved, (SchemaCache.save_ok hsave).2.2, cached?, hcache]
        exact (CachedSchemas.get?_insert ..).trans (if_neg hother)
  | deleted key =>
    change (s.deleted key).cached? other = _
    cases hactive : s.activeCache? with
    | none => rw [deleted_inactive hactive]
    | some cache =>
      have hcache := (activeCache?_eq_some_iff.1 hactive).2
      rw [deleted_active hactive]
      rcases hremove : cache.remove key (s.dropType (s.gone? cache (.deleted key))).disk with ⟨e | saved, disk⟩
      · change (s.dropType (s.gone? cache (.deleted key))).cache.bind (·.entries.get? other) = _
        rw [cache_dropType]
        rfl
      · change saved.entries.get? other = _
        rw [(SchemaCache.remove_ok hremove).2, cached?, hcache]
        exact (CachedSchemas.get?_erase ..).trans (if_neg hother)

theorem cached?_handle {signal : Broker.Signal} (hother : ∀ m, messageOf? signal = some m → m.key ≠ other) :
    (s.handle signal).cached? other = s.cached? other := by
  cases signal with
  | received key text => exact cached?_take (m := .received key text) (hother _ rfl)
  | deleted key => exact cached?_take (m := .deleted key) (hother _ rfl)
  | connected | disconnected cause => rfl

/-- A signal of a message is about the key that the topic gives. -/
theorem key_of_signalOf? {filter topic : String} {payload : ByteArray} {signal : Broker.Signal} {m : Message}
    (hsignal : Broker.Feed.signalOf? filter topic payload = some signal) (hm : messageOf? signal = some m) :
    m.key = Broker.Feed.nameOf filter topic := by
  unfold Broker.Feed.signalOf? at hsignal
  split at hsignal
  · cases hsignal
  · simp only at hsignal
    split at hsignal
    · cases hsignal
    · split at hsignal <;> cases hsignal <;> cases hm <;> rfl

theorem cached?_foldl_handle (signals : List Broker.Signal)
    (hother : ∀ signal ∈ signals, ∀ m, messageOf? signal = some m → m.key ≠ other) (s : Service) :
    (signals.foldl handle s).cached? other = s.cached? other := by
  induction signals generalizing s with
  | nil => rfl
  | cons signal rest ih =>
    obtain ⟨hfirst, hrest⟩ := List.forall_mem_cons.1 hother
    exact (ih hrest (s.handle signal)).trans (cached?_handle hfirst)

/-- A message that comes in acts on the key of its topic. -/
theorem Wired.key_of_message (h : Wired settings s) {topic : String} {payload : ByteArray} {feed : Broker.Feed}
    (hfeed : s.feed = some feed) {signal : Broker.Signal} (hsignal : signal ∈ (feed.happen (·.message topic payload)).1)
    {m : Message} (hm : messageOf? signal = some m) : m.key = Broker.Feed.nameOf settings.broker.topic topic :=
  key_of_signalOf? ((h.feed feed hfeed).signals_message hsignal) hm

theorem Wired.cached?_message (h : Wired settings s) {topic : String} (payload : ByteArray)
    (hother : Broker.Feed.nameOf settings.broker.topic topic ≠ other) :
    (s.undergo (.message topic payload)).cached? other = s.cached? other := by
  change (s.happen (·.message topic payload)).cached? other = _
  unfold Service.happen
  cases hfeed : s.feed with
  | none => rfl
  | some feed =>
    refine cached?_foldl_handle _ (fun signal hsignal m hm => ?_) { s with feed := some (feed.happen (·.message topic payload)).2 }
    rw [h.key_of_message hfeed hsignal hm]
    exact hother

/-- The file of a key, as a place. -/
def fileOf (settings : Settings) (disk : Disk) (key : String) : List String :=
  disk.placeOf (cacheDirectory settings) ++ [key ++ ".json"]

/-- A provider that keeps no files at the cache directory or above it has no room for the file of a key. -/
theorem room_apart {d : Disk} (hapart : ¬d.placeOf (providerFolder settings) <+: d.placeOf (cacheDirectory settings)) (key : String) :
    Disk.Room (· ≠ fileOf settings d key) d (providerFolder settings) := by
  intro below hbelow heq
  obtain ⟨above, last, rfl⟩ := (List.eq_nil_or_concat below).resolve_left hbelow
  rw [fileOf, List.concat_eq_append, ← List.append_assoc] at heq
  exact hapart ⟨above, (List.append_inj' heq rfl).1⟩

/-- A service that was built on a disk with proper names for the filter of all levels below a base, in whatever state: two topics below the base give one key if and only if they differ in slashes and underscores only; if they give two, a message on one of them leaves what is cached under the key of the other, and also its file if the provider keeps no files at the cache directory or above it. -/
theorem message_elsewhere (hproper : disk.Proper) (hbuild : build settings disk = .ok s) {base : String} (hbase : IsBase base)
    (hfilter : settings.broker.topic = base ++ "/#") (incidents : List Incident) (rest other : String) (payload : ByteArray) :
    let t := s.undergoAll incidents
    let key := Broker.Feed.nameOf settings.broker.topic (base ++ "/" ++ rest)
    let message := Incident.message (base ++ "/" ++ other) payload
    (key = Broker.Feed.nameOf settings.broker.topic (base ++ "/" ++ other) ↔ flattened rest = flattened other) ∧
    (flattened rest ≠ flattened other →
      (t.undergo message).cached? key = t.cached? key ∧
      (¬disk.placeOf (providerFolder settings) <+: disk.placeOf (cacheDirectory settings) →
        (t.undergo message).disk.content? (fileOf settings disk key) = t.disk.content? (fileOf settings disk key))) := by
  intro t key message
  have hkeys : key = Broker.Feed.nameOf settings.broker.topic (base ++ "/" ++ other) ↔ flattened rest = flattened other := by
    simp only [key, hfilter]
    exact Broker.nameOf_below_eq_iff hbase
  have hwired : Wired settings t := (wired_build hbuild).undergoAll incidents
  refine ⟨hkeys, fun hdiffer => ?_⟩
  have hother : Broker.Feed.nameOf settings.broker.topic (base ++ "/" ++ other) ≠ key := fun heq => hdiffer (hkeys.1 heq.symm)
  refine ⟨hwired.cached?_message payload hother, fun hapart => ?_⟩
  have hbuilt := confined_build hproper hbuild (fun _ => True)
  obtain ⟨hworking, hrun⟩ := hbuilt.undergoAll incidents
  have hsame : ∀ p, t.disk.placeOf p = disk.placeOf p :=
    Disk.placeOf_congr (hworking.trans hbuilt.depot.spares.workingDirectory)
  rw [← hsame, ← hsame] at hapart
  have hfile : fileOf settings disk key = fileOf settings t.disk key := by rw [fileOf, fileOf, hsame]
  have hmessage := (hrun.renew (· ≠ fileOf settings t.disk key)).happen (room_apart hapart key)
    (·.message (base ++ "/" ++ other) payload) fun feed hfeed signal hsignal m hm _ => by
      -- the file of another key is another file
      intro heq
      rw [hwired.key_of_message hfeed hsignal hm, fileOf] at heq
      exact hother (String.append_left_inj _ |>.1 (List.singleton_inj.1 (List.append_cancel_left heq)))
  rw [hfile]
  exact hmessage.depot.spares.content _ (by simp)

/-- A message with a title comes in on a topic below the base of the default filter. -/
def titledOn (rest title : String) : Incident := .message ("ignition/schemas" ++ "/" ++ rest) (titled title).toUTF8

theorem isBase_default : IsBase "ignition/schemas" := by
  have hplain : "ignition/schemas".toList.all (fun c => c ≠ '#' && c ≠ '+') = true := by decide
  exact ⟨by decide, fun c hc => by simpa using List.all_eq_true.1 hplain c hc⟩

/-- A schema that came on one topic is still cached and in its file after a message on another. -/
theorem message_elsewhere_levels :
    (((builtEmpty.undergoAll [.start {}, titledOn "a/b" "A"]).undergo (titledOn "a/c" "C")).cached? "a_b").map CachedSchema.text =
        some (titled "A") ∧
      ((builtEmpty.undergoAll [.start {}, titledOn "a/b" "A"]).undergo (titledOn "a/c" "C")).disk.content?
        (fileOf {} {} "a_b") = some (titled "A").toUTF8 := by
  have hproper : Disk.Proper {} := fun place hplace => by cases hplace
  obtain ⟨-, hspared⟩ := message_elsewhere hproper (rfl : build {} {} = .ok builtEmpty) isBase_default rfl
    [.start {}, titledOn "a/b" "A"] "a/b" "a/c" (titled "C").toUTF8
  obtain ⟨hcached, hfile⟩ := hspared (by decide)
  constructor
  · exact (congrArg (Option.map CachedSchema.text) hcached).trans (by decide +kernel)
  · exact (hfile (by decide +kernel)).trans (by decide +kernel)

/-- With the cache in the folder of types, the files of definitions are files of keys. -/
def overlapping : Settings := { cache := { path := "tag-providers/default/_types_" } }

def builtOverlapping : Service := (build overlapping {}).toOption.getD ofMemory

/-- The topics `a/b` and `a_b` give one key, so that a schema that came on the first is replaced, in the cache and in its file, by one that comes on the second. Where definitions are kept in the cache directory, the file of a schema is also replaced by the definition of a type of that name, which comes on a topic of another key. -/
theorem not_spared_joined :
    (((builtEmpty.undergoAll [.start {}, titledOn "a/b" "A"]).cached? "a_b").map CachedSchema.text = some (titled "A") ∧
      (builtEmpty.undergoAll [.start {}, titledOn "a/b" "A"]).disk.content? (fileOf {} {} "a_b") = some (titled "A").toUTF8 ∧
      (((builtEmpty.undergoAll [.start {}, titledOn "a/b" "A"]).undergo (titledOn "a_b" "B")).cached? "a_b").map
        CachedSchema.text = some (titled "B") ∧
      ((builtEmpty.undergoAll [.start {}, titledOn "a/b" "A"]).undergo (titledOn "a_b" "B")).disk.content?
        (fileOf {} {} "a_b") = some (titled "B").toUTF8) ∧
    (builtOverlapping.undergoAll [.start {}, titledOn "a" "A"]).disk.content? (fileOf overlapping {} "a") =
      some (titled "A").toUTF8 ∧
    ((builtOverlapping.undergoAll [.start {}, titledOn "a" "A"]).undergo (titledOn "b" "a")).disk.content?
      (fileOf overlapping {} "a") ≠ some (titled "A").toUTF8 := by
  decide +kernel

end Service

end TagTypes
