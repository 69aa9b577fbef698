import Mathlib.Tactic
import TagTypes.Proofs.Service.Effect
import TagTypes.Proofs.Service.Startup
import TagTypes.Proofs.TagStore.Confinement

/-!
# Services that stay in their folders

A service changes files in two places: the files of valid keys directly in the cache directory, and files below the folder of its provider. Keys come from the topics of messages, types from titles and property names, and the paths of definitions from either of these and from the files that were there at first; none of them makes another file change.
-/

namespace TagTypes

variable {allowed : List String → Prop} {root directory : FilePath} {d disk : Disk}

namespace SchemaCache

variable {c : SchemaCache} {key : String}

/-- The file of the key may be changed, if the key is valid. -/
def Admits (allowed : List String → Prop) (directory : FilePath) (d : Disk) (key : String) : Prop :=
  isValidKey key = true → allowed (d.placeOf directory ++ [key ++ ".json"])

theorem spares_save (hkey : Admits allowed c.directory d key) (text : String) : Disk.Spares allowed d (c.save key text d).2 := by
  rcases hsave : c.save key text d with ⟨e | ⟨schema, saved⟩, d'⟩
  · obtain rfl : d' = d := save_disk hsave
    exact Disk.Spares.refl allowed d'
  · obtain ⟨place, hchanged⟩ := save_disk hsave
    exact hchanged.spares (hkey (save_ok hsave).1)

theorem spares_remove (hkey : Admits allowed c.directory d key) : Disk.Spares allowed d (c.remove key d).2 := by
  rcases hremove : c.remove key d with ⟨e | saved, d'⟩
  · obtain rfl : d' = d := remove_disk hremove
    exact Disk.Spares.refl allowed d'
  · rcases remove_disk hremove with ⟨place, hchanged⟩ | ⟨rfl, -⟩
    · exact hchanged.spares (hkey (remove_ok hremove).1)
    · exact Disk.Spares.refl allowed d'

theorem directory_save {text : String} {schema : Schema} {saved : SchemaCache} {d' : Disk}
    (hsave : c.save key text d = (.ok (schema, saved), d')) : saved.directory = c.directory := by rw [(save_ok hsave).2.2]

theorem directory_remove {saved : SchemaCache} {d' : Disk} (hremove : c.remove key d = (.ok saved, d')) :
    saved.directory = c.directory := by rw [(remove_ok hremove).2]

end SchemaCache

namespace Service

open SchemaCache (Admits)

/-- The providers of the service are housed at `root` and its cache in `directory`, and since `d` files were changed at allowed places only. -/
structure Confined (allowed : List String → Prop) (root directory : FilePath) (d : Disk) (s : Service) : Prop where
  depot : s.registry.tags.Stays allowed root d
  configured : cacheDirectory s.settings = directory
  cache : ∀ cache, s.cache = some cache → cache.directory = directory

variable {s : Service} {key : String}

namespace Confined

/-! ### Parts of a step -/

section Parts

variable (h : Confined allowed root directory d s)
include h

theorem withDisk (hspares : Disk.Spares allowed s.disk disk) : Confined allowed root directory d (s.withDisk disk) :=
  ⟨h.depot.withDisk hspares, h.configured, h.cache⟩

theorem tell (e : Event) : Confined allowed root directory d (s.tell e) := ⟨h.depot, h.configured, h.cache⟩

theorem withCache {cache : SchemaCache} (hcache : cache.directory = directory) :
    Confined allowed root directory d { s with cache := some cache } :=
  ⟨h.depot, h.configured, fun _ heq => by cases heq; exact hcache⟩

/-- What is neither settings, cache nor registry does not count. -/
theorem withParts (running : Bool) (feed : Option Broker.Feed) (attached scanning : Bool) (timer : List TimerCall) :
    Confined allowed root directory d { s with running, feed, attached, scanning, timer } := ⟨h.depot, h.configured, h.cache⟩

theorem cleared : Confined allowed root directory d s.cleared := ⟨h.depot, h.configured, h.cache⟩

theorem admits (hkey : Admits allowed directory d key) : Admits allowed directory s.disk key := by
  intro hvalid
  have hplace : s.disk.placeOf directory = d.placeOf directory := h.depot.spares.placeOf directory
  rw [hplace]
  exact hkey hvalid

variable (hroom : Disk.Room allowed d root)
include hroom

theorem syncType (schema : Schema) : Confined allowed root directory d (s.syncType schema) :=
  ⟨Registry.sync_keeps (Depot.keeps_access hroom _ _) h.depot schema, h.configured, h.cache⟩

theorem syncAll (schemas : List Schema) : Confined allowed root directory d (s.syncAll schemas) :=
  ⟨Registry.syncAll_keeps (Depot.keeps_access hroom _ _) h.depot schemas, h.configured, h.cache⟩

theorem removeType (type : String) : Confined allowed root directory d (s.removeType type) :=
  ⟨Registry.remove_keeps (Depot.keeps_access hroom _ _) h.depot type, h.configured, h.cache⟩

theorem dropType (type : Option String) : Confined allowed root directory d (s.dropType type) := by
  cases type with
  | none => exact h
  | some type => exact h.removeType hroom type

/-! ### Steps -/

theorem received (hkey : Admits allowed directory d key) (text : String) :
    Confined allowed root directory d (s.received key text) := by
  cases hactive : s.activeCache? with
  | none =>
    rw [received_inactive hactive]
    exact h
  | some cache =>
    have hcache : cache.directory = directory := h.cache cache (activeCache?_eq_some_iff.1 hactive).2
    have hspares := SchemaCache.spares_save (hcache ▸ h.admits hkey) text
    rcases hsave : cache.save key text s.disk with ⟨e | ⟨schema, saved⟩, disk⟩
    · rw [hsave] at hspares
      rw [received_rejected hactive hsave]
      exact (h.withDisk hspares).tell _
    · rw [hsave] at hspares
      have hsaved : saved.directory = directory := (SchemaCache.directory_save hsave).trans hcache
      have hadmitted : Confined allowed root directory d (s.admitted saved disk key) :=
        ((h.withCache hsaved).withDisk hspares).tell _
      rw [received_taken hactive hsave]
      exact (hadmitted.dropType hroom _).syncType hroom schema

theorem deleted (hkey : Admits allowed directory d key) : Confined allowed root directory d (s.deleted key) := by
  cases hactive : s.activeCache? with
  | none =>
    rw [deleted_inactive hactive]
    exact h
  | some cache =>
    have hcache : cache.directory = directory := h.cache cache (activeCache?_eq_some_iff.1 hactive).2
    have hdropped := h.dropType hroom (s.gone? cache (.deleted key))
    have hspares := SchemaCache.spares_remove (hcache ▸ hdropped.admits hkey)
    rw [deleted_active hactive]
    rcases hremove : cache.remove key (s.dropType (s.gone? cache (.deleted key))).disk with ⟨e | saved, disk⟩
    · rw [hremove] at hspares
      exact hdropped.withDisk hspares
    · rw [hremove] at hspares
      have hsaved : saved.directory = directory := (SchemaCache.directory_remove hremove).trans hcache
      exact ((hdropped.withCache hsaved).withDisk hspares).tell _

/-- A scan changes no file in the cache directory. -/
theorem scan : Confined allowed root directory d s.scan := by
  cases hactive : s.activeCache? with
  | none =>
    rw [scan_inactive hactive]
    exact h
  | some cache =>
    have hcache : cache.directory = directory := h.cache cache (activeCache?_eq_some_iff.1 hactive).2
    have hreloaded : Confined allowed root directory d { s with cache := some (cache.reload s.disk).2 } := h.withCache hcache
    have hremoved : ∀ (types : List String) {t : Service}, Confined allowed root directory d t →
        Confined allowed root directory d (types.foldl (fun t type => t.removeType type) t) := by
      intro types
      induction types with
      | nil => exact fun ht => ht
      | cons type rest ih => exact fun ht => ih (ht.removeType hroom type)
    have hcleaned : Confined allowed root directory d
        (if { s with cache := some (cache.reload s.disk).2 }.allowDelete then
          (staleTypes cache (cache.reload s.disk).2 (cache.reload s.disk).1).foldl (fun t type => t.removeType type)
            { s with cache := some (cache.reload s.disk).2 }
        else { s with cache := some (cache.reload s.disk).2 }) := by
      split
      · exact hremoved _ hreloaded
      · exact hreloaded
    rw [Service.scan, hactive]
    simp only
    split
    · exact hcleaned
    · exact hcleaned.syncAll hroom _

theorem handle {signal : Broker.Signal} (hkey : ∀ m, messageOf? signal = some m → Admits allowed directory d m.key) :
    Confined allowed root directory d (s.handle signal) := by
  cases signal with
  | received name text => exact h.received hroom (hkey _ rfl) text
  | deleted name => exact h.deleted hroom (hkey _ rfl)
  | connected | disconnected cause => exact h.tell _

theorem happen (step : Broker.Client Unit → Broker.Client Unit)
    (hkeys : ∀ feed, s.feed = some feed → ∀ signal ∈ (feed.happen step).1, ∀ m, messageOf? signal = some m →
      Admits allowed directory d m.key) : Confined allowed root directory d (s.happen step) := by
  unfold Service.happen
  cases hfeed : s.feed with
  | none => exact h
  | some feed =>
    have hkept : Confined allowed root directory d { s with feed := some (feed.happen step).2 } :=
      h.withParts s.running _ s.attached s.scanning s.timer
    apply List.foldlRecOn (feed.happen step).1 Service.handle hkept
    exact fun t ht signal hsignal => ht.handle hroom (hkeys feed hfeed signal hsignal)

theorem startWith (hkeys : ∀ key, Admits allowed directory d key) (k : Broker.Conditions) {cache : SchemaCache}
    (hcache : cache.directory = directory) : Confined allowed root directory d (s.startWith k cache) := by
  apply startWith_induction (P := Confined allowed root directory d) (Q := Confined allowed root directory d)
  · exact fun t feed attached ht => ht.withParts t.running feed attached t.scanning t.timer
  · exact fun signal _ t ht => ht.handle hroom fun m _ => hkeys m.key
  · exact fun t ht => ht.withParts true t.feed t.attached t.scanning t.timer
  · exact fun t ht => ht.syncAll hroom _
  · exact fun t scanning timer ht => ht.withParts t.running t.feed t.attached scanning timer
  · exact h.withCache hcache

theorem start (hkeys : ∀ key, Admits allowed directory d key) (k : Broker.Conditions) :
    Confined allowed root directory d (s.start k) := by
  rcases hprepare : SchemaCache.prepare { directory := cacheDirectory s.settings } s.disk with ⟨e | cache, disk⟩
  · have hspares : Disk.Spares allowed s.disk disk := (SchemaCache.prepare_disk hprepare).1.spares
    rw [start_unprepared hprepare]
    exact (h.cleared.withDisk hspares).withParts true s.feed s.attached s.scanning s.timer
  · have hspares : Disk.Spares allowed s.disk disk := (SchemaCache.prepare_disk hprepare).1.spares
    rw [start_prepared hprepare, SchemaCache.prepare_ok hprepare]
    exact (h.cleared.withDisk hspares).startWith hroom hkeys k h.configured

omit hroom in
theorem stop (k : Broker.Conditions) : Confined allowed root directory d (s.stop k) := by
  obtain ⟨feed, attached, scanning, timer, hstop⟩ := stop_eq k s
  rw [hstop]
  exact h.withParts false feed attached scanning timer

end Parts

end Confined

/-! ### Runs -/

/-- What may happen to a service: it is started, stopped or scans; on the network a message comes in, or a connection is answered or ends; and others change what is on the disk. -/
inductive Incident where
  | start (k : Broker.Conditions)
  | stop (k : Broker.Conditions)
  | scan
  | message (topic : String) (payload : ByteArray)
  | answered (code : Int)
  | ended (code : Int)
  | edit (nodes : Dict (List String) DiskNode)

/-- The incident is not of the service's making. -/
def Incident.isEdit : Incident → Bool
  | .edit _ => true
  | _ => false

def undergo (s : Service) : Incident → Service
  | .start k => s.start k
  | .stop k => s.stop k
  | .scan => s.scan
  | .message topic payload => s.happen fun c => c.message topic payload
  | .answered code => s.happen fun c => c.answered code
  | .ended code => s.happen fun c => c.ended code
  | .edit nodes => s.withDisk { s.disk with nodes }

def undergoAll (s : Service) (incidents : List Incident) : Service := incidents.foldl undergo s

/-- The folder in which the provider of the settings keeps its definitions. -/
def providerFolder (settings : Settings) : FilePath :=
  (resolvePath settings.dataDirectory settings.provider.storagePath).join (FilePath.parse settings.provider.name)

/-- The places where a service of these settings may change files. -/
def Own (settings : Settings) (d : Disk) (place : List String) : Prop :=
  (∃ key, SchemaCache.isValidKey key = true ∧ place = d.placeOf (cacheDirectory settings) ++ [key ++ ".json"]) ∨
    ∃ below, below ≠ [] ∧ place = d.placeOf (providerFolder settings) ++ below

variable {settings : Settings} {t : Service}

theorem room_own (settings : Settings) (d : Disk) : Disk.Room (Own settings d) d (providerFolder settings) :=
  fun below hbelow => Or.inr ⟨below, hbelow, rfl⟩

theorem admits_own (settings : Settings) (d : Disk) (key : String) : Admits (Own settings d) (cacheDirectory settings) d key :=
  fun hvalid => Or.inl ⟨key, hvalid, rfl⟩

/-- What was changed before does not count. -/
theorem Confined.renew (h : Confined allowed root directory d s) (others : List String → Prop) :
    Confined others root directory s.disk s := ⟨⟨h.depot.housed, Disk.Spares.refl others s.disk⟩, h.configured, h.cache⟩

/-- A new service is confined to its folders. -/
theorem confined_build (hproper : disk.Proper) (hbuild : build settings disk = .ok s) (allowed : List String → Prop) :
    Confined allowed (providerFolder settings) (cacheDirectory settings) disk s := by
  unfold build at hbuild
  cases hopen : TagProvider.openFolder settings.provider.name (providerFolder settings) disk with
  | error e =>
    rw [providerFolder] at hopen
    simp only [hopen] at hbuild
    cases hbuild
  | ok provider =>
    have hhoused := TagProvider.housed_openFolder hproper hopen
    rw [providerFolder] at hopen
    simp only [hopen] at hbuild
    cases hbuild
    refine ⟨⟨fun p hp => ?_, Disk.Spares.refl allowed disk⟩, rfl, fun cache hcache => by cases hcache⟩
    rw [List.mem_singleton.1 hp]
    exact hhoused

/-- What happens to a service makes it change its own files at most. -/
theorem Confined.undergo (h : Confined allowed (providerFolder settings) (cacheDirectory settings) d t) {incident : Incident}
    (hown : incident.isEdit = false) :
    Confined (Own settings t.disk) (providerFolder settings) (cacheDirectory settings) t.disk (t.undergo incident) := by
  have hself := h.renew (Own settings t.disk)
  have hroom := room_own settings t.disk
  have hkeys := admits_own settings t.disk
  cases incident with
  | start k => exact hself.start hroom hkeys k
  | stop k => exact hself.stop k
  | scan => exact hself.scan hroom
  | message topic payload => exact hself.happen hroom (·.message topic payload) fun _ _ _ _ m _ => hkeys m.key
  | answered code => exact hself.happen hroom (·.answered code) fun _ _ _ _ m _ => hkeys m.key
  | ended code => exact hself.happen hroom (·.ended code) fun _ _ _ _ m _ => hkeys m.key
  | edit nodes => cases hown

theorem Confined.undergoAll (h : Confined allowed (providerFolder settings) (cacheDirectory settings) d t)
    (incidents : List Incident) :
    (t.undergoAll incidents).disk.workingDirectory = t.disk.workingDirectory ∧
      Confined allowed (providerFolder settings) (cacheDirectory settings) (t.undergoAll incidents).disk
        (t.undergoAll incidents) := by
  induction incidents generalizing t d with
  | nil => exact ⟨rfl, h.renew allowed⟩
  | cons incident rest ih =>
    cases hedit : incident.isEdit with
    | false =>
      have hnext := h.undergo hedit
      obtain ⟨hworking, hrest⟩ := ih (hnext.renew allowed)
      exact ⟨hworking.trans hnext.depot.spares.workingDirectory, hrest⟩
    | true =>
      cases incident with
      | edit nodes =>
        have hedited : Confined allowed (providerFolder settings) (cacheDirectory settings) { t.disk with nodes }
            (t.undergo (.edit nodes)) := ⟨⟨h.depot.housed, Disk.Spares.refl allowed _⟩, h.configured, h.cache⟩
        exact ih hedited
      | _ => cases hedit

/-- Whatever happens to a service that was built on a disk with proper names, in whatever order, and whatever others do to the disk meanwhile: a file that the service makes, changes or removes is the file of a valid key, directly in the cache directory, or a file below the folder of its provider. -/
theorem own_of_changed (hproper : disk.Proper) (hbuild : build settings disk = .ok s) (incidents : List Incident)
    (incident : Incident) (hown : incident.isEdit = false) (place : List String)
    (hchanged : ((s.undergoAll incidents).undergo incident).disk.content? place ≠ (s.undergoAll incidents).disk.content? place) :
    (∃ key, SchemaCache.isValidKey key = true ∧ place = disk.placeOf (cacheDirectory settings) ++ [key ++ ".json"]) ∨
      ∃ below, below ≠ [] ∧ place = disk.placeOf (providerFolder settings) ++ below := by
  have hbuilt := confined_build hproper hbuild (fun _ => True)
  obtain ⟨hworking, hrun⟩ := hbuilt.undergoAll incidents
  have hsame : (s.undergoAll incidents).disk.workingDirectory = disk.workingDirectory :=
    hworking.trans hbuilt.depot.spares.workingDirectory
  by_contra hforeign
  refine hchanged ((hrun.undergo hown).depot.spares.content place ?_)
  rw [Own, Disk.placeOf_congr hsame, Disk.placeOf_congr hsame]
  exact hforeign

/-- A service that was built on an empty disk. -/
def builtEmpty : Service := (build {} {}).toOption.getD ofMemory

/-- A topic and a title that would lead up if they were taken for paths. -/
def leadingUp : Incident := .message "ignition/schemas/../../a" (titled "..").toUTF8

/-- Both lead to files in the folders of the service. -/
theorem own_of_changed_leadingUp :
    ((builtEmpty.undergoAll [.start {}]).undergo leadingUp).disk.content?
        ["modules", "schema-tag-provider", "schemas", ".._.._a.json"] ≠ none ∧
    ((builtEmpty.undergoAll [.start {}]).undergo leadingUp).disk.content?
        ["tag-providers", "default", "_types_", "...json"] ≠ none ∧
    ∀ place, ((builtEmpty.undergoAll [.start {}]).undergo leadingUp).disk.content? place ≠
        (builtEmpty.undergoAll [.start {}]).disk.content? place →
      (∃ key, SchemaCache.isValidKey key = true ∧
        place = (Disk.placeOf {} (cacheDirectory {})) ++ [key ++ ".json"]) ∨
        ∃ below, below ≠ [] ∧ place = (Disk.placeOf {} (providerFolder {})) ++ below := by
  have hbuild : build {} {} = .ok builtEmpty := by rfl
  have hproper : Disk.Proper {} := fun place hplace => by cases hplace
  refine ⟨by decide +kernel, by decide +kernel, fun place hchanged => ?_⟩
  exact own_of_changed hproper hbuild [.start {}] leadingUp rfl place hchanged

end Service

end TagTypes
