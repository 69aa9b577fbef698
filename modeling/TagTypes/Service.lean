import TagTypes.Broker.Feed
import TagTypes.Depot
import TagTypes.SchemaCache

/-!
# The service

The service puts the parts together: a schema that the feed signals goes to the cache and from there to the registry of types; a schema that is deleted leaves both. From time to time the service scans the cache directory for changes made by others. A type that is given up, because its schema is gone or has another name now, is removed only if the settings allow it.

Signals and scans count while the service runs and has a cache. Starting never fails: a service that could not start all its parts runs with the others.
-/

namespace TagTypes

inductive TimerCall where
  | schedule (initial delay : Int)
  | cancel
  deriving DecidableEq, Repr, Inhabited

/-- A service. `feed` is the feed made last; it is `attached` until the service is shut down. -/
structure Service where
  settings : Settings
  registry : Registry Depot
  hasSource : Bool := true
  arrange : List Schema → Option (List Schema) := fun schemas => some (Dependency.order schemas)
  running : Bool := false
  cache : Option SchemaCache := none
  feed : Option Broker.Feed := none
  attached : Bool := false
  scanning : Bool := false
  timer : List TimerCall := []

namespace Service

def access (s : Service) : Access Depot := Depot.access s.settings.provider.name s.arrange

def disk (s : Service) : Disk := s.registry.tags.disk

def withDisk (s : Service) (disk : Disk) : Service :=
  { s with registry := { s.registry with tags := { s.registry.tags with disk } } }

def tell (s : Service) (e : Event) : Service := { s with registry := s.registry.tell e }

def allowDelete (s : Service) : Bool := s.settings.provider.allowDelete

/-- The cache of a service that handles signals. -/
def activeCache? (s : Service) : Option SchemaCache := if s.running then s.cache else none

def isConnected (s : Service) : Bool := s.attached && s.feed.any Broker.Feed.isConnected

def syncType (schema : Schema) (s : Service) : Service :=
  { s with registry := (s.registry.sync s.access schema).2 }

def removeType (type : String) (s : Service) : Service :=
  { s with registry := (s.registry.remove s.access type).2 }

def syncAll (schemas : List Schema) (s : Service) : Service :=
  { s with registry := (s.registry.syncAll s.access schemas).2 }

/-- What is said about a text that the cache did not take. -/
def rejection : CacheError → String
  | .refused error => error.cause.message
  | error => error.message

/-- Handle a text for a key. What the cache says about a text that it did not take is told, but that a text has no bytes makes the call itself fail. -/
def receive (key text : String) (strike : Option Disk.Strike) (s : Service) : Except CacheError Unit × Service :=
  match s.activeCache? with
  | none => (.ok (), s)
  | some cache =>
    match cache.save key text s.disk strike with
    | (.error .unencodable, disk) => (.error .unencodable, s.withDisk disk)
    | (.error e, disk) => (.ok (), (s.withDisk disk).tell (.schemaRejected key (rejection e)))
    | (.ok (schema, saved), disk) =>
      let s := ({ s with cache := some saved }.withDisk disk).tell (.schemaReceived key)
      let s :=
        match cache.schema? key with
        | some previous => if previous.name ≠ schema.name && s.allowDelete then s.removeType previous.name else s
        | none => s
      (.ok (), s.syncType schema)

/-- Handle a text for a key, with no write that is struck. -/
def received (key text : String) (s : Service) : Service := (s.receive key text none).2

def deleted (key : String) (s : Service) : Service :=
  match s.activeCache? with
  | none => s
  | some cache =>
    let type := ((cache.schema? key).map Schema.name).getD key
    let s := if s.allowDelete then s.removeType type else s
    match cache.remove key s.disk with
    | (.error _, disk) => s.withDisk disk
    | (.ok cache, disk) => ({ s with cache := some cache }.withDisk disk).tell (.schemaDeleted key)

/-- The type that a changed key has given up, if any. -/
def staleType? (old new : SchemaCache) (changes : CacheChanges) (key : String) : Option String :=
  if changes.deleted.contains key then some (((old.schema? key).map Schema.name).getD key)
  else
    match old.schema? key, new.schema? key with
    | some before, some after => if before.name ≠ "" && before.name ≠ after.name then some before.name else none
    | _, _ => none

/-- The types that changed keys have given up, by key. -/
def staleTypes (old new : SchemaCache) (changes : CacheChanges) : List String :=
  (Text.sorted (changes.deleted ++ changes.updated)).filterMap (staleType? old new changes)

/-- The keys of schemas to synchronize: new and changed ones, and those whose types are not registered. -/
def pendingKeys (registry : Registry Depot) (cache : SchemaCache) (changes : CacheChanges) : List String :=
  Text.sortedSet (changes.added ++ changes.updated ++
    cache.keys.filter fun key => (cache.schema? key).any fun schema => !registry.isRegistered schema.name)

def scan (s : Service) : Service :=
  match s.activeCache? with
  | none => s
  | some old =>
    let (changes, new) := old.reload s.disk
    let s := { s with cache := some new }
    let s := if s.allowDelete then (staleTypes old new changes).foldl (fun s type => s.removeType type) s else s
    match pendingKeys s.registry new changes with
    | [] => s
    | pending => s.syncAll (pending.filterMap new.schema?)

def handle (s : Service) : Broker.Signal → Service
  | .received name text => s.received name text
  | .deleted name => s.deleted name
  | .connected => s.tell (.connectionChanged true "")
  | .disconnected cause => s.tell (.connectionChanged false cause)

/-- Make a new feed and connect it; `false` if the connection broke down in an unforeseen way. A broker that is not reached, or has no proper address, is no hindrance. -/
def startFeed (k : Broker.Conditions) (s : Service) : Bool × Service :=
  match Broker.Feed.create s.settings.broker with
  | .error _ => (true, s)
  | .ok feed =>
    let (result, signals, feed) := feed.connect k
    let s := signals.foldl handle { s with feed := some feed, attached := true }
    match result with
    | .error (.breakdown _) => (false, s)
    | _ => (true, s)

def startScanning (s : Service) : Service :=
  let interval := s.settings.cache.scanInterval
  if interval ≤ 0 then s else { s with scanning := true, timer := s.timer ++ [.schedule interval interval] }

def cacheDirectory (settings : Settings) : FilePath := resolvePath settings.dataDirectory settings.cache.path

/-- Connect the feed if there is one, and synchronize what is in the cache. -/
def startWith (k : Broker.Conditions) (cache : SchemaCache) (s : Service) : Service :=
  let s := { s with cache := some cache }
  let (sound, s) := if s.settings.broker.enabled && s.hasSource then s.startFeed k else (true, s)
  let s := { s with running := true }
  if sound then (s.syncAll ((s.cache.map SchemaCache.schemas).getD [])).startScanning else s

/-- Start the service with an empty registry. -/
def start (k : Broker.Conditions) (s : Service) : Service :=
  let s := { s with registry := { s.registry with registered := [] } }
  match SchemaCache.prepare { directory := cacheDirectory s.settings } s.disk with
  | (.error _, disk) => { s.withDisk disk with running := true }
  | (.ok cache, disk) => (s.withDisk disk).startWith k cache

def stop (k : Broker.Conditions) (s : Service) : Service :=
  let s := { s with running := false }
  let s := if s.scanning then { s with scanning := false, timer := s.timer ++ [.cancel] } else s
  if s.attached then { s with attached := false, feed := s.feed.map (Broker.Feed.disconnect k) } else s

def happen (step : Broker.Client Unit → Broker.Client Unit) (s : Service) : Service :=
  match s.feed with
  | none => s
  | some feed =>
    let (signals, feed) := feed.happen step
    signals.foldl handle { s with feed := some feed }

/-- A service whose one provider keeps its definitions in a folder of the storage directory. -/
def build (settings : Settings) (disk : Disk) : Except ProviderError Service := do
  let root := resolvePath settings.dataDirectory settings.provider.storagePath
  let provider ← TagProvider.openFolder settings.provider.name
    (root.join (FilePath.parse settings.provider.name)) disk
  return { settings, registry := { tags := ({ disk } : Depot).add (.keeping provider) } }

end Service

end TagTypes
