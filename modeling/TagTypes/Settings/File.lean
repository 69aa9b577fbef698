import TagTypes.Settings.Reader
import TagTypes.Yaml.Library

/-!
# Settings files

Settings are loaded from a file and saved to it, with some library for such files. Where there is no file, loading saves the default settings, so that there is one to edit. A file that cannot be read or is malformed counts as one with no settings in it; every other fault of the library is an error, when a file is loaded and when it is saved.
-/

namespace TagTypes

namespace BrokerSettings

def entries (s : BrokerSettings) : List (String × Yaml.Entry) := [
  ("enabled", .bool s.enabled),
  ("broker_url", .text s.url),
  ("client_id", .text s.clientId),
  ("topic", .text s.topic),
  ("username", .text s.username),
  ("password", .text s.password),
  ("qos", .int s.qos),
  ("clean_session", .bool s.cleanSession),
  ("connection_timeout_sec", .int s.connectionTimeout),
  ("keepalive_sec", .int s.keepAlive),
  ("automatic_reconnect", .bool s.automaticReconnect),
  ("reconnect_max_delay_sec", .int s.reconnectMaxDelay),
  ("tls_ca_cert", .text s.caCertificate),
  ("tls_client_cert", .text s.clientCertificate),
  ("tls_client_key", .text s.clientKey)]

end BrokerSettings

namespace CacheSettings

def entries (s : CacheSettings) : List (String × Yaml.Entry) := [
  ("path", .text s.path),
  ("scan_interval_sec", .int s.scanInterval)]

end CacheSettings

namespace ProviderSettings

def entries (s : ProviderSettings) : List (String × Yaml.Entry) := [
  ("name", .text s.name),
  ("allow_delete", .bool s.allowDelete),
  ("storage_path", .text s.storagePath)]

end ProviderSettings

namespace Settings

/-- The entries that a settings file gets. -/
def entries (s : Settings) : List (String × Yaml.Entry) := [
  ("data_dir", .text s.dataDirectory),
  ("mqtt", .group s.broker.entries),
  ("schema_cache", .group s.cache.entries),
  ("tag_provider", .group s.provider.entries)]

/-- All that a settings file holds. -/
def fileEntries (s : Settings) : List (String × Yaml.Entry) := [(sectionName, .group s.entries)]

/-- The line above the entries. -/
def comment : String := "# Schema Tag Provider configuration\n"

inductive FileError where
  | disk (fault : DiskFault)
  | yaml (fault : Yaml.Fault)
  | value (fault : ReadFault)
  deriving Repr

/-- The settings in a file with these bytes; a malformed one has none. -/
def ofBytes (yaml : Yaml.Library) (content : ByteArray) : Except FileError Settings :=
  match yaml.load content with
  | .ok v => (ofValue v).mapError .value
  | .error .malformed => .ok {}
  | .error fault => .error (.yaml fault)

/-- Save settings. Failures of the disk go unnoticed; a path that is none and a fault of the library do not. What the library wrote until then stays in the file. -/
def save (yaml : Yaml.Library) (path : FilePath) (s : Settings) (disk : Disk) : Except FileError Unit × Disk :=
  let (written, fault) := yaml.dump s.fileEntries
  let action : DiskAction Unit := do
    Disk.ensureDirectories path.parent
    Disk.writeText path (comment ++ written)
  match action disk with
  | (.error .embeddedNull, disk) => (.error (.disk .embeddedNull), disk)
  | (.error _, disk) => (.ok (), disk)
  | (.ok _, disk) => (fault.elim (.ok ()) fun fault => .error (.yaml fault), disk)

/-- Read the settings of a file that is there. -/
def read (yaml : Yaml.Library) (path : FilePath) (disk : Disk) : Except FileError Settings :=
  match disk.readFile path with
  | .ok content => ofBytes yaml content
  | .error _ => .ok {}

/-- Load settings. A path that leads nowhere gets a file with the default settings. -/
def load (yaml : Yaml.Library) (path : FilePath) (disk : Disk) : Except FileError Settings × Disk :=
  match disk.status path with
  | .ok _ => (read yaml path disk, disk)
  | .error .nameTooLong => (.error (.disk .nameTooLong), disk)
  | .error _ =>
    let (result, disk) := save yaml path {} disk
    (result.map fun _ => {}, disk)

end Settings

end TagTypes
