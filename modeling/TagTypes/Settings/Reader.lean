import TagTypes.Settings.Basic
import TagTypes.Text.Lower
import TagTypes.Yaml.Value

/-!
# Reading settings from values

Settings stand in a map under the name `sectionName`, or directly in the root if that name is not there. Whatever is missing, null or of no use for its setting leaves the setting as it is by default. Two things cannot be passed over: an infinite number where a whole one is wanted, and a value that is nested too deep to be shown, since a value is shown where it is taken for a text and where it is turned down.
-/

namespace TagTypes

namespace Settings

open Yaml (Value)

def sectionName : String := "schema_tag_provider"

abbrev Fields := List (Value × Value)

/-- An infinite number stands where a whole one is wanted, or a value is nested too deep to be shown. -/
inductive ReadFault where
  | infinite
  | tooDeep
  deriving DecidableEq, Repr

def ReadFault.message : ReadFault → String
  | .infinite => "cannot convert float infinity to integer"
  | .tooDeep => "maximum recursion depth exceeded"

/-- The value of a setting; null counts as none. -/
def value? (fields : Fields) (name : String) : Option Value :=
  match Value.lookup name fields with
  | some .null => none
  | v => v

/-- The fields of a map; other values have none. -/
def fieldsOf : Value → Fields
  | .map entries => entries
  | _ => []

/-- The fields of a section inside `root`. -/
def sectionFields (root : Value) (fields : Fields) (name : String) : Fields :=
  ((Value.lookup name fields).map fun v => fieldsOf (root.opened v)).getD []

/-- Whether a value inside `root` is nested too deep to be shown. -/
def isTooDeep (root v : Value) : Bool :=
  match root.literal v with
  | .error .tooDeep => true
  | _ => false

/-- What `convert` makes of the value of a setting; the default if there is no value, or nothing can be made of it. -/
def get {α : Type} (root : Value) (fields : Fields) (name : String) (convert : Value → Except ReadFault (Option α)) (default : α) :
    Except ReadFault α :=
  match value? fields name with
  | none => .ok default
  | some v => if isTooDeep root v then .error .tooDeep else (convert v).map (·.getD default)

def text (root : Value) (fields : Fields) (name default : String) : Except ReadFault String :=
  get root fields name (fun v => .ok (root.text v).toOption) default

/-- The text of bytes that are all ASCII. -/
def asciiText? (bytes : List UInt8) : Option String :=
  if bytes.all (· < 128) then some (String.ofList (bytes.map fun b => Char.ofNat b.toNat)) else none

/-- The whole number in a value, if there is one. Fractions are dropped. -/
def whole? : Value → Except ReadFault (Option Int)
  | .bool b => .ok (some (if b then 1 else 0))
  | .int n => .ok (some n)
  | .real (.infinite _) => .error .infinite
  | .real x => .ok x.truncate?
  | .str s => .ok (Text.readInt s).toOption
  | .bytes bytes => .ok ((asciiText? bytes).bind fun s => (Text.readInt s).toOption)
  | _ => .ok none

def int (root : Value) (fields : Fields) (name : String) (default : Int) : Except ReadFault Int :=
  get root fields name whole? default

/-- The level of delivery in a value, from 0 to 2; a truth value is none. -/
def level? : Value → Except ReadFault (Option Int)
  | .bool _ => .ok none
  | v => (whole? v).map fun n => n.filter fun n => 0 ≤ n && n ≤ 2

def level (root : Value) (fields : Fields) (name : String) (default : Int) : Except ReadFault Int :=
  get root fields name level? default

/-- A truth value or a word for one, in letters of any case. -/
def truth? : Value → Option Bool
  | .bool b => some b
  | .str s =>
    let word := Text.lower (String.ofList (Text.trimmed Text.isBlank s.toList))
    if word ∈ ["true", "yes", "on", "1"] then some true
    else if word ∈ ["false", "no", "off", "0"] then some false
    else none
  | _ => none

def bool (root : Value) (fields : Fields) (name : String) (default : Bool) : Except ReadFault Bool :=
  get root fields name (fun v => .ok (truth? v)) default

def readBroker (root : Value) (fields : Fields) : Except ReadFault BrokerSettings := do
  let base : BrokerSettings := {}
  return {
    enabled := ← bool root fields "enabled" base.enabled
    url := ← text root fields "broker_url" base.url
    clientId := ← text root fields "client_id" base.clientId
    topic := ← text root fields "topic" base.topic
    username := ← text root fields "username" base.username
    password := ← text root fields "password" base.password
    qos := ← level root fields "qos" base.qos
    cleanSession := ← bool root fields "clean_session" base.cleanSession
    connectionTimeout := ← int root fields "connection_timeout_sec" base.connectionTimeout
    keepAlive := ← int root fields "keepalive_sec" base.keepAlive
    automaticReconnect := ← bool root fields "automatic_reconnect" base.automaticReconnect
    reconnectMaxDelay := ← int root fields "reconnect_max_delay_sec" base.reconnectMaxDelay
    caCertificate := ← text root fields "tls_ca_cert" base.caCertificate
    clientCertificate := ← text root fields "tls_client_cert" base.clientCertificate
    clientKey := ← text root fields "tls_client_key" base.clientKey }

def readCache (root : Value) (fields : Fields) : Except ReadFault CacheSettings := do
  let base : CacheSettings := {}
  return {
    path := ← text root fields "path" base.path
    scanInterval := ← int root fields "scan_interval_sec" base.scanInterval }

def readProvider (root : Value) (fields : Fields) : Except ReadFault ProviderSettings := do
  let base : ProviderSettings := {}
  return {
    name := ← text root fields "name" base.name
    allowDelete := ← bool root fields "allow_delete" base.allowDelete
    storagePath := ← text root fields "storage_path" base.storagePath }

def rootFields (root : Value) : Fields :=
  let fields := fieldsOf (root.opened root)
  match Value.lookup sectionName fields with
  | some v => fieldsOf (root.opened v)
  | none => fields

def ofValue (root : Value) : Except ReadFault Settings := do
  let base : Settings := {}
  let fields := rootFields root
  return {
    dataDirectory := ← text root fields "data_dir" base.dataDirectory
    broker := ← readBroker root (sectionFields root fields "mqtt")
    cache := ← readCache root (sectionFields root fields "schema_cache")
    provider := ← readProvider root (sectionFields root fields "tag_provider") }

end Settings

end TagTypes
