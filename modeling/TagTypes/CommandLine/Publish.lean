import TagTypes.CommandLine.Outcome
import TagTypes.CommandLine.Words

/-!
# The command that publishes a schema

The command sends the text of a schema file to the topic of its name below the base topic, or an empty message, which deletes the schema of that name.
-/

namespace TagTypes.CommandLine

structure PublishOptions where
  schemaFile : Option String := none
  brokerUrl : String := "tcp://localhost:1883"
  baseTopic : String := "ignition/schemas"
  name : Option String := none
  deletes : Bool := false
  qos : Int := 1
  username : String := ""
  password : String := ""

namespace PublishOptions

def flags : List Flag := [
  { name := "broker", letter := some 'b' },
  { name := "base_topic", letter := some 't' },
  { name := "name", letter := some 'n' },
  { name := "delete", takesValue := false },
  { name := "qos", letter := some 'q' },
  { name := "username", letter := some 'u' },
  { name := "password", letter := some 'p' }]

def set (o : PublishOptions) (option : String × String) : Option PublishOptions :=
  match option with
  | ("broker", value) => some { o with brokerUrl := value }
  | ("base_topic", value) => some { o with baseTopic := value }
  | ("name", value) => some { o with name := some value }
  | ("delete", _) => some { o with deletes := true }
  | ("qos", value) =>
    match Text.readInt value with
    | .ok n => if 0 ≤ n && n ≤ 2 then some { o with qos := n } else none
    | .error _ => none
  | ("username", value) => some { o with username := value }
  | ("password", value) => some { o with password := value }
  | _ => none

/-- Only a deletion by name does without a file. -/
def isComplete (o : PublishOptions) : Bool := o.schemaFile.isSome || (o.name.isSome && o.deletes)

def read? (texts : List String) : Option PublishOptions := do
  let line ← CommandLine.read? flags true texts
  let o ← line.options.foldlM set { schemaFile := line.argument }
  if o.isComplete then return o else none

def brokerSettings (o : PublishOptions) : BrokerSettings where
  url := o.brokerUrl
  clientId := ""
  username := o.username
  password := o.password
  connectionTimeout := 10
  automaticReconnect := false

end PublishOptions

namespace Publish

/-- The name of the schema: the given one, or else that of the file. -/
def name (o : PublishOptions) : Except Failure String :=
  match o.name.filter (· ≠ ""), o.schemaFile with
  | some name, _ => .ok name
  | none, some file => .ok (FilePath.parse file).stem
  | none, none => .error .noName

def payload (o : PublishOptions) (disk : Disk) : Except Failure String :=
  if o.deletes then .ok ""
  else (disk.readText (FilePath.parse (o.schemaFile.getD ""))).mapError .text

def topic (base name : String) : String :=
  String.ofList ((base.toList.reverse.dropWhile (· = '/')).reverse) ++ "/" ++ name

/-- The seconds that the command waits until its message is sent. -/
def patience : Nat := 10

def send (o : PublishOptions) (name payload : String) (k : Broker.Conditions) (client : Broker.Client Unit) :
    Except Failure Nat × Broker.Client Unit :=
  match client.connect k with
  | (.error (.breakdown reason), client) => (.error (.client (.breakdown reason)), client)
  | (.error _, client) => (.ok Outcome.gaveUp, client)
  | (.ok _, client) =>
    let client := (client.publish k (topic o.baseTopic name) payload o.qos false).2.ask [.awaitPublish patience]
    let (result, client) := client.disconnect k
    ((result.mapError .client).map fun _ => Outcome.done, client)

def runWith (o : PublishOptions) (k : Broker.Conditions) (disk : Disk) : Outcome :=
  let prepared : Except Failure (String × String × Broker.Client Unit) := do
    let name ← name o
    let payload ← payload o disk
    let client ← (Broker.Client.create o.brokerSettings none).mapError .address
    return (name, payload, client)
  match prepared with
  | .error failure => .ending (.error failure) disk
  | .ok (name, payload, client) =>
    let (code, client) := send o name payload k client
    { code, requests := client.requests, disk }

def run (texts : List String) (k : Broker.Conditions) (disk : Disk) : Outcome :=
  match PublishOptions.read? texts with
  | none => .ending (.ok Outcome.refused) disk
  | some o => runWith o k disk

end Publish

end TagTypes.CommandLine
