import TagTypes.Broker.Client
import TagTypes.Text.Blank

/-!
# The schema feed

A feed subscribes to a topic filter and turns messages into signals: a text is a schema that was received under the name its topic gives, and a message with nothing in it means that the schema of that name is deleted. Messages that are not text or whose topic gives no name are passed over. A feed also signals when its connection comes up and when it breaks.
-/

namespace TagTypes.Broker

inductive Signal where
  | received (name text : String)
  | deleted (name : String)
  | connected
  | disconnected (cause : String)
  deriving DecidableEq, Repr, Inhabited

/-- A feed is the only handler and watcher of its client. -/
structure Feed where
  client : Client Unit
  subscribed : Bool := false
  deriving Inhabited

namespace Feed

def underscored (cs : List Char) : String := String.ofList (cs.map fun c => if c = '/' then '_' else c)

/-- The name of the schema that a topic is about: the levels below the base of the filter, joined by underscores, or the last level of a topic elsewhere. -/
def nameOf (filter topic : String) : String :=
  let base := (TopicFilter.base filter).toList
  let cs := topic.toList
  if base.isEmpty then underscored cs
  else if cs = base || (base ++ ['/']).isPrefixOf cs then underscored (cs.drop (base.length + 1))
  else String.ofList (Text.afterLast '/' cs)

def signalOf? (filter topic : String) (payload : ByteArray) : Option Signal :=
  match String.fromUTF8? payload with
  | none => none
  | some text =>
    let name := nameOf filter topic
    if name = "" then none
    else if Text.isAllBlank text then some (.deleted name)
    else some (.received name text)

/-- What a delivery means for the feed. A connection that comes up before the subscription is signalled only once the subscription is made. -/
def signalOfDelivery? (f : Feed) : Delivery Unit → Option Signal
  | .message _ topic payload => signalOf? f.client.settings.topic topic payload
  | .connection _ true _ => if f.subscribed then some .connected else none
  | .connection _ false reason => some (.disconnected reason)

def collect (f : Feed) : List Signal × Feed :=
  (f.client.deliveries.filterMap f.signalOfDelivery?, { f with client := { f.client with deliveries := [] } })

def create (s : BrokerSettings) : Except AddressError Feed := do
  let client ← Client.create s none
  return { client := client.watch () }

def isConnected (f : Feed) : Bool := f.subscribed && f.client.connected

def subscribe (k : Conditions) (f : Feed) : Feed :=
  let client := f.client.subscribe f.client.settings.topic () f.client.settings.qos
  { f with client := k.arrivals.foldl (fun c m => c.message m.1 m.2) client }

def connect (k : Conditions) (f : Feed) : Except ClientError Unit × List Signal × Feed :=
  let (result, client) := f.client.connect k
  let (first, f) := { f with client }.collect
  match result with
  | .error e => (.error e, first, f)
  | .ok _ =>
    let (second, f) := (f.subscribe k).collect
    (.ok (), first ++ second ++ [.connected], { f with subscribed := true })

def disconnect (k : Conditions) (f : Feed) : Feed :=
  let client := if f.client.connected then f.client.unsubscribe f.client.settings.topic else f.client
  { f with client := (client.disconnect k).2, subscribed := false }

/-- Let the client take note of something that happened on the network. -/
def happen (step : Client Unit → Client Unit) (f : Feed) : List Signal × Feed :=
  { f with client := step f.client }.collect

end Feed

end TagTypes.Broker
