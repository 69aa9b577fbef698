import TagTypes.Broker.Address
import TagTypes.Broker.TopicFilter
import TagTypes.Dict
import TagTypes.Settings.Basic

/-!
# Broker clients

A client keeps a connection to a broker alive. It remembers its subscriptions and renews all of them whenever a connection comes up, and it tells its watchers when a connection comes up or breaks. What a client asks of the connection is a list of requests; what it hands on, to message handlers and watchers, is a list of deliveries. A handler that fails does not keep a delivery from the others.

How broker and network behave during one step is given by `Conditions`.
-/

namespace TagTypes.Broker

inductive Request where
  | create (clientId : String) (cleanSession : Bool)
  | reconnectDelay (least most : Int)
  | login (username password : String)
  | encrypt (caCertificate clientCertificate clientKey : Option String)
  | connect (host : String) (port : Nat) (keepAlive : Int)
  | startLoop
  | stopLoop
  | disconnect
  | publish (topic payload : String) (qos : Int) (retain : Bool)
  | awaitPublish (seconds : Nat)
  | subscribe (filter : String) (qos : Int)
  | unsubscribe (filter : String)
  deriving DecidableEq, Repr, Inhabited

/-- What can go wrong when a connection is opened: the broker is not reached, or the connection itself breaks down. -/
inductive ConnectFault where
  | unreachable (reason : String)
  | breakdown (reason : String)
  deriving DecidableEq, Repr

/-- How broker and network behave during one step. `answer` is the code with which the broker answers a connection, if it does; `arrivals` are the messages that come in as soon as a subscription is made. -/
structure Conditions where
  answer : Option Int := some 0
  connectFault : Option ConnectFault := none
  disconnectFault : Option String := none
  publishCode : Int := 0
  arrivals : List (String × ByteArray) := []
  deriving Inhabited

inductive ClientError where
  | unreachable (url reason : String)
  | timedOut (seconds : Int) (url : String)
  | refused (code : Int)
  | breakdown (reason : String)
  deriving DecidableEq, Repr

def ClientError.message : ClientError → String
  | .unreachable url reason => "Cannot connect to MQTT broker " ++ url ++ ": " ++ reason
  | .timedOut seconds url => "MQTT connection timed out after " ++ Text.intText seconds ++ "s: " ++ url
  | .refused code => "MQTT broker refused connection: rc=" ++ Text.intText code
  | .breakdown reason => reason

/-- What a client hands on to a message handler or a watcher. -/
inductive Delivery (η : Type) where
  | message (handler : η) (topic : String) (payload : ByteArray)
  | connection (watcher : η) (connected : Bool) (reason : String)
  deriving Inhabited

structure Subscription (η : Type) where
  handler : η
  qos : Int
  deriving Inhabited

/-- A client, with the requests and deliveries it has made. -/
structure Client (η : Type) where
  settings : BrokerSettings
  address : Address
  connected : Bool := false
  subscriptions : Dict String (Subscription η) := ∅
  watchers : List η := []
  requests : List Request := []
  deliveries : List (Delivery η) := []
  deriving Inhabited

namespace Client

variable {η : Type}

def ask (c : Client η) (requests : List Request) : Client η := { c with requests := c.requests ++ requests }

def filled (text : String) : Option String := if text = "" then none else some text

def setup (s : BrokerSettings) (clientId : String) (address : Address) : List Request :=
  [.create clientId s.cleanSession, .reconnectDelay 1 s.reconnectMaxDelay] ++
    (if s.hasCredentials then [.login s.username s.password] else []) ++
    (if address.useTls then [.encrypt (filled s.caCertificate) (filled s.clientCertificate) (filled s.clientKey)] else [])

/-- A client for the broker of the settings; `clientId` stands in place of the identifier in the settings. -/
def create (s : BrokerSettings) (clientId : Option String) : Except AddressError (Client η) := do
  let address ← Address.parse s.url
  return { settings := s, address, requests := setup s (clientId.getD s.clientId) address }

def watch (c : Client η) (watcher : η) : Client η := { c with watchers := c.watchers ++ [watcher] }

def notify (c : Client η) (connected : Bool) (reason : String) : Client η :=
  { c with deliveries := c.deliveries ++ c.watchers.map (.connection · connected reason) }

def renewals (c : Client η) : List Request :=
  c.subscriptions.entries.map fun (filter, s) => .subscribe filter s.qos

/-- The broker answered a connection with `code`; 0 means that the connection is up. -/
def answered (c : Client η) (code : Int) : Client η :=
  if code = 0 then ({ c with connected := true }.ask c.renewals).notify true "" else c

/-- The connection ended with `code`; 0 means that this was wanted. -/
def ended (c : Client η) (code : Int) : Client η :=
  let wasConnected := c.connected
  let c := { c with connected := false }
  if code = 0 then c
  else
    let c := if c.settings.automaticReconnect then c else c.ask [.stopLoop]
    if wasConnected then c.notify false (Text.intText code) else c

def connect (k : Conditions) (c : Client η) : Except ClientError Unit × Client η :=
  let c := c.ask [.connect c.address.host c.address.port c.settings.keepAlive]
  match k.connectFault with
  | some (.unreachable reason) => (.error (.unreachable c.settings.url reason), c)
  | some (.breakdown reason) => (.error (.breakdown reason), c)
  | none =>
    let c := c.ask [.startLoop]
    match k.answer with
    | none => (.error (.timedOut c.settings.connectionTimeout c.settings.url), c.ask [.stopLoop])
    | some code =>
      let c := c.answered code
      if code = 0 then (.ok (), c) else (.error (.refused code), c.ask [.stopLoop])

def disconnect (k : Conditions) (c : Client η) : Except ClientError Unit × Client η :=
  let c := c.ask [.disconnect]
  match k.disconnectFault with
  | some reason => (.error (.breakdown reason), c)
  | none => (.ok (), { c.ask [.stopLoop] with connected := false })

/-- Publish a message; the result is the code of the connection. -/
def publish (k : Conditions) (topic payload : String) (qos : Int) (retain : Bool) (c : Client η) : Int × Client η :=
  (k.publishCode, c.ask [.publish topic payload qos retain])

/-- Subscribe a handler to a filter, in place of the handler that had it. -/
def subscribe (filter : String) (handler : η) (qos : Int) (c : Client η) : Client η :=
  { c with subscriptions := c.subscriptions.insert filter ⟨handler, qos⟩ }.ask [.subscribe filter qos]

def unsubscribe (filter : String) (c : Client η) : Client η :=
  let c := { c with subscriptions := c.subscriptions.erase filter }
  if c.connected then c.ask [.unsubscribe filter] else c

def handlers (c : Client η) (topic : String) : List η :=
  (c.subscriptions.entries.filter fun e => TopicFilter.admits e.1 topic).map fun e => e.2.handler

def message (topic : String) (payload : ByteArray) (c : Client η) : Client η :=
  { c with deliveries := c.deliveries ++ (c.handlers topic).map (.message · topic payload) }

/-- Forget the requests and deliveries made. -/
def cleared (c : Client η) : Client η := { c with requests := [], deliveries := [] }

end Client

end TagTypes.Broker
