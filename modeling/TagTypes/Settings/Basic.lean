/-!
# Settings

What can be set about the broker, the schema cache and the tag provider, with the values that hold where nothing is set. Times are in seconds.
-/

namespace TagTypes

structure BrokerSettings where
  enabled : Bool := true
  url : String := "tcp://localhost:1883"
  clientId : String := "ignition-schema-provider"
  topic : String := "ignition/schemas/#"
  username : String := ""
  password : String := ""
  qos : Int := 1
  cleanSession : Bool := true
  connectionTimeout : Int := 30
  keepAlive : Int := 60
  automaticReconnect : Bool := true
  reconnectMaxDelay : Int := 60
  caCertificate : String := ""
  clientCertificate : String := ""
  clientKey : String := ""
  deriving DecidableEq, Repr, Inhabited

/-- Without a user name the client does not log in. -/
def BrokerSettings.hasCredentials (s : BrokerSettings) : Bool := s.username ≠ ""

structure CacheSettings where
  path : String := "modules/schema-tag-provider/schemas"
  scanInterval : Int := 30
  deriving DecidableEq, Repr, Inhabited

structure ProviderSettings where
  name : String := "default"
  allowDelete : Bool := true
  storagePath : String := "tag-providers"
  deriving DecidableEq, Repr, Inhabited

structure Settings where
  dataDirectory : String := "."
  broker : BrokerSettings := {}
  cache : CacheSettings := {}
  provider : ProviderSettings := {}
  deriving DecidableEq, Repr, Inhabited

end TagTypes
