import TagTypes.Broker.IpAddress
import TagTypes.Text.Lower
import TagTypes.Text.Quoted

/-!
# Broker addresses

A broker is given by an address `scheme://host:port`. The scheme says whether the connection is encrypted and, where no port is given, which port it is; an address without `://` has the scheme `tcp`. What follows the host and the port, and a login in front of them, do not count.

A scheme is a letter followed by letters, digits and the marks `+`, `-` and `.`. A host in brackets is a numeric address of version 6, or one of a version to come, which begins with `v`; a zone after `%` keeps its letter case.
-/

namespace TagTypes.Broker

structure Address where
  host : String
  port : Nat
  useTls : Bool
  deriving DecidableEq, Repr, Inhabited

inductive AddressError where
  | unsupportedScheme (scheme : String)
  | noHost (url : String)
  | misplacedBrackets
  | malformedFuture
  | notNumeric (host : String)
  | version4InBrackets
  | deceptiveHost (authority : String)
  | portNotNumber (text : String)
  | portTooLong (digits : Nat)
  | portOutOfRange
  deriving DecidableEq, Repr

def AddressError.message : AddressError → String
  | .unsupportedScheme scheme => "Unsupported MQTT broker scheme: " ++ scheme
  | .noHost url => "MQTT broker URL has no host: " ++ url
  | .misplacedBrackets => "Invalid IPv6 URL"
  | .malformedFuture => "IPvFuture address is invalid"
  | .notNumeric host => Text.quoted host ++ " does not appear to be an IPv4 or IPv6 address"
  | .version4InBrackets => "An IPv4 address cannot be in brackets"
  | .deceptiveHost authority => "netloc '" ++ authority ++ "' contains invalid characters under NFKC normalization"
  | .portNotNumber text => "Port could not be cast to integer value as " ++ Text.quoted text
  | .portTooLong digits => Text.overlongText digits
  | .portOutOfRange => "Port out of range 0-65535"

namespace Address

def defaultPort (useTls : Bool) : Nat := if useTls then 8883 else 1883

/-- Whether a scheme, in lower case, means an encrypted connection. -/
def usesTls? (scheme : String) : Option Bool :=
  if scheme = "tcp" || scheme = "mqtt" then some false
  else if scheme = "ssl" || scheme = "tls" || scheme = "mqtts" then some true
  else none

def isSchemeChar (c : Char) : Bool := c.isAlphanum || c = '+' || c = '-' || c = '.'

def containsMark : List Char → Bool
  | [] => false
  | c :: cs => "://".toList.isPrefixOf (c :: cs) || containsMark cs

/-- The scheme in lower case, if there is one, and what follows it. -/
def splitScheme (cs : List Char) : String × List Char :=
  match Text.splitFirst ':' cs with
  | (c :: scheme, some rest) =>
    if c.isAlpha && scheme.all isSchemeChar then (Text.asciiLower (String.ofList (c :: scheme)), rest) else ("", cs)
  | _ => ("", cs)

/-- The part between `//` and the next `/`, `?` or `#`. -/
def authority : List Char → List Char
  | '/' :: '/' :: rest => rest.takeWhile fun c => c ≠ '/' && c ≠ '?' && c ≠ '#'
  | _ => []

/-- Characters whose compatibility form contains a character that divides addresses. -/
def deceptive : List Nat := [
  0x2047, 0x2048, 0x2049, 0x2100, 0x2101, 0x2105, 0x2106, 0x2a74, 0xfe13, 0xfe16, 0xfe55, 0xfe56, 0xfe5f,
  0xfe6b, 0xff03, 0xff0f, 0xff1a, 0xff1f, 0xff20]

/-- An address of a version to come: the mark `v`, the version, a point, and anything. -/
def isFuture (host : List Char) : Bool :=
  let version := (host.drop 1).takeWhile IpAddress.isHexDigit
  let rest := (host.drop 1).dropWhile IpAddress.isHexDigit
  !version.isEmpty && rest.head? = some '.' && 2 ≤ rest.length

def checkNumeric (host : List Char) : Except AddressError Unit :=
  if host.head? = some 'v' then if isFuture host then .ok () else .error .malformedFuture
  else if IpAddress.isVersion4 host then .error .version4InBrackets
  else if IpAddress.isVersion6 host then .ok ()
  else .error (.notNumeric (String.ofList host))

/-- Check an authority with brackets in it: nothing may stand in front of them or between them and the port. -/
def checkBracketed (authority : List Char) : Except AddressError Unit :=
  let site := Text.afterLast '@' authority
  match Text.splitFirst '[' site with
  | (before, some bracketed) =>
    let (host, after) := Text.splitFirst ']' bracketed
    let after := after.getD []
    if !before.isEmpty || (!after.isEmpty && after.head? ≠ some ':') then .error .misplacedBrackets
    else checkNumeric host
  | (_, none) => checkNumeric (Text.splitFirst ':' site).1

/-- Brackets come in pairs, and only around a numeric address. -/
def checkBrackets (authority : List Char) : Except AddressError Unit :=
  if authority.contains '[' ≠ authority.contains ']' then .error .misplacedBrackets
  else if authority.contains '[' then checkBracketed authority
  else .ok ()

def hostAndPort (authority : List Char) : List Char × List Char :=
  let site := Text.afterLast '@' authority
  match Text.splitFirst '[' site with
  | (_, some bracketed) =>
    let (host, rest) := Text.splitFirst ']' bracketed
    (host, (Text.splitFirst ':' (rest.getD [])).2.getD [])
  | (_, none) =>
    let (host, port) := Text.splitFirst ':' site
    (host, port.getD [])

/-- The host in lower case, apart from its zone. -/
def hostText (host : List Char) : String :=
  let (name, zone) := Text.splitFirst '%' host
  match zone with
  | some zone => Text.lower (String.ofList name) ++ String.ofList ('%' :: zone)
  | none => Text.lower (String.ofList name)

/-- The port in a port text; an empty text and the number 0 stand for no port. -/
def readPort (text : List Char) : Except AddressError (Option Nat) :=
  if text.isEmpty then .ok none
  else if !text.all Char.isDigit then .error (.portNotNumber (String.ofList text))
  else if Text.maxDigits < text.length then .error (.portTooLong text.length)
  else
    let port := Text.ofDigits 10 (text.map fun c => c.toNat - 48)
    if 65535 < port then .error .portOutOfRange
    else .ok (if port = 0 then none else some port)

/-- The address with the scheme `tcp` if it has none. -/
def withScheme (url : String) : String := if containsMark url.toList then url else "tcp://" ++ url

/-- The characters of an address that count: not the blanks and control characters in front of it, nor tabs and line ends anywhere. -/
def significant (url : String) : List Char :=
  (url.toList.dropWhile fun c => c.toNat ≤ 0x20).filter fun c => c ≠ '\t' && c ≠ '\r' && c ≠ '\n'

def parse (url : String) : Except AddressError Address := do
  let url := withScheme url
  let (scheme, rest) := splitScheme (significant url)
  let authority := authority rest
  checkBrackets authority
  if authority.any fun c => deceptive.contains c.toNat then throw (.deceptiveHost (String.ofList authority))
  let some useTls := usesTls? scheme | throw (.unsupportedScheme scheme)
  let (host, port) := hostAndPort authority
  if host.isEmpty then throw (.noHost url)
  let port ← readPort port
  return { host := hostText host, port := port.getD (defaultPort useTls), useTls }

end Address

end TagTypes.Broker
