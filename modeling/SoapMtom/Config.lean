import SoapMtom.Http.FieldMap
import SoapMtom.Http.Header
import SoapMtom.Text.Blank

/-!
# The settings of a client

`Config.of` gives every setting but the endpoint its default. `Config.validate` names the first
setting with which no client can work.
-/

namespace SoapMtom

/-- The name that a client gives itself where nothing else is set. -/
def defaultUserAgent : String := "gowsdl/0.1"

/-- User and password for basic authentication. -/
structure BasicAuth where
  username : String
  password : String
deriving DecidableEq, Repr

/-- The settings of a client. -/
structure Config where
  /-- The URL of the service. -/
  endpoint : String := ""
  userAgent : String := defaultUserAgent
  /-- Whether attachments travel beside the envelope. -/
  mtom : Bool := false
  /-- Header fields that win over those of the library. -/
  httpHeaders : Http.FieldMap := .empty
  /-- How long a whole request may take. -/
  timeoutSecs : Nat := 30
  /-- How long connecting may take. -/
  connectTimeoutSecs : Nat := 90
  basicAuth : Option BasicAuth := none
  /-- Whether the certificate of the service goes unchecked. -/
  acceptInvalidCerts : Bool := false
deriving DecidableEq, Repr

/-- Why settings cannot be used. -/
inductive ConfigError where
  | noEndpoint
  | zeroTimeout
  | zeroConnectTimeout
  | headerName (name : String)
  | headerValue (name : String)
  /-- The text is no YAML document that holds settings. -/
  | unreadable
deriving DecidableEq, Repr

/-- The wording of these failures. -/
def ConfigError.message : ConfigError → String
  | .noEndpoint => "endpoint must be set"
  | .zeroTimeout => "timeout_secs must be greater than zero"
  | .zeroConnectTimeout => "connect_timeout_secs must be greater than zero"
  | .headerName name =>
    "invalid HTTP header name " ++ Text.quote name ++ ": invalid HTTP header name"
  | .headerValue name =>
    "invalid value for HTTP header " ++ Text.quote name ++ ": failed to parse header value"
  | .unreadable => "invalid configuration"

namespace Config

/-- The settings for an endpoint, all others at their defaults. -/
def of (endpoint : String) : Config := { endpoint }

/-- The settings with one more header field. -/
def withHttpHeader (c : Config) (name value : String) : Config :=
  { c with httpHeaders := c.httpHeaders.insert name value }

/-- The settings with both timeouts, given in milliseconds. They are cut to whole seconds, and are a
second at least. -/
def withTimeout (c : Config) (requestMillis connectMillis : Nat) : Config :=
  { c with
    timeoutSecs := max 1 (requestMillis / 1000)
    connectTimeoutSecs := max 1 (connectMillis / 1000) }

/-- Sets one header field, under its name in lower case. -/
def setHeader (headers : Http.Headers) (entry : String × String) :
    Except ConfigError Http.Headers :=
  if Http.isFieldName entry.1 then
    match Http.fieldValue? entry.2 with
    | some value => .ok (headers.insert (Text.lower entry.1) value)
    | none => .error (.headerValue entry.1)
  else .error (.headerName entry.1)

/-- Sets the header fields of the settings on top of others, in the order of their names. -/
def overrideHeaders (c : Config) (headers : Http.Headers) : Except ConfigError Http.Headers :=
  c.httpHeaders.entries.foldlM setHeader headers

/-- The header fields of the settings alone. -/
def headerMap (c : Config) : Except ConfigError Http.Headers := c.overrideHeaders []

/-- Checks the settings; the first that cannot be used is reported. -/
def validate (c : Config) : Except ConfigError Unit := do
  if Text.isBlankText c.endpoint then throw .noEndpoint
  if c.timeoutSecs = 0 then throw .zeroTimeout
  if c.connectTimeoutSecs = 0 then throw .zeroConnectTimeout
  discard c.headerMap

end Config

end SoapMtom
