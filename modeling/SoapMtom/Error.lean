import SoapMtom.Config
import SoapMtom.ParseError
import SoapMtom.Text.Duration

/-!
# Everything that can go wrong

`SoapError` joins the causes: the transport, the status of a response, a fault that the service
reports, a message that cannot be read or cannot be written, settings, and files.
-/

namespace SoapMtom

/-- Why no response was received. -/
inductive TransportError where
  /-- The transport's own words. -/
  | failed (message : String)
  /-- The endpoint is no URL that a request can be sent to. -/
  | badUrl (url : String)
  /-- The call took longer than it was allowed to. -/
  | deadline (action : String) (nanoseconds : Nat)
deriving DecidableEq, Repr

/-- The wording of the three failures. -/
def TransportError.message : TransportError → String
  | .failed message => message
  | .badUrl url => "request to " ++ url ++ " failed: builder error"
  | .deadline action nanoseconds =>
    "call " ++ action ++ " exceeded its deadline of " ++ Text.showNanoseconds nanoseconds

/-- Why a message cannot be written. -/
inductive EncodingError where
  /-- The payload's own words. -/
  | payload (message : String)
  | name (cause : Xml.InvalidName)
  | headerValue (field value : String)
deriving DecidableEq, Repr

/-- The wording of the three failures. -/
def EncodingError.message : EncodingError → String
  | .payload message => message
  | .name cause => cause.message
  | .headerValue field value =>
    "invalid " ++ field ++ " header value " ++ Text.quote value ++ ": failed to parse header value"

/-- Why a file cannot be read. -/
inductive FileError where
  | notFound
  | notText
deriving DecidableEq, Repr

/-- The wording of the two failures. -/
def FileError.message : FileError → String
  | .notFound => "No such file or directory (os error 2)"
  | .notText => "stream did not contain valid UTF-8"

/-- Whatever can go wrong. -/
inductive SoapError where
  | transport (cause : TransportError)
  /-- A response without a fault whose status reports no success. -/
  | http (status : Nat) (body : String)
  | fault (fault : Fault)
  | parse (cause : ParseError)
  | encoding (cause : EncodingError)
  | config (cause : ConfigError)
  | file (cause : FileError)
deriving DecidableEq, Repr

namespace SoapError

/-- The wording of all failures: the kind, and the cause after it. -/
def message : SoapError → String
  | .transport cause => "Transport error: " ++ cause.message
  | .http status body => "HTTP error " ++ toString status ++ ": " ++ body
  | .fault f => "SOAP fault: " ++ f.describe
  | .parse cause => "Parse error: " ++ cause.message
  | .encoding cause => "Encoding error: " ++ cause.message
  | .config cause => "Configuration error: " ++ cause.message
  | .file cause => "IO error: " ++ cause.message

/-- Whether the failure lies below the exchange of envelopes. -/
def isTransport : SoapError → Bool
  | .transport _ | .http _ _ => true
  | _ => false

/-- The fault that the failure reports, if it is one. -/
def fault? : SoapError → Option Fault
  | .fault f => some f
  | _ => none

end SoapError

end SoapMtom
