import SoapMtom.Delivery
import SoapMtom.Http.Message
import SoapMtom.Payload

/-!
# Calling a service

A `Client` holds settings and the header entries that go with every request. A call builds an
envelope, encodes it as a request, hands that to a transport, and takes in the response. What a call
does is an `Exchange`: the request, if one was handed over, and the result, if there is one yet; a
transport may stay silent.

A call changes nothing in the client. The identifiers that it needs come from an `IdStream`: those
of a message in parts first, and one more for a payload that is read as an attachment.
-/

namespace SoapMtom

universe u v

/-- What a client keeps between calls. -/
structure Client where
  config : Config
  /-- The entries that go with every request, in order. -/
  headers : List HeaderEntry := []
deriving DecidableEq, Repr

/-- What turns a request into a response; `none` while it is silent. -/
abbrev Transport := Http.Request → Option (Except SoapError Http.Response)

/-- What became of a call. -/
structure Exchange (α : Type u) where
  /-- The request that was handed to the transport. -/
  sent : Option Http.Request := none
  /-- The result, unless the transport is silent. -/
  result : Option (Except SoapError α)

namespace Exchange

variable {α : Type u} {β : Type v}

/-- A call that failed before anything was sent. -/
def failed (cause : SoapError) : Exchange α := { result := some (.error cause) }

/-- The exchange with its result read further. -/
def andThen (x : Exchange α) (read : α → Except SoapError β) : Exchange β :=
  { sent := x.sent, result := x.result.map (·.bind read) }

/-- The exchange under a limit of time: silence is a failure. -/
def within (x : Exchange α) (action : String) (nanoseconds : Nat) : Exchange α :=
  match x.result with
  | some _ => x
  | none => { x with result := some (.error (.transport (.deadline action nanoseconds))) }

end Exchange

/-- The content type of a plain request. -/
def plainContentType : String := "text/xml; charset=\"utf-8\""

/-- How many characters of a response an error shows. -/
def maxErrorBody : Nat := 512

/-- The transport of a client that nobody gave one: it takes only endpoints that are URLs, and
refuses every other one. -/
def Transport.refusing : Transport := fun request =>
  some (.error (.transport (.badUrl request.url)))

/-- Takes in a response. A fault counts at every status; without one, a status that reports no
success counts before anything that is wrong with the message. -/
def decodeResponse (response : Http.Response) : Except SoapError Envelope :=
  match Envelope.receive response.contentType? response.body with
  | .error (.fault fault) => .error (.fault fault)
  | received =>
    if response.isSuccess then received
    else
      .error (.http response.status
        (String.ofList ((Utf8.lossy response.body).toList.take maxErrorBody)))

namespace Client

/-- A client with these settings, once they are checked. -/
def ofConfig (config : Config) : Except SoapError Client :=
  match config.validate with
  | .ok () => .ok { config }
  | .error cause => .error (.config cause)

/-! ## Header entries -/

/-- The client with one more header entry. -/
def addEntry (c : Client) (entry : HeaderEntry) : Client :=
  { c with headers := c.headers ++ [entry] }

/-- The client with a header entry that carries a value. -/
def addHeader {α : Type u} [ToElement α] (c : Client) (value : α) : Except SoapError Client :=
  (HeaderEntry.ofValue value).map c.addEntry

/-- The client with these header entries and no others. -/
def setHeaders (c : Client) (entries : List HeaderEntry) : Client := { c with headers := entries }

/-- The client without header entries. -/
def clearHeaders (c : Client) : Client := c.setHeaders []

/-! ## Requests -/

/-- The envelope that a call with this payload sends. -/
def envelope {α : Type u} [ToElement α] (c : Client) (body : α) : Except SoapError Envelope :=
  Envelope.build c.headers body

/-- The content type and the body of a request. -/
def encodeBody (c : Client) (ids : IdStream) (envelope : Envelope) :
    Except SoapError Multipart.Message :=
  if c.config.mtom && envelope.hasAttachments then
    (Multipart.encode ids envelope).mapError .parse
  else .ok { contentType := plainContentType, body := Utf8.encode envelope.toXml }

/-- The name that the client gives itself. -/
def userAgent (c : Client) : String :=
  if c.config.userAgent.isEmpty then defaultUserAgent else c.config.userAgent

/-- The value of a field of the library's own. -/
def ownField (field value : String) : Except SoapError Bytes :=
  match Http.fieldValue? value with
  | some bs => .ok bs
  | none => .error (.encoding (.headerValue field value))

/-- The header of a request: three fields of the library, and those of the settings on top. -/
def requestHeaders (c : Client) (contentType action : String) : Except SoapError Http.Headers := do
  let contentType ← ownField "Content-Type" contentType
  let action ← ownField "SOAPAction" action
  let userAgent ← ownField "User-Agent" c.userAgent
  (c.config.overrideHeaders
    [("content-type", contentType), ("soapaction", action), ("user-agent", userAgent)]).mapError
      .config

/-- The request that carries an envelope. -/
def encodeRequest (c : Client) (ids : IdStream) (action : String) (envelope : Envelope) :
    Except SoapError Http.Request := do
  let message ← c.encodeBody ids envelope
  let headers ← c.requestHeaders message.contentType action
  pure { url := c.config.endpoint, headers, body := message.body }

/-- The request of a call with this payload. -/
def request {α : Type u} [ToElement α] (c : Client) (ids : IdStream) (action : String) (body : α) :
    Except SoapError Http.Request := do
  let envelope ← c.envelope body
  c.encodeRequest ids action envelope

/-! ## Calls -/

variable {α : Type u} [ToElement α]

/-- Sends a payload and takes in the envelope of the answer. -/
def callEnvelope (c : Client) (transport : Transport) (ids : IdStream) (action : String)
    (body : α) : Exchange Envelope :=
  match c.request ids action body with
  | .error cause => .failed cause
  | .ok request =>
    { sent := some request, result := (transport request).map (·.bind decodeResponse) }

/-- The identifier for reading an answer: the first that no message in parts can have used. -/
def answerId (ids : IdStream) : Uuid := ids (Multipart.boundaryAttempts + 1)

/-- Sends a payload and reads the answer as a value. -/
def call (β : Type v) [OfElement β] (c : Client) (transport : Transport) (ids : IdStream)
    (action : String) (body : α) : Exchange β :=
  (c.callEnvelope transport ids action body).andThen (·.bodyAs β (answerId ids))

/-- Sends a payload and takes in the envelope of the answer, if it comes in time. -/
def callEnvelopeWithin (c : Client) (transport : Transport) (ids : IdStream) (nanoseconds : Nat)
    (action : String) (body : α) : Exchange Envelope :=
  (c.callEnvelope transport ids action body).within action nanoseconds

/-- Sends a payload and reads the answer as a value, if it comes in time. -/
def callWithin (β : Type v) [OfElement β] (c : Client) (transport : Transport) (ids : IdStream)
    (nanoseconds : Nat) (action : String) (body : α) : Exchange β :=
  (c.callEnvelopeWithin transport ids nanoseconds action body).andThen (·.bodyAs β (answerId ids))

/-- Sends a payload and stores the answer in place of `reply`, which stays as it is unless there is
an answer that can be read. -/
def callInto {β : Type v} [OfElement β] (c : Client) (transport : Transport) (ids : IdStream)
    (action : String) (body : α) (reply : β) : β × Exchange Unit :=
  let exchange := c.call β transport ids action body
  let stored :=
    match exchange.result with
    | some (.ok value) => value
    | _ => reply
  (stored, exchange.andThen fun _ => .ok ())

end Client

end SoapMtom
