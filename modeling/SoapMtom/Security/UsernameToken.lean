import SoapMtom.Envelope
import SoapMtom.Timestamp
import SoapMtom.Xml.Field

/-!
# Username tokens

A `UsernameToken` names a user to a service by a password in clear text, with a nonce and the time
of its making if wanted. It travels as a header block that the service has to understand.
`UsernameToken.ofElement` reads what `UsernameToken.element` writes.
-/

namespace SoapMtom.Security

open Xml (Element)

/-- The namespace of security headers. -/
def wsse : String :=
  "http://docs.oasis-open.org/wss/2004/01/oasis-200401-wss-wssecurity-secext-1.0.xsd"

/-- The namespace of the time of making. -/
def wsu : String :=
  "http://docs.oasis-open.org/wss/2004/01/oasis-200401-wss-wssecurity-utility-1.0.xsd"

/-- The kind of password that is written. -/
def passwordText : String :=
  "http://docs.oasis-open.org/wss/2004/01/" ++
    "oasis-200401-wss-username-token-profile-1.0#PasswordText"

/-- The encoding in which a nonce is written. -/
def base64Binary : String :=
  "http://docs.oasis-open.org/wss/2004/01/" ++
    "oasis-200401-wss-soap-message-security-1.0#Base64Binary"

/-- A user and a password, with the marks that tell two uses of them apart. -/
structure UsernameToken where
  username : String
  password : String
  nonce : Option Bytes := none
  created : Option Instant := none
deriving DecidableEq, Repr

/-- Why an element is no username token. -/
inductive TokenError where
  | field (cause : Xml.FieldError)
  | passwordType (type : String)
  | nonce (cause : Base64.Malformed)
  | created (cause : Instant.Malformed)
deriving DecidableEq, Repr

/-- The wording of these failures. -/
def TokenError.message : TokenError → String
  | .field cause => cause.message
  | .passwordType type => "unsupported password type " ++ type
  | .nonce cause => "invalid Nonce: " ++ cause.message
  | .created cause => "invalid Created timestamp: " ++ cause.message

namespace UsernameToken

/-- The token with a nonce made of a fresh identifier. -/
def withNonce (t : UsernameToken) (fresh : Uuid) : UsernameToken :=
  { t with nonce := some fresh.bytes }

/-- The token with the time of its making. -/
def withCreated (t : UsernameToken) (now : Instant) : UsernameToken :=
  { t with created := some now }

/-- The element of a nonce. -/
def nonceElement (nonce : Bytes) : Element :=
  ((Element.named "Nonce").withAttribute "EncodingType" base64Binary).withText
    (Base64.encodeText nonce)

/-- The element of the time of making. -/
def createdElement (created : Instant) : Element :=
  (Element.qualified wsu "Created").withText created.render

/-- The security header that carries the token. -/
def element (t : UsernameToken) : Element :=
  let password := (Element.named "Password").withAttribute "Type" passwordText
  let token := ((Element.named "UsernameToken").withTextChild "Username" t.username).withChild
    (password.withText t.password)
  let marks := (t.nonce.map nonceElement).toList ++ (t.created.map createdElement).toList
  (Element.qualified wsse "Security").withChild
    { token with children := token.children ++ marks.map .element }

/-- The header entry that carries the token. -/
def headerEntry (t : UsernameToken) : HeaderEntry := { block := t.element, mustUnderstand := true }

/-- Checks that a password is in clear text; one that does not say is. -/
def checkPassword (password : Element) : Except TokenError Unit :=
  match password.attribute? "Type" with
  | none => .ok ()
  | some type =>
    if "#PasswordText".toList.isSuffixOf type.toList then .ok () else .error (.passwordType type)

/-- The nonce that an element holds. -/
def readNonce (e : Element) : Except TokenError Bytes :=
  (Base64.decode (Utf8.encode (Text.trim e.text))).mapError .nonce

/-- The time of making that an element holds. -/
def readCreated (e : Element) : Except TokenError Instant :=
  (Instant.parse (Text.trim e.text)).mapError .created

/-- The token that a security header carries, or that the element is itself. -/
def ofElement (e : Element) : Except TokenError UsernameToken := do
  let token ←
    if e.name = "Security" then (e.requireChild "UsernameToken").mapError .field else pure e
  let password ← (token.requireChild "Password").mapError .field
  checkPassword password
  let nonce ← (token.child? "Nonce").mapM readNonce
  let created ← (token.child? "Created").mapM readCreated
  let username ← (token.requireChild "Username").mapError .field
  pure { username := username.text, password := password.text, nonce, created }

end UsernameToken

end SoapMtom.Security
