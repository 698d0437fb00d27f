import SoapMtom.Mime.Malformed
import SoapMtom.Security.UsernameToken
import SoapMtom.Xml.Malformed

/-!
# Why a message cannot be read

The causes are those of the layers: the document, the envelope in it, the parts around it, and the
references between the two. A reference is reported with the path of the element that holds it.
-/

namespace SoapMtom

/-- Why the references of a message cannot be followed. -/
inductive ReferenceError where
  /-- The reference is no `cid:` URL. -/
  | unsupported (href path : String)
  /-- No part has that content id. -/
  | dangling (href path : String)
  /-- There are no parts at all. -/
  | withoutParts (href path : String)
deriving DecidableEq, Repr

/-- The wording of the three failures. -/
def ReferenceError.message : ReferenceError → String
  | .unsupported href path => "unsupported XOP href " ++ Text.quote href ++ " at " ++ path
  | .dangling href path => "dangling XOP reference " ++ href ++ " at " ++ path
  | .withoutParts href path =>
    "dangling XOP reference " ++ href ++ " at " ++ path ++ ": message has no attachment parts"

/-- Why a message or a part of it cannot be read. -/
inductive ParseError where
  | document (cause : Xml.Malformed)
  | envelope (cause : EnvelopeError)
  | parts (cause : Mime.Malformed)
  | reference (cause : ReferenceError)
  | field (cause : Xml.FieldError)
  | token (cause : Security.TokenError)
  /-- Every boundary that was drawn occurs in the message. -/
  | noFreeBoundary
deriving DecidableEq, Repr

/-- The wording of all these failures. -/
def ParseError.message : ParseError → String
  | .document cause => cause.message
  | .envelope cause => cause.message
  | .parts cause => cause.message
  | .reference cause => cause.message
  | .field cause => cause.message
  | .token cause => cause.message
  | .noFreeBoundary =>
    "could not generate a multipart boundary absent from the message content"

end SoapMtom
