import SoapMtom.Http.Header

/-!
# Requests and responses

What a transport takes and what it gives back. A transport is whatever turns the one into the other;
the library never looks behind it.
-/

namespace SoapMtom.Http

/-- A request to post. -/
structure Request where
  url : String
  headers : Headers
  body : Bytes
deriving DecidableEq, Repr

/-- A response as it was received. -/
structure Response where
  status : Nat
  headers : Headers
  body : Bytes
deriving DecidableEq, Repr

namespace Response

/-- Whether the status reports success. -/
def isSuccess (r : Response) : Bool := 200 ≤ r.status && r.status < 300

/-- The content type, if there is one that is text. -/
def contentType? (r : Response) : Option String := (r.headers.get? "content-type").bind valueText?

end Response

end SoapMtom.Http
