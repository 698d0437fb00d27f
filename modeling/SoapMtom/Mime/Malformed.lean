import SoapMtom.Base64
import SoapMtom.Text.Quoted
import SoapMtom.Text.Utf8

/-!
# Why a message in parts cannot be taken apart

The causes run from the outside in: the media type, the lines that separate the parts, the header
of a part, its content, and the choice of the part that holds the envelope.
-/

namespace SoapMtom.Mime

/-- What is wrong with a message in parts. -/
inductive Malformed where
  | notMultipart (essence : String)
  | noBoundary
  | badBoundary (boundary : String)
  /-- No line starts with the boundary. -/
  | boundaryAbsent
  /-- The input ends on the line of a boundary. -/
  | truncated
  /-- The last part is not closed. -/
  | unclosed
  | noParts
  | headerUnterminated
  | headerNotText (cause : Utf8.Malformed)
  | badHeader (line : String)
  | notBase64 (cause : Base64.Malformed)
  | unknownEncoding (name : String)
  | noStart (id : String)
deriving DecidableEq, Repr

/-- The wording of these failures. -/
def Malformed.message : Malformed → String
  | .notMultipart essence => "expected a multipart content type, got " ++ Text.quote essence
  | .noBoundary => "multipart content type has no boundary"
  | .badBoundary boundary => "malformed multipart boundary " ++ Text.quote boundary
  | .boundaryAbsent => "multipart body does not contain the boundary"
  | .truncated => "truncated multipart body"
  | .unclosed => "multipart body is missing its closing boundary"
  | .noParts => "multipart body has no parts"
  | .headerUnterminated => "MIME part has no header terminator"
  | .headerNotText cause => "MIME part headers are not UTF-8: " ++ cause.message
  | .badHeader line => "malformed MIME header " ++ Text.quote line
  | .notBase64 cause => "invalid base64 MIME part: " ++ cause.message
  | .unknownEncoding name => "unsupported Content-Transfer-Encoding " ++ Text.quote name
  | .noStart id => "no part matches the start id <" ++ id ++ ">"

end SoapMtom.Mime
