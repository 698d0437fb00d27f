import SoapMtom.Text.Quoted
import SoapMtom.Uuid

/-!
# Attachments

An attachment is a run of bytes with a media type and a content id, by which an envelope refers to
it. The bytes and the id stay as they are made; the media type may be set later.
-/

namespace SoapMtom

/-- The media type of bytes of which nothing is said. -/
def defaultContentType : String := "application/octet-stream"

/-- What stands after the digits of a content id drawn at random. -/
def contentIdSuffix : String := "@zentinel-soap"

/-- The content id made of a fresh identifier. -/
def freshContentId (id : Uuid) : String := id.simple ++ contentIdSuffix

/-- Bytes that travel beside an envelope. -/
structure Attachment where
  data : Bytes
  contentType : String := defaultContentType
  /-- The content id, without angle brackets. -/
  contentId : String
deriving DecidableEq, Repr

namespace Attachment

/-- An attachment of the default media type, with a fresh content id. -/
def fresh (id : Uuid) (data : Bytes) : Attachment := { data, contentId := freshContentId id }

/-- The same bytes under the same id, with another media type. -/
def withContentType (a : Attachment) (contentType : String) : Attachment := { a with contentType }

/-- The number of bytes. -/
def size (a : Attachment) : Nat := a.data.length

/-- Whether there are no bytes. -/
def isEmpty (a : Attachment) : Bool := a.data.isEmpty

/-- A description that leaves the bytes out. -/
def describe (a : Attachment) : String :=
  "Binary \x7b content_id: " ++ Text.quote a.contentId ++ ", content_type: " ++
    Text.quote a.contentType ++ ", len: " ++ toString a.size ++ " \x7d"

end Attachment

end SoapMtom
