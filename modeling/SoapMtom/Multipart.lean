import SoapMtom.Mime.MediaType
import SoapMtom.Mime.Part
import SoapMtom.ParseError
import SoapMtom.Xml.Document

/-!
# Envelopes with their attachments beside them

`Multipart.encode` writes an envelope as a message in parts: the envelope first, with references in
the places of its attachments, and then each attachment as it is. `Multipart.decode` reads such a
message and puts every attachment back into the places that refer to it; a reference that nothing
answers fails the whole message.
-/

namespace SoapMtom.Multipart

open Xml (Element Node)

/-- The media type of the part that holds the envelope. -/
def rootType : String := "application/xop+xml"

/-- The media type of the envelope itself. -/
def envelopeType : String := "text/xml"

/-- The longest boundary in bytes. -/
def maxBoundaryLength : Nat := 70

/-- How many boundaries are tried before giving up. -/
def boundaryAttempts : Nat := 8

/-- A message ready to be sent. -/
structure Message where
  contentType : String
  body : Bytes
deriving DecidableEq, Repr

/-! ## Writing -/

/-- The boundary made of an identifier. -/
def boundaryOf (id : Uuid) : String := "MIMEBoundary_" ++ id.simple

/-- Whether the boundary occurs in the envelope or in the bytes of an attachment. -/
def collides (xml : Bytes) (attachments : List Attachment) (boundary : String) : Bool :=
  let pattern := Utf8.encode boundary
  Bytes.occursIn pattern xml || attachments.any (Bytes.occursIn pattern ·.data)

/-- Which of the identifiers makes the boundary: the first one whose boundary does not occur in what
it has to hold apart. -/
def freeBoundary? (ids : IdStream) (xml : Bytes) (attachments : List Attachment) : Option Nat :=
  (List.range boundaryAttempts).find? fun n => !collides xml attachments (boundaryOf (ids n))

/-- A part with these three fields in its header. -/
def partOf (type encoding id : String) (content : Bytes) : Bytes :=
  Utf8.encode ("Content-Type: " ++ type ++ "\r\nContent-Transfer-Encoding: " ++ encoding ++
    "\r\nContent-ID: <" ++ id ++ ">\r\n\r\n") ++ content

/-- The part that holds the envelope. -/
def rootPart (id : String) (xml : Bytes) : Bytes :=
  partOf (rootType ++ "; charset=UTF-8; type=\"" ++ envelopeType ++ "\"") "8bit" id xml

/-- The part that holds an attachment. -/
def attachmentPart (a : Attachment) : Bytes := partOf a.contentType "binary" a.contentId a.data

/-- The content type of a message with that boundary and that root part. -/
def messageType (boundary id : String) : String :=
  "multipart/related; type=\"" ++ rootType ++ "\"; boundary=\"" ++ boundary ++ "\"; start=\"<" ++
    id ++ ">\"; start-info=\"" ++ envelopeType ++ "\""

/-- Writes an envelope and its attachments. Identifiers are drawn for the boundary, one for each
that is tried, and then for the root part. -/
def encode (ids : IdStream) (envelope : Envelope) : Except ParseError Message :=
  let xml := Utf8.encode (envelope.toDocument .referenced)
  let attachments := envelope.attachments
  match freeBoundary? ids xml attachments with
  | none => .error .noFreeBoundary
  | some n =>
    let boundary := boundaryOf (ids n)
    let id := freshContentId (ids (n + 1))
    .ok
      { contentType := messageType boundary id
        body := Mime.Framing.join boundary (rootPart id xml :: attachments.map attachmentPart) }

/-! ## Reading -/

/-- Whether a content type is one of a message in parts. -/
def isMultipart (contentType : String) : Bool := (Mime.MediaType.parse contentType).isMultipart

/-- The boundary that a content type gives. -/
def boundary (media : Mime.MediaType) : Except Mime.Malformed String :=
  if !media.isMultipart then .error (.notMultipart media.essence)
  else
    match media.parameter? "boundary" with
    | none => .error .noBoundary
    | some boundary =>
      if boundary.isEmpty || maxBoundaryLength < boundary.utf8ByteSize ||
          boundary.toList.any (fun c => c = '\r' || c = '\n') then
        .error (.badBoundary boundary)
      else .ok boundary

/-- The place of the root part: it has the content id that `start` names, or it comes first. -/
def rootPlace (media : Mime.MediaType) (parts : List Mime.Part) : Except Mime.Malformed Nat :=
  match media.parameter? "start" with
  | none => .ok 0
  | some start =>
    let id := String.ofList (Mime.withoutBrackets start.toList)
    match parts.findIdx? (·.contentId? = some id) with
    | some n => .ok n
    | none => .error (.noStart id)

/-- The parts of a message, the root part first. -/
def parts (media : Mime.MediaType) (body : Bytes) :
    Except Mime.Malformed (Mime.Part × List Mime.Part) := do
  let boundary ← boundary media
  let raw ← Mime.Framing.split boundary body
  let parts ← raw.mapM Mime.Part.read
  let n ← rootPlace media parts
  match parts[n]? with
  | some root => pure (root, parts.eraseIdx n)
  | none => throw .noParts

/-- The attachment in a part; a part without a content id holds none. -/
def attachmentOf (p : Mime.Part) : Except Mime.Malformed (Option Attachment) :=
  match p.contentId? with
  | none => .ok none
  | some contentId => do
    let data ← p.content
    let contentType := (p.field? "content-type").getD defaultContentType
    pure (some { data, contentType, contentId })

/-- The attachments in the parts, in order. -/
def attachmentsOf (parts : List Mime.Part) : Except Mime.Malformed (List Attachment) :=
  (parts.mapM attachmentOf).map (·.filterMap id)

/-- The attachment of that content id; the last one that carries it counts. -/
def find? (attachments : List Attachment) (id : String) : Option Attachment :=
  attachments.reverse.find? (·.contentId = id)

/-- The attachment that a reference names. -/
def target? (attachments : List Attachment) (href : String) : Option Attachment :=
  (ContentId.ofReference? href).bind (find? attachments)

/-- Checks that a reference names an attachment. -/
def checkReference (attachments : List Attachment) (r : Xml.Reference) :
    Except ReferenceError Unit :=
  match ContentId.ofReference? r.href with
  | none => .error (.unsupported r.href r.path)
  | some id =>
    match find? attachments id with
    | some _ => .ok ()
    | none => .error (.dangling r.href r.path)

mutual

/-- The tree with attachments in the places that refer to them. -/
def resolve (attachments : List Attachment) : Element → Element
  | ⟨ns, name, attributes, children⟩ =>
    { ns, name, attributes, children := resolveAll attachments children }

/-- The nodes with attachments in the places that refer to them. -/
def resolveAll (attachments : List Attachment) : List Node → List Node
  | [] => []
  | .element e :: rest => .element (resolve attachments e) :: resolveAll attachments rest
  | .reference href :: rest =>
    (match target? attachments href with
    | some a => .attachment a
    | none => .reference href) :: resolveAll attachments rest
  | .text s :: rest => .text s :: resolveAll attachments rest
  | .attachment a :: rest => .attachment a :: resolveAll attachments rest

end

/-- Reads a message: its envelope, with the attachments in their places, and all attachments in the
order of their parts. -/
def decode (contentType : String) (body : Bytes) :
    Except ParseError (Envelope × List Attachment) := do
  let (root, others) ← (parts (Mime.MediaType.parse contentType) body).mapError .parts
  let xml ← root.content.mapError .parts
  let document ← (Xml.Document.read xml).mapError .document
  let attachments ← (attachmentsOf others).mapError .parts
  (document.references.forM (checkReference attachments)).mapError .reference
  let envelope ← (Envelope.ofRoot (resolve attachments document.root)).mapError .envelope
  pure (envelope, attachments)

end SoapMtom.Multipart
