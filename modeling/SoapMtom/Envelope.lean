import SoapMtom.Fault

/-!
# Envelopes

An envelope carries header blocks and one payload. `Envelope.ofRoot` finds them in a tree,
`Envelope.toElement` puts them into one; it writes SOAP 1.1 and reads SOAP 1.2 as well.
-/

namespace SoapMtom

open Xml (Element Node)

/-- A header block, and whether the receiver has to understand it. -/
structure HeaderEntry where
  block : Element
  mustUnderstand : Bool := false
deriving DecidableEq, Repr

/-- The header block as it is sent: an attribute tells the receiver that it has to understand it. -/
def HeaderEntry.element (entry : HeaderEntry) : Element :=
  if entry.mustUnderstand then
    entry.block.withNamespacedAttribute Xml.soap11 "mustUnderstand" "1"
  else entry.block

/-- Header blocks, in order, and one payload. -/
structure Envelope where
  headers : List Element
  body : Element
deriving DecidableEq, Repr

/-- Why a tree is no envelope. -/
inductive EnvelopeError where
  | notEnvelope (root : String)
  | emptyBody
  | noBody
deriving DecidableEq, Repr

/-- The wording of the three failures. -/
def EnvelopeError.message : EnvelopeError → String
  | .notEnvelope root => "expected a SOAP Envelope root element, found <" ++ root ++ ">"
  | .emptyBody => "SOAP Body is empty"
  | .noBody => "SOAP Envelope has no Body"

namespace Envelope

/-- What the sections of an envelope have yielded so far. -/
structure Sections where
  headers : List Element := []
  body : Option Element := none
deriving DecidableEq, Repr

/-- Takes in one child of an envelope in the namespace `ns`. A header counts before the body only; a
body's payload is its first child element. Everything else is passed over. -/
def Sections.take (ns : String) (sections : Sections) (part : Element) :
    Except EnvelopeError Sections :=
  if part.ns ≠ some ns then .ok sections
  else if part.name = "Header" && sections.body.isNone then
    .ok { sections with headers := sections.headers ++ part.elements }
  else if part.name = "Body" then
    match part.elements.head? with
    | some payload => .ok { sections with body := some payload }
    | none => .error .emptyBody
  else .ok sections

/-- The namespace of the envelope, if the element is one. -/
def namespace? (root : Element) : Option String :=
  root.ns.filter fun ns => (ns = Xml.soap11 || ns = Xml.soap12) && root.name = "Envelope"

/-- The envelope that a tree describes. -/
def ofRoot (root : Element) : Except EnvelopeError Envelope :=
  match namespace? root with
  | none => .error (.notEnvelope root.name)
  | some ns => do
    let sections ← root.elements.foldlM (Sections.take ns) {}
    match sections.body with
    | some body => pure { headers := sections.headers, body }
    | none => throw .noBody

/-- The fault in the body, if it reports one. -/
def fault? (e : Envelope) : Option Fault := Fault.ofElement? e.body

/-- The attachments of a list, each content id once: the first that carries it stays. -/
def distinctById (found : List Attachment) : List Attachment → List Attachment
  | [] => found
  | a :: rest =>
    if found.any (·.contentId = a.contentId) then distinctById found rest
    else distinctById (found ++ [a]) rest

/-- The attachments of the envelope in document order, each content id once. -/
def attachments (e : Envelope) : List Attachment :=
  distinctById [] ((e.headers ++ [e.body]).flatMap Element.attachments)

/-- Whether there are attachments. -/
def hasAttachments (e : Envelope) : Bool := !e.attachments.isEmpty

/-- The envelope as a tree. Without header blocks there is no header. -/
def toElement (e : Envelope) : Element :=
  let root := Element.qualified Xml.soap11 "Envelope"
  let header : Element :=
    { ns := some Xml.soap11, name := "Header", children := e.headers.map .element }
  let root := if e.headers.isEmpty then root else root.withChild header
  root.withChild ((Element.qualified Xml.soap11 "Body").withChild e.body)

/-- The envelope as a whole document, its attachments in that form. -/
def toDocument (form : Xml.AttachmentForm) (e : Envelope) : String := e.toElement.toDocument form

/-- The envelope as a whole document, its attachments inlined. -/
def toXml (e : Envelope) : String := e.toDocument .inlined

end Envelope

end SoapMtom
