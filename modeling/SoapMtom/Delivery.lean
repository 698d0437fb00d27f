import SoapMtom.Error
import SoapMtom.Multipart

/-!
# Taking in a message

A message comes as a plain document or as a document with parts beside it, as its content type
tells. Either way a fault in the envelope is a failure of the call. A plain message has no parts
that a reference could name.
-/

namespace SoapMtom

namespace Envelope

/-- The envelope that a document holds, whatever its body reports. References stay as they are. -/
def ofDocument (bs : Bytes) : Except ParseError Envelope := do
  let document ← (Xml.Document.read bs).mapError .document
  (ofRoot document.root).mapError .envelope

/-- The envelope itself, unless it reports a fault. -/
def checkFault (e : Envelope) : Except SoapError Envelope :=
  match e.fault? with
  | some fault => .error (.fault fault)
  | none => .ok e

/-- The envelope of a plain document without references. -/
def ofPlain (bs : Bytes) : Except ParseError Envelope := do
  let document ← (Xml.Document.read bs).mapError .document
  match document.references with
  | r :: _ => throw (.reference (.withoutParts r.href r.path))
  | [] => (ofRoot document.root).mapError .envelope

/-- Takes in a plain message. -/
def receivePlain (bs : Bytes) : Except SoapError Envelope :=
  match ofPlain bs with
  | .ok e => e.checkFault
  | .error cause => .error (.parse cause)

/-- Takes in a message in parts. -/
def receiveMultipart (contentType : String) (bs : Bytes) : Except SoapError Envelope :=
  match Multipart.decode contentType bs with
  | .ok (e, _) => e.checkFault
  | .error cause => .error (.parse cause)

/-- Takes in a message whose content type is known or not. -/
def receive (contentType : Option String) (bs : Bytes) : Except SoapError Envelope :=
  match contentType.filter Multipart.isMultipart with
  | some contentType => receiveMultipart contentType bs
  | none => receivePlain bs

end Envelope

end SoapMtom
