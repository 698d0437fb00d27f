import SoapMtom.Xml.Writing

/-!
# Faults

A fault says that a service could not do what it was asked. SOAP 1.1 and SOAP 1.2 write the same
four parts under different names and at different depths; `Fault.element` writes either form and
`Fault.ofElement?` reads both.
-/

namespace SoapMtom

/-- The version of SOAP in which a fault is written. -/
inductive FaultVersion where
  | soap11
  | soap12
deriving DecidableEq, Repr

/-- The namespace of the envelopes of that version. -/
def FaultVersion.ns : FaultVersion → String
  | .soap11 => Xml.soap11
  | .soap12 => Xml.soap12

/-- What a service reports instead of an answer. -/
structure Fault where
  /-- Whose mistake it was, as a qualified name. -/
  code : String
  /-- The explanation for people. -/
  reason : String
  /-- Who on the way of the message reports it. -/
  actor : Option String := none
  /-- The element with the particulars, as it stands. -/
  detail : Option Xml.Element := none
deriving DecidableEq, Repr

namespace Fault

open Xml (Element)

/-- Code and explanation on one line. -/
def describe (f : Fault) : String := "[" ++ f.code ++ "] " ++ f.reason

/-- The child elements that exist only where there is something to say. -/
def optionalChildren (f : Fault) (actorElement : String → Element) : List Xml.Node :=
  (f.actor.map actorElement).toList.map .element ++ f.detail.toList.map .element

/-- The fault as the payload of a SOAP 1.1 body. -/
def element11 (f : Fault) : Element :=
  let fault := (Element.qualified Xml.soap11 "Fault").withTextChild "faultcode" f.code
  let fault := fault.withTextChild "faultstring" f.reason
  let actor (s : String) := (Element.named "faultactor").withText s
  { fault with children := fault.children ++ f.optionalChildren actor }

/-- The fault as the payload of a SOAP 1.2 body. The explanation is said to be in English. -/
def element12 (f : Fault) : Element :=
  let q := Element.qualified Xml.soap12
  let code := (q "Code").withChild ((q "Value").withText f.code)
  let text := (q "Text").withNamespacedAttribute Xml.xmlNamespace "lang" "en"
  let reason := (q "Reason").withChild (text.withText f.reason)
  let fault := ((q "Fault").withChild code).withChild reason
  let actor (s : String) := (q "Role").withText s
  { fault with children := fault.children ++ f.optionalChildren actor }

/-- The fault as the payload of a body of that version. -/
def element (f : Fault) : FaultVersion → Element
  | .soap11 => f.element11
  | .soap12 => f.element12

/-- The envelope around the fault. -/
def envelopeElement (f : Fault) (version : FaultVersion) : Element :=
  (Element.qualified version.ns "Envelope").withChild
    ((Element.qualified version.ns "Body").withChild (f.element version))

/-- The whole document with which a service of that version reports the fault. -/
def toDocument (f : Fault) (version : FaultVersion) : String :=
  (f.envelopeElement version).toDocument .inlined

/-- The fault that a payload in the form of SOAP 1.1 reports. -/
def ofElement11 (body : Element) : Fault :=
  { code := (body.childText? "faultcode").getD ""
    reason := (body.childText? "faultstring").getD ""
    actor := body.childText? "faultactor"
    detail := body.child? "detail" }

/-- The fault that a payload in the form of SOAP 1.2 reports; `code` is its child of that name. -/
def ofElement12 (body code : Element) : Fault :=
  { code := (code.childText? "Value").getD ""
    reason := ((body.child? "Reason").bind (·.childText? "Text")).getD ""
    actor := body.childText? "Role"
    detail := body.child? "Detail" }

/-- The fault that a payload reports: one is called `Fault`, in the namespace of an envelope. The
form of SOAP 1.2 is known by its child `Code`. -/
def ofElement? (body : Element) : Option Fault :=
  if body.name = "Fault" && (body.ns = some Xml.soap11 || body.ns = some Xml.soap12) then
    match body.child? "Code" with
    | some code => some (ofElement12 body code)
    | none => some (ofElement11 body)
  else none

end Fault

end SoapMtom
