import SoapMtom.Base64
import SoapMtom.ContentId
import SoapMtom.Xml.Element
import SoapMtom.Xml.Markup

/-!
# Writing an element tree

Elements of the envelope namespaces and of XOP take a prefix; every other element is written in the
default namespace, which is declared where it changes. Attributes in a namespace take a prefix, the
one already bound to it or a new one: the well-known prefix, or `ns1`, `ns2`, … counted through the
whole document.

Attachments are written in one of two forms: their bytes as base64 text, with the media type in an
attribute of the element that holds them, or a reference by content id.
-/

namespace SoapMtom.Xml

/-- How attachments are written. -/
inductive AttachmentForm where
  /-- As base64 text. -/
  | inlined
  /-- As a reference to bytes that travel elsewhere. -/
  | referenced
deriving DecidableEq, Repr

/-- What is declared at some place: the default namespace, and prefixes with their namespaces, the
one declared last in front. -/
structure Scope where
  defaultNamespace : String := ""
  prefixes : List (String × String) := []
deriving DecidableEq, Repr

/-- The prefix declared last for a namespace. -/
def Scope.prefixFor? (scope : Scope) (ns : String) : Option String :=
  (scope.prefixes.find? (·.2 = ns)).map (·.1)

/-- A tag in the making: what is declared inside it, the declarations it makes itself, in order, and
how many prefixes have been made up so far. -/
structure TagScope where
  scope : Scope
  declared : List (String × String)
  generated : Nat
deriving DecidableEq, Repr

namespace TagScope

/-- Declares a prefix for a namespace. -/
def declare (t : TagScope) (namePrefix ns : String) : TagScope :=
  { t with
    scope := { t.scope with prefixes := (namePrefix, ns) :: t.scope.prefixes }
    declared := t.declared ++ [("xmlns:" ++ namePrefix, ns)] }

/-- A prefix for the namespace, declared now if there is none yet. -/
def bindPrefix (t : TagScope) (ns : String) : String × TagScope :=
  if ns = xmlNamespace then ("xml", t)
  else
    match t.scope.prefixFor? ns with
    | some namePrefix => (namePrefix, t)
    | none =>
      match wellKnownPrefix? ns with
      | some namePrefix => (namePrefix, t.declare namePrefix ns)
      | none =>
        let namePrefix := "ns" ++ toString (t.generated + 1)
        (namePrefix, { t with generated := t.generated + 1 }.declare namePrefix ns)

/-- A name with the prefix of its namespace. -/
def bindName (t : TagScope) (ns name : String) : String × TagScope :=
  let (namePrefix, t) := t.bindPrefix ns
  (namePrefix ++ ":" ++ name, t)

/-- The name of an element, in a namespace of its own or in the one handed down. -/
def bindElement (t : TagScope) (ns : Option String) (name : String) : String × TagScope :=
  match ns with
  | none => (name, t)
  | some ns =>
    if isPrefixed ns then t.bindName ns name
    else if ns = t.scope.defaultNamespace then (name, t)
    else
      (name,
        { t with
          scope := { t.scope with defaultNamespace := ns }
          declared := t.declared ++ [("xmlns", ns)] })

/-- The attributes under the names that they are written with. -/
def bindAttributes (t : TagScope) : List Attribute → List (String × String) × TagScope
  | [] => ([], t)
  | a :: rest =>
    let (name, t) :=
      match a.ns with
      | none => (a.name, t)
      | some ns => t.bindName ns a.name
    let (others, t) := t.bindAttributes rest
    ((name, a.value) :: others, t)

end TagScope

/-- A tag ready to be written, and what is declared inside it. -/
structure Tag where
  name : String
  attributes : List (String × String)
  scope : Scope
  generated : Nat
deriving DecidableEq, Repr

/-- The media type to note on an element: that of its first attachment, when the bytes are inlined
and no attribute gives it already. -/
def contentTypeToNote (form : AttachmentForm) (attributes : List Attribute)
    (children : List Node) : Option String :=
  if form = .inlined then
    if attributes.any (fun a => a.name = "contentType" && a.ns = some xmime) then none
    else (children.findSome? Node.attachment?).map (·.contentType)
  else none

/-- The tag of an element: first the declarations it needs, then its attributes. -/
def openTag (form : AttachmentForm) (scope : Scope) (generated : Nat) (ns : Option String)
    (name : String) (attributes : List Attribute) (children : List Node) : Tag :=
  let t : TagScope := { scope, declared := [], generated }
  let (tagName, t) := t.bindElement ns name
  let (written, t) := t.bindAttributes attributes
  match contentTypeToNote form attributes children with
  | none =>
    { name := tagName
      attributes := t.declared ++ written
      scope := t.scope
      generated := t.generated }
  | some contentType =>
    let (noteName, t) := t.bindName xmime "contentType"
    { name := tagName
      attributes := t.declared ++ written ++ [(noteName, contentType)]
      scope := t.scope
      generated := t.generated }

/-- A reference to an attachment, and how many prefixes have been made up after it. -/
def writeReference (form : AttachmentForm) (scope : Scope) (generated : Nat) (href : String) :
    List Markup × Nat :=
  let tag := openTag form scope generated (some xop) "Include"
    [{ name := "href", value := href }] []
  ([.empty tag.name tag.attributes], tag.generated)

/-- The reference by which an attachment is found again. -/
def attachmentHref (a : Attachment) : String := "cid:" ++ ContentId.encode a.contentId

mutual

/-- The markup of an element under the declarations of `scope`, when so many prefixes have been
made up before, and how many there are after it. -/
def Element.write (form : AttachmentForm) (scope : Scope) (generated : Nat) :
    Element → List Markup × Nat
  | ⟨ns, name, attributes, children⟩ =>
    let tag := openTag form scope generated ns name attributes children
    if children.isEmpty then ([.empty tag.name tag.attributes], tag.generated)
    else
      let (inside, generated) := Node.writeAll form tag.scope tag.generated children
      (.start tag.name tag.attributes :: inside ++ [.stop tag.name], generated)

/-- The markup of nodes, in order. -/
def Node.writeAll (form : AttachmentForm) (scope : Scope) (generated : Nat) :
    List Node → List Markup × Nat
  | [] => ([], generated)
  | .element e :: rest =>
    let (first, generated) := e.write form scope generated
    let (others, generated) := Node.writeAll form scope generated rest
    (first ++ others, generated)
  | .text s :: rest =>
    let (others, generated) := Node.writeAll form scope generated rest
    (.text s :: others, generated)
  | .attachment a :: rest =>
    let (first, generated) :=
      match form with
      | .inlined => ([.text (Base64.encodeText a.data)], generated)
      | .referenced => writeReference form scope generated (attachmentHref a)
    let (others, generated) := Node.writeAll form scope generated rest
    (first ++ others, generated)
  | .reference href :: rest =>
    let (first, generated) := writeReference form scope generated href
    let (others, generated) := Node.writeAll form scope generated rest
    (first ++ others, generated)

end

namespace Element

/-- The markup of an element that stands on its own. -/
def markup (form : AttachmentForm) (e : Element) : List Markup := (e.write form {} 0).1

/-- The element as text, its attachments inlined. -/
def toXml (e : Element) : String := Markup.renderAll (e.markup .inlined)

/-- The element as a whole document, with the declaration in front. -/
def toDocument (form : AttachmentForm) (e : Element) : String :=
  Markup.renderAll (.declaration :: e.markup form)

end Element

end SoapMtom.Xml
