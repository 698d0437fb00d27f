import SoapMtom.Attachment
import SoapMtom.Xml.Name

/-!
# Element trees

An `Element` has attributes and child nodes; a `Node` is an element, a text, an attachment, or a
reference to an attachment that is not yet resolved. An element without a namespace of its own lives
in the default namespace that its parent hands down.

The first part builds trees and asks them for their parts. The second part checks the names of a
tree and brings it into the form in which it is read back: `normalize` drops every namespace that
repeats the one handed down, and every empty text.
-/

namespace SoapMtom.Xml

/-- An attribute. One without a prefix has no namespace. -/
structure Attribute where
  ns : Option String := none
  name : String
  value : String
deriving DecidableEq, Repr

mutual

/-- An element with its attributes and child nodes, in document order. -/
structure Element where
  /-- The namespace, or `none` to live in the default namespace of the parent. -/
  ns : Option String := none
  /-- The local name. -/
  name : String
  attributes : List Attribute := []
  children : List Node := []

/-- A child of an element. -/
inductive Node where
  | element (e : Element)
  | text (s : String)
  /-- Bytes that stand at this place. -/
  | attachment (a : Attachment)
  /-- A reference to bytes elsewhere, as it was written. -/
  | reference (href : String)

end

deriving instance Repr for Element, Node

mutual

/-- Equality of elements is decided part by part. -/
def Element.decEq : (a b : Element) → Decidable (a = b)
  | ⟨ns₁, name₁, attributes₁, children₁⟩, ⟨ns₂, name₂, attributes₂, children₂⟩ =>
    if h : ns₁ = ns₂ ∧ name₁ = name₂ ∧ attributes₁ = attributes₂ then
      match Node.decEqList children₁ children₂ with
      | isTrue hc => isTrue (by obtain ⟨rfl, rfl, rfl⟩ := h; rw [hc])
      | isFalse hc => isFalse (by simp [hc])
    else isFalse (by
      intro he
      injection he with h₁ h₂ h₃
      exact h ⟨h₁, h₂, h₃⟩)

/-- Equality of nodes is decided by their kind and content. -/
def Node.decEq : (a b : Node) → Decidable (a = b)
  | .element e, .element f =>
    match Element.decEq e f with
    | isTrue h => isTrue (by rw [h])
    | isFalse h => isFalse (by simp [h])
  | .text s, .text t =>
    if h : s = t then isTrue (by rw [h]) else isFalse (by simp [h])
  | .attachment a, .attachment b =>
    if h : a = b then isTrue (by rw [h]) else isFalse (by simp [h])
  | .reference s, .reference t =>
    if h : s = t then isTrue (by rw [h]) else isFalse (by simp [h])
  | .element _, .text _ | .element _, .attachment _ | .element _, .reference _
  | .text _, .element _ | .text _, .attachment _ | .text _, .reference _
  | .attachment _, .element _ | .attachment _, .text _ | .attachment _, .reference _
  | .reference _, .element _ | .reference _, .text _ | .reference _, .attachment _ =>
    isFalse (by simp)

/-- Equality of lists of nodes is decided node by node. -/
def Node.decEqList : (as bs : List Node) → Decidable (as = bs)
  | [], [] => isTrue rfl
  | [], _ :: _ => isFalse (by simp)
  | _ :: _, [] => isFalse (by simp)
  | a :: as, b :: bs =>
    match Node.decEq a b, Node.decEqList as bs with
    | isTrue h, isTrue hs => isTrue (by rw [h, hs])
    | isFalse h, _ => isFalse (by simp [h])
    | _, isFalse hs => isFalse (by simp [hs])

end

instance : DecidableEq Element := Element.decEq

instance : DecidableEq Node := Node.decEq

namespace Node

/-- The element, if the node is one. -/
def element? : Node → Option Element
  | .element e => some e
  | _ => none

/-- The text, if the node is one. -/
def text? : Node → Option String
  | .text s => some s
  | _ => none

/-- The attachment, if the node is one. -/
def attachment? : Node → Option Attachment
  | .attachment a => some a
  | _ => none

/-- Whether the node is text. -/
def isText (n : Node) : Bool := n.text?.isSome

/-- Whether the node is a reference to an attachment. -/
def isReference : Node → Bool
  | .reference _ => true
  | _ => false

/-- Whether the node is a text without characters. -/
def isEmptyText : Node → Bool
  | .text s => s.isEmpty
  | _ => false

end Node

namespace Element

/-! ## Building -/

/-- An element in the default namespace of its parent. -/
def named (name : String) : Element := { name }

/-- An element in a namespace of its own. -/
def qualified (ns name : String) : Element := { ns := some ns, name }

/-- Sets an attribute in a list: the first one of that namespace and name takes the value, and if
there is none the attribute comes last. -/
def assign (a : Attribute) : List Attribute → List Attribute
  | [] => [a]
  | b :: rest =>
    if b.name = a.name ∧ b.ns = a.ns then { b with value := a.value } :: rest
    else b :: assign a rest

/-- The element with the attribute set. -/
def setAttribute (e : Element) (ns : Option String) (name value : String) : Element :=
  { e with attributes := assign { ns, name, value } e.attributes }

/-- The element with an attribute that has no namespace. -/
def withAttribute (e : Element) (name value : String) : Element := e.setAttribute none name value

/-- The element with an attribute in a namespace. -/
def withNamespacedAttribute (e : Element) (ns name value : String) : Element :=
  e.setAttribute (some ns) name value

/-- The element with one more child node. -/
def push (e : Element) (n : Node) : Element := { e with children := e.children ++ [n] }

/-- The element with one more child element. -/
def withChild (e child : Element) : Element := e.push (.element child)

/-- The element with more text; the empty text adds nothing. -/
def withText (e : Element) (s : String) : Element := if s.isEmpty then e else e.push (.text s)

/-- The element with an attachment as its next child. -/
def withAttachment (e : Element) (a : Attachment) : Element := e.push (.attachment a)

/-- The element with a child element that holds a text. -/
def withTextChild (e : Element) (name s : String) : Element := e.withChild ((named name).withText s)

/-! ## Asking -/

/-- The child elements. -/
def elements (e : Element) : List Element := e.children.filterMap Node.element?

/-- The first child element of that local name. -/
def child? (e : Element) (name : String) : Option Element := e.elements.find? (·.name = name)

/-- The child elements of that local name. -/
def childrenNamed (e : Element) (name : String) : List Element :=
  e.elements.filter (·.name = name)

/-- The element's own texts, joined; those of its descendants do not count. -/
def text (e : Element) : String := String.join (e.children.filterMap Node.text?)

/-- The text of the first child element of that local name. -/
def childText? (e : Element) (name : String) : Option String := (e.child? name).map text

/-- The value of the first attribute of that local name, whatever its namespace. -/
def attribute? (e : Element) (name : String) : Option String :=
  (e.attributes.find? (·.name = name)).map (·.value)

/-- The first attachment among the child nodes. -/
def attachment? (e : Element) : Option Attachment := e.children.findSome? Node.attachment?

end Element

mutual

/-- Every attachment of the tree, in document order. -/
def Element.attachments : Element → List Attachment
  | ⟨_, _, _, children⟩ => Node.attachmentsOf children

/-- Every attachment in the nodes and below them, in document order. -/
def Node.attachmentsOf : List Node → List Attachment
  | [] => []
  | .element e :: rest => e.attachments ++ Node.attachmentsOf rest
  | .attachment a :: rest => a :: Node.attachmentsOf rest
  | .text _ :: rest => Node.attachmentsOf rest
  | .reference _ :: rest => Node.attachmentsOf rest

end

/-! ## Checking names -/

/-- A name that cannot be written. -/
inductive InvalidName where
  | element (name : String)
  | attribute (name owner : String)
deriving DecidableEq, Repr

/-- The wording of the two failures. -/
def InvalidName.message : InvalidName → String
  | .element name => "invalid element name " ++ Text.quote name
  | .attribute name owner =>
    "invalid attribute name " ++ Text.quote name ++ " on <" ++ owner ++ ">"

/-- Checks the names of an element and of its attributes, in that order. -/
def checkNames (name : String) (attributes : List Attribute) : Except InvalidName Unit :=
  if isName name then
    match attributes.find? (fun a => !isName a.name) with
    | some a => .error (.attribute a.name name)
    | none => .ok ()
  else .error (.element name)

mutual

/-- Checks every name of the tree, an element before its children; the first bad one is reported. -/
def Element.validate : Element → Except InvalidName Unit
  | ⟨_, name, attributes, children⟩ =>
    match checkNames name attributes with
    | .ok () => Node.validateAll children
    | .error e => .error e

/-- Checks every name in the nodes, in document order. -/
def Node.validateAll : List Node → Except InvalidName Unit
  | [] => .ok ()
  | .element e :: rest =>
    match e.validate with
    | .ok () => Node.validateAll rest
    | .error e => .error e
  | .text _ :: rest => Node.validateAll rest
  | .attachment _ :: rest => Node.validateAll rest
  | .reference _ :: rest => Node.validateAll rest

end

/-! ## The form in which a tree is read back -/

/-- The default namespace that an element hands down to its children: its own, unless it inherits
one or is written with a prefix. -/
def handedDown (ns : Option String) (inherited : String) : String :=
  match ns with
  | some ns => if isPrefixed ns then inherited else ns
  | none => inherited

/-- The element's namespace without one that only repeats the default namespace. -/
def ownNamespace (ns : Option String) (inherited : String) : Option String :=
  match ns with
  | some ns => if !isPrefixed ns && ns = inherited then none else some ns
  | none => none

mutual

/-- The tree without namespaces that repeat the one handed down, and without empty texts.
`inherited` is the default namespace at the place of the element. -/
def Element.normalize (inherited : String) : Element → Element
  | ⟨ns, name, attributes, children⟩ =>
    { ns := ownNamespace ns inherited
      name
      attributes
      children := Node.normalizeAll (handedDown ns inherited) children }

/-- The nodes in that form. -/
def Node.normalizeAll (inherited : String) : List Node → List Node
  | [] => []
  | .element e :: rest => .element (e.normalize inherited) :: Node.normalizeAll inherited rest
  | .text s :: rest =>
    if s.isEmpty then Node.normalizeAll inherited rest
    else .text s :: Node.normalizeAll inherited rest
  | .attachment a :: rest => .attachment a :: Node.normalizeAll inherited rest
  | .reference href :: rest => .reference href :: Node.normalizeAll inherited rest

end

end SoapMtom.Xml
