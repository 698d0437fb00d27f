import SoapMtom.Xml.Name
import SoapMtom.Xml.TagContent

/-!
# Prefixes and what they stand for

Attributes called `xmlns` or `xmlns:p` bind the default namespace or a prefix for the element that
carries them and everything inside. The binding made last counts. Two prefixes are reserved: `xml`
keeps its meaning and shares it with no other, and `xmlns` cannot be bound at all.
-/

namespace SoapMtom.Xml

/-- A namespace bound to a prefix, or to none. The namespace is kept as it is written. -/
structure Binding where
  namePrefix : Option Bytes
  uri : Bytes
deriving DecidableEq, Repr

/-- The bindings in force at some place, the one made last in front. -/
abbrev Bindings := List Binding

/-- The part of a name before its first colon, if it has one, and the part after it. -/
def splitName (name : Bytes) : Option Bytes × Bytes :=
  match name.dropWhile (· != 58) with
  | [] => (none, name)
  | _ :: localName => (some (name.takeWhile (· != 58)), localName)

/-- What an attribute key declares: nothing, the default namespace, or a prefix. -/
inductive Declared where
  | nothing
  | defaultNamespace
  | namePrefix (p : Bytes)
deriving DecidableEq, Repr

/-- What an attribute of that key declares. -/
def declaredBy (key : Bytes) : Declared :=
  match Bytes.dropPrefix? (Utf8.encode "xmlns") key with
  | none => .nothing
  | some [] => .defaultNamespace
  | some (58 :: p) => .namePrefix p
  | some (_ :: _) => .nothing

namespace Bindings

/-- The two bindings that need no declaration. -/
def reserved : Bindings :=
  [{ namePrefix := some (Utf8.encode "xmlns"), uri := Utf8.encode xmlnsNamespace },
    { namePrefix := some (Utf8.encode "xml"), uri := Utf8.encode xmlNamespace }]

/-- The bindings after one more attribute. A prefix without letters counts as none. -/
def declare (bindings : Bindings) (a : RawAttribute) : Except MarkupError Bindings :=
  match declaredBy a.key with
  | .nothing => .ok bindings
  | .defaultNamespace => .ok ({ namePrefix := none, uri := a.value } :: bindings)
  | .namePrefix p =>
    if p = Utf8.encode "xml" then
      if a.value = Utf8.encode xmlNamespace then .ok bindings
      else .error (.reservedBinding p a.value)
    else if p = Utf8.encode "xmlns" then .error (.reservedBinding p a.value)
    else if a.value = Utf8.encode xmlNamespace || a.value = Utf8.encode xmlnsNamespace then
      .error (.reservedBinding p a.value)
    else
      .ok ({ namePrefix := if p.isEmpty then none else some p, uri := a.value } :: bindings)

/-- The bindings inside a tag: those around it and its own, up to the first fault in the tag. -/
def enter (bindings : Bindings) (tag : Bytes) : Except MarkupError Bindings :=
  (tagAttributes false tag).attributes.foldlM declare bindings

/-- The namespace that a prefix stands for, empty when there is none. Only the default namespace
can be empty: a prefix that stands for nothing is an error. -/
def resolve (bindings : Bindings) (namePrefix : Option Bytes) : Except Bytes Bytes :=
  match bindings.find? (·.namePrefix = namePrefix), namePrefix with
  | some b, some p => if b.uri.isEmpty then .error p else .ok b.uri
  | some b, none => .ok b.uri
  | none, some p => .error p
  | none, none => .ok []

end Bindings

end SoapMtom.Xml
