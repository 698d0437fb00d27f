import SoapMtom.Xml.Binding
import SoapMtom.Xml.Element

/-!
# What a document says, tag by tag

An `Event` is a tag or a run of text with its names resolved and its characters read; nothing is
left of prefixes, declarations, quotes, references and CDATA sections. `Event.ofTokens` reads the
events of a document up to the first fault.
-/

namespace SoapMtom.Xml

/-- A start tag, an end tag, or text between tags. -/
inductive Event where
  /-- The namespace is empty for an element that has none. -/
  | start (ns name : String) (attributes : List Attribute)
  | stop
  | text (content : String)
deriving DecidableEq, Repr

/-- An element that is open at some place: its name as written, and the bindings around it. -/
structure OpenTag where
  name : Bytes
  outside : Bindings
deriving DecidableEq, Repr

/-- The bindings at some place of a document, and its open elements, innermost first. -/
structure Scopes where
  bindings : Bindings
  opened : List OpenTag
deriving DecidableEq, Repr

/-- The scopes at the start of a document. -/
def Scopes.initial : Scopes := { bindings := .reserved, opened := [] }

namespace Event

/-- Bytes of a name or namespace as text. -/
def readName (bs : Bytes) : Except Malformed String := (Utf8.decode bs).mapError .name

/-- Bytes with references as text. -/
def readText (bs : Bytes) : Except ReadingError String :=
  match Utf8.decode bs with
  | .error e => .error (.malformed e)
  | .ok s => (resolve s).mapError .reference

/-- The namespace of a name with that prefix, or with none. -/
def readNamespace (bindings : Bindings) (namePrefix : Option Bytes) : Except Malformed String :=
  match bindings.resolve namePrefix with
  | .ok uri => readName uri
  | .error p => .error (.unknownPrefix (Utf8.lossy p))

/-- Whether the attribute declares a namespace, and so is none of the element's own. -/
def isDeclaration (a : RawAttribute) : Bool := declaredBy a.key ≠ .nothing

/-- An attribute of the element called `element`. One without a prefix has no namespace: the default
namespace is for elements only. -/
def readAttribute (bindings : Bindings) (element : String) (a : RawAttribute) :
    Except Malformed Attribute := do
  let (namePrefix, localName) := splitName a.key
  let value ← (readText a.value).mapError (.attributeValue element)
  let ns ←
    match namePrefix with
    | none => pure none
    | some p => some <$> readNamespace bindings (some p)
  let name ← readName localName
  pure { ns, name, value }

/-- The start of an element whose own declarations are in force already. -/
def readStart (bindings : Bindings) (tag : Bytes) : Except Malformed Event := do
  let (namePrefix, localName) := splitName (tagName tag)
  let ns ← readNamespace bindings namePrefix
  let name ← readName localName
  let raw := tagAttributes true tag
  let attributes ← (raw.attributes.filter (!isDeclaration ·)).mapM (readAttribute bindings name)
  match raw.failure with
  | some e => throw (.attribute name e)
  | none => pure (.start ns name attributes)

/-- A name for a message, empty when it is no text. -/
def nameForMessage (bs : Bytes) : String := ((Utf8.decode bs).toOption).getD ""

/-- A fault in the markup of a document of `total` bytes. Its place is where the bytes after the
faulty token start. -/
def faultAt (total : Nat) (rest : Bytes) (cause : MarkupError) : Malformed :=
  .markup (total - rest.length) cause

/-- The events of one token of a document of `total` bytes, and the scopes after it; `rest` holds
the bytes after the token. -/
def ofToken (total : Nat) (scopes : Scopes) (token : Token) (rest : Bytes) :
    Except Malformed (List Event × Scopes) :=
  match token with
  | .start tag => do
    let bindings ← (scopes.bindings.enter tag).mapError (faultAt total rest)
    let event ← readStart bindings tag
    pure ([event], { bindings, opened := ⟨tagName tag, scopes.bindings⟩ :: scopes.opened })
  | .empty tag => do
    let bindings ← (scopes.bindings.enter tag).mapError (faultAt total rest)
    let event ← readStart bindings tag
    pure ([event, .stop], scopes)
  | .stop tag =>
    let found := endTagName tag
    match scopes.opened with
    | [] => .error (faultAt total rest (.endUnmatched (nameForMessage found)))
    | innermost :: opened =>
      if innermost.name = found then .ok ([.stop], { bindings := innermost.outside, opened })
      else
        .error (faultAt total rest
          (.endMismatch (nameForMessage innermost.name) (nameForMessage found)))
  | .text content => do
    let s ← (readText content).mapError .text
    pure ([.text s], scopes)
  | .cdata content => do
    let s ← (Utf8.decode content).mapError .cdata
    pure ([.text s], scopes)
  | .comment _ => .ok ([], scopes)
  | .instruction _ => .ok ([], scopes)
  | .doctype => .error .doctype

/-- The events of a document up to the first fault, and that fault. -/
structure Read where
  events : List Event
  failure : Option Malformed
deriving DecidableEq, Repr

/-- Reads tokens one by one; a failure of the cutting counts once all of them are read. -/
def ofTokensFrom (total : Nat) (scopes : Scopes) (failure : Option (MarkupError × Bytes)) :
    List (Token × Bytes) → Read
  | [] => { events := [], failure := failure.map fun (cause, rest) => faultAt total rest cause }
  | (token, rest) :: others =>
    match ofToken total scopes token rest with
    | .error e => { events := [], failure := some e }
    | .ok (events, scopes) =>
      let others := ofTokensFrom total scopes failure others
      { others with events := events ++ others.events }

/-- The events of a document of `total` bytes that was cut into tokens. -/
def ofTokens (total : Nat) (scanned : Token.Scanned) : Read :=
  ofTokensFrom total .initial scanned.failure scanned.tokens

end Event

end SoapMtom.Xml
