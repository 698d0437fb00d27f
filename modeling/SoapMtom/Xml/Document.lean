import SoapMtom.Text.Blank
import SoapMtom.Xml.Event

/-!
# From events to an element tree

`Document.read` reads bytes into a tree. Blank text between child elements is indentation and is
dropped; an element without child elements keeps its text as it is. Every `Include` of the XOP
namespace below the root becomes a reference node, and is listed with the path of the element that
holds it.
-/

namespace SoapMtom.Xml

/-- A reference to an attachment, and the names of the elements around it, outermost first. -/
structure Reference where
  href : String
  path : String
deriving DecidableEq, Repr

/-- A tree and the references it holds, in document order. -/
structure Document where
  root : Element
  references : List Reference
deriving DecidableEq, Repr

/-- An element whose end tag is still to come. -/
structure Frame where
  ns : Option String
  name : String
  attributes : List Attribute
  /-- The default namespace for the children. -/
  inner : String
  /-- The children so far, last one first. -/
  children : List Node
deriving DecidableEq, Repr

/-- A tree in the making: the open elements, innermost first, the root once it is complete, and the
references so far, last one first. -/
structure Builder where
  frames : List Frame := []
  root : Option Element := none
  references : List Reference := []
deriving DecidableEq, Repr

/-- Children without indentation: blank text goes if there is anything but text. -/
def dropIndentation (children : List Node) : List Node :=
  if children.all Node.isText then children
  else children.filter fun n =>
    match n with
    | .text s => !Text.isBlankText s
    | _ => true

namespace Frame

/-- The element, complete with its children. -/
def element (f : Frame) : Element :=
  { ns := f.ns
    name := f.name
    attributes := f.attributes
    children := dropIndentation f.children.reverse }

/-- The frame with one more child. -/
def push (f : Frame) (n : Node) : Frame := { f with children := n :: f.children }

/-- A frame for an element in the namespace `ns`, where the default namespace is `inherited`. The
namespace is left out where it repeats the one handed down. -/
def begin (ns name : String) (attributes : List Attribute) (inherited : String) : Frame :=
  { ns := if !isPrefixed ns && ns = inherited then none else some ns
    name
    attributes
    inner := if isPrefixed ns then inherited else ns
    children := [] }

end Frame

namespace Builder

/-- The default namespace at the place reached. -/
def inherited (b : Builder) : String :=
  match b.frames with
  | [] => ""
  | f :: _ => f.inner

/-- Whether the element stands for an attachment. -/
def isInclude (e : Element) : Bool := e.name = "Include" && e.ns = some xop

/-- The node that a complete element becomes inside `frames`, and the references with its own. -/
def nodeOf (frames : List Frame) (references : List Reference) (e : Element) :
    Except Malformed (Node × List Reference) :=
  if isInclude e then
    match e.attribute? "href" with
    | none => .error .includeWithoutHref
    | some href =>
      let path := String.intercalate "/" (frames.reverse.map (·.name))
      .ok (.reference href, { href, path } :: references)
  else .ok (.element e, references)

/-- Puts a complete element into the tree: under the innermost open one, or as the root. -/
def complete (b : Builder) (frames : List Frame) (e : Element) : Except Malformed Builder :=
  match frames with
  | [] =>
    match b.root with
    | some _ => .error .secondRoot
    | none => .ok { b with frames := [], root := some e }
  | f :: outer =>
    match nodeOf frames b.references e with
    | .error e => .error e
    | .ok (n, references) => .ok { b with frames := f.push n :: outer, references }

/-- Takes in one event. Outside the root only blank text may stand. -/
def step (b : Builder) : Event → Except Malformed Builder
  | .start ns name attributes =>
    .ok { b with frames := Frame.begin ns name attributes b.inherited :: b.frames }
  | .stop =>
    match b.frames with
    | [] => .ok b
    | f :: outer => b.complete outer f.element
  | .text s =>
    if s.isEmpty then .ok b
    else
      match b.frames with
      | f :: outer => .ok { b with frames := f.push (.text s) :: outer }
      | [] => if Text.isBlankText s then .ok b else .error .textOutsideRoot

/-- The document, once every element is closed. -/
def finish (b : Builder) : Except Malformed Document :=
  match b.frames with
  | f :: _ => .error (.unclosed f.name)
  | [] =>
    match b.root with
    | none => .error .noRoot
    | some root => .ok { root, references := b.references.reverse }

end Builder

namespace Document

/-- The document that the events describe. A failure of the reading counts after the events before
it are taken in. -/
def ofEvents (read : Event.Read) : Except Malformed Document := do
  let builder ← read.events.foldlM Builder.step {}
  match read.failure with
  | some e => throw e
  | none => builder.finish

/-- The bytes without the mark that may stand at the head of UTF-8 text; places do not count it. -/
def dropMark (bs : Bytes) : Bytes := (Bytes.dropPrefix? [0xEF, 0xBB, 0xBF] bs).getD bs

/-- The document that the bytes hold. -/
def read (bs : Bytes) : Except Malformed Document :=
  let bs := dropMark bs
  ofEvents (Event.ofTokens bs.length (Token.scan bs))

end Document

end SoapMtom.Xml
