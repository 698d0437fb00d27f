import SoapMtom.Error

/-!
# Values that travel in envelopes

A value goes into an envelope as an element and is read from one. Writing may fail in the value's
own words; reading may need an identifier, for an attachment made of text.
-/

namespace SoapMtom

open Xml (Element)

universe u

/-- Values that are written as an element. -/
class ToElement (α : Type u) where
  /-- The element that stands for the value. -/
  toElement : α → Except SoapError Element

/-- Values that are read from an element. -/
class OfElement (α : Type u) where
  /-- The value that the element stands for. -/
  ofElement : Uuid → Element → Except SoapError α

instance : ToElement Element := ⟨.ok⟩

instance : OfElement Element := ⟨fun _ e => .ok e⟩

/-- A text is read from the element's own text. -/
instance : OfElement String := ⟨fun _ e => .ok e.text⟩

/-- An attachment is read from a field that holds bytes. -/
instance : OfElement Attachment :=
  ⟨fun fresh e => (e.readAttachment fresh).mapError (.parse ∘ .field)⟩

instance : ToElement Security.UsernameToken := ⟨fun t => .ok t.element⟩

instance : OfElement Security.UsernameToken :=
  ⟨fun _ e => (Security.UsernameToken.ofElement e).mapError (.parse ∘ .token)⟩

/-- The header entry that carries a value. -/
def HeaderEntry.ofValue {α : Type u} [ToElement α] (value : α) : Except SoapError HeaderEntry :=
  (ToElement.toElement value).map fun block => { block }

namespace Envelope

/-- The element ready for an envelope: its names can be written, and it is in the form in which it
is read back. -/
def prepare (e : Element) : Except SoapError Element :=
  match e.validate with
  | .ok () => .ok (e.normalize "")
  | .error cause => .error (.encoding (.name cause))

/-- An envelope of header entries and a payload. The payload is looked at first. -/
def build {α : Type u} [ToElement α] (headers : List HeaderEntry) (body : α) :
    Except SoapError Envelope := do
  let body ← ToElement.toElement body
  let body ← prepare body
  let headers ← headers.mapM fun entry => prepare entry.element
  pure { headers, body }

/-- The value that the payload stands for. -/
def bodyAs (α : Type u) [OfElement α] (e : Envelope) (fresh : Uuid) : Except SoapError α :=
  OfElement.ofElement fresh e.body

/-- The value of the first header block of that local name, if there is one. -/
def headerAs? (α : Type u) [OfElement α] (e : Envelope) (fresh : Uuid) (name : String) :
    Except SoapError (Option α) :=
  match e.headers.find? (·.name = name) with
  | none => .ok none
  | some block => (OfElement.ofElement fresh block).map some

end Envelope

end SoapMtom
