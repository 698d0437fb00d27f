import SoapMtom.Delivery
import SoapMtom.Proofs.Attachments
import SoapMtom.Proofs.Faithful
import SoapMtom.Proofs.Xml.Inlined

/-!
# Envelopes with inlined attachments

An envelope that is written as one document is read as the envelope with its attachments inlined,
and every field that held an attachment yields its bytes and media type. Main statement:

> `Envelope.ofDocument_toXml`.
-/

namespace SoapMtom.Envelope

open Xml (Element Node)

/-- The envelope with base64 text in the places of attachments. -/
def inlined (e : Envelope) : Envelope := e.map Element.inlined

/-- Every attachment of the envelope can be inlined. -/
def Inlinable (e : Envelope) : Prop := ∀ x ∈ e.elements, x.Inlinable

instance (e : Envelope) : Decidable e.Inlinable :=
  inferInstanceAs (Decidable (∀ x ∈ e.elements, x.Inlinable))

/-- Every element of the envelope is found in the inlined one, inlined itself. -/
theorem inlined_mem_elements {e : Envelope} {x : Element} (hx : x ∈ e.elements) :
    x.inlined ∈ e.inlined.elements := by
  obtain ⟨part, hpart, hx⟩ := List.mem_flatMap.1 hx
  have hinlined : part.inlined ∈ e.inlined.parts := by
    rw [inlined, parts_map]
    exact List.mem_map_of_mem hpart
  exact mem_elements_of_mem_parts hinlined (Element.inlined_mem_subtree part x hx)

/-- Without attachments there is nothing to inline. -/
theorem inlined_of_attachments_eq_nil {e : Envelope} (h : e.attachments = []) : e.inlined = e :=
  map_eq_self fun part hpart => Element.inlined_of_detached part fun _ hx =>
    detached_of_attachments_eq_nil h (mem_elements_of_mem_parts hpart hx)

/-- What the parts of an envelope are read as is the inlined envelope. -/
private theorem map_received_inlined {e : Envelope} (hf : e.Faithful) (hi : e.Inlinable)
    (hnormal : ∀ part ∈ e.parts, part.normalize "" = part) :
    (e.map fun part => (part.represented .inlined).received "") = e.inlined := by
  apply map_congr
  intro part hpart
  apply Element.received_represented_inlined (hnormal part hpart)
  · intro x hx
    exact (hf x (mem_elements_of_mem_parts hpart hx)).tidy
  · intro x hx
    exact hi x (mem_elements_of_mem_parts hpart hx)

/-- A built envelope that is written as one document is read as the inlined envelope, which is the
envelope itself if it has no attachments. Every element that held an attachment is read as a field
of the same bytes and the same media type. -/
theorem ofDocument_toXml {α : Type*} [ToElement α] {entries : List HeaderEntry} {body : α}
    {e : Envelope} (hbuild : build entries body = .ok e) (hf : e.Faithful) (hi : e.Inlinable) :
    ofDocument (Utf8.encode e.toXml) = .ok e.inlined ∧
      (e.attachments = [] → e.inlined = e) ∧
      ∀ x ∈ e.elements, ∀ a, x.attachment? = some a →
        x.inlined ∈ e.inlined.elements ∧
          ∀ fresh, OfElement.ofElement fresh x.inlined =
            (.ok { data := a.data, contentType := a.contentType
                   contentId := freshContentId fresh } : Except SoapError Attachment) := by
  have hbuilt := normal_of_build hbuild
  refine ⟨?_, inlined_of_attachments_eq_nil, fun x hx a ha => ⟨inlined_mem_elements hx, ?_⟩⟩
  · rw [ofDocument, toXml, read_toDocument hf (fun part hpart => (hbuilt part hpart).1),
      map_received_inlined hf hi fun part hpart => (hbuilt part hpart).2]
    show (ofRoot e.inlined.toElement).mapError ParseError.envelope = _
    rw [ofRoot_toElement]
    rfl
  · intro fresh
    show (x.inlined.readAttachment fresh).mapError (SoapError.parse ∘ ParseError.field) = _
    rw [Element.readAttachment_inlined (hi x hx) ha]
    rfl

/-- A report with one photo. -/
def photoReport (photo : Attachment) : Element :=
  { ns := some "urn:reports", name := "Report"
    attributes := [{ name := "site", value := "dock & yard" }]
    children :=
      [.element { name := "Title", children := [.text "Nothing\nto report"] },
        .element { name := "Photo", children := [.attachment photo] }] }

/-- Two bytes that are no text, and a media type with a quotation mark in it. -/
theorem ofDocument_toXml_photoReport :
    let photo : Attachment := { data := [255, 13], contentType := "image/\"png\"", contentId := "p" }
    let e : Envelope := { headers := [{ name := "Token" }], body := photoReport photo }
    build [{ block := { name := "Token" } }] (photoReport photo) = .ok e ∧
      e.Faithful ∧ e.Inlinable ∧ ofDocument (Utf8.encode e.toXml) = .ok e.inlined := by
  intro photo e
  have hbuild : build [{ block := { name := "Token" } }] (photoReport photo) = .ok e := by rfl
  have hf : e.Faithful := by decide +kernel
  have hi : e.Inlinable := by decide +kernel
  exact ⟨hbuild, hf, hi, (ofDocument_toXml hbuild hf hi).1⟩

end SoapMtom.Envelope
