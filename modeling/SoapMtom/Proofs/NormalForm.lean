import SoapMtom.Proofs.Envelope
import SoapMtom.Proofs.Xml.Normal

/-!
# The normal form of an envelope

Building brings every part of an envelope into its normal form. Nobody who reads the text sees that,
and there is nothing left to do when the parts of an envelope are put into one again. Main statement:

> `Envelope.written_and_rebuilt`: a tree without empty texts is written like its normal form, and an
> envelope that is built is normal and is built again as it is.
-/

namespace SoapMtom

open Xml (Element Node)

/-! ## Documents -/

namespace Xml.Element

variable {e : Element}

/-- A tree without empty texts that stands on its own is written like its normal form. -/
theorem markup_normalize (h : ∀ x ∈ e.subtree, .text "" ∉ x.children) (form : AttachmentForm) :
    (e.normalize "").markup form = e.markup form :=
  congrArg Prod.fst (write_normalize form {} 0 e h)

theorem toXml_normalize (h : ∀ x ∈ e.subtree, .text "" ∉ x.children) :
    (e.normalize "").toXml = e.toXml := by
  rw [toXml, toXml, markup_normalize h]

theorem toDocument_normalize (h : ∀ x ∈ e.subtree, .text "" ∉ x.children)
    (form : AttachmentForm) : (e.normalize "").toDocument form = e.toDocument form := by
  rw [toDocument, toDocument, markup_normalize h]

end Xml.Element

/-! ## Envelopes -/

namespace Envelope

universe u

/-- What an envelope is that was built of header entries and a payload. -/
structure Normal {α : Type u} [ToElement α] (entries : List HeaderEntry) (body : α)
    (e : Envelope) : Prop where
  /-- Every name can be written. -/
  names : ∀ x ∈ e.elements, Xml.isName x.name = true ∧ ∀ a ∈ x.attributes, Xml.isName a.name = true
  /-- No element repeats the default namespace at its place. -/
  namespaces : ∀ part ∈ e.parts, ∀ p ∈ part.placed "", ∀ ns, p.2.ns = some ns →
    Xml.isPrefixed ns = false → ns ≠ p.1
  /-- No text is empty. -/
  texts : ∀ x ∈ e.elements, .text "" ∉ x.children
  /-- There is a header block for each entry, in the same order. -/
  headers : e.headers = entries.map fun entry => entry.element.normalize ""
  /-- The body is what the payload stands for. -/
  payload : ∃ x, ToElement.toElement body = .ok x ∧ e.body = x.normalize ""
  /-- The envelope is built again of its own parts. -/
  rebuilt : build (e.headers.map fun block => { block }) e.body = .ok e

/-- Each part comes from what it was prepared from. -/
theorem parts_of_build {α : Type u} [ToElement α] {entries : List HeaderEntry} {body : α}
    {e : Envelope} (h : build entries body = .ok e) :
    e.headers = entries.map (fun entry => entry.element.normalize "") ∧
      ∃ x, ToElement.toElement body = .ok x ∧ e.body = x.normalize "" := by
  obtain ⟨raw, hraw, h⟩ := bind_eq_ok.1 h
  obtain ⟨payload, hpayload, h⟩ := bind_eq_ok.1 h
  obtain ⟨headers, hheaders, h⟩ := bind_eq_ok.1 h
  cases h
  refine ⟨?_, raw, hraw, (prepare_eq_ok.1 hpayload).2⟩
  have hnormal : List.Forall₂ (fun block entry => block = (HeaderEntry.element entry).normalize "")
      headers entries :=
    (mapM_eq_ok.1 hheaders).flip.imp fun _ _ hprepare => (prepare_eq_ok.1 hprepare).2
  rw [← List.forall₂_eq_eq_eq, List.forall₂_map_right_iff]
  exact hnormal

/-- Parts with valid names that are normal are built into an envelope as they are. -/
theorem build_parts {e : Envelope}
    (h : ∀ part ∈ e.parts, part.validate = .ok () ∧ part.normalize "" = part) :
    build (e.headers.map fun block => { block }) e.body = .ok e := by
  have hprepare : ∀ part ∈ e.parts, prepare part = .ok part := fun part hpart =>
    prepare_eq_ok.2 ⟨(h part hpart).1, (h part hpart).2.symm⟩
  have hheaders : (e.headers.map fun block => ({ block } : HeaderEntry)).mapM
      (fun entry => prepare entry.element) = .ok e.headers := by
    rw [mapM_eq_ok, List.forall₂_map_left_iff, List.forall₂_same]
    exact fun block hblock => hprepare block (List.mem_append_left _ hblock)
  have hbody := hprepare e.body (List.mem_append_right _ (List.mem_singleton_self _))
  exact bind_eq_ok.2 ⟨_, rfl, bind_eq_ok.2 ⟨_, hbody, bind_eq_ok.2 ⟨_, hheaders, rfl⟩⟩⟩

/-- Normalizing changes nothing that is written, and building twice nothing that was built. -/
theorem written_and_rebuilt :
    (∀ e : Element, (∀ x ∈ e.subtree, .text "" ∉ x.children) →
      (e.normalize "").toXml = e.toXml ∧
        ∀ form, (e.normalize "").toDocument form = e.toDocument form) ∧
      ∀ {α : Type u} [ToElement α] (entries : List HeaderEntry) (body : α) (e : Envelope),
        build entries body = .ok e → Normal entries body e := by
  refine ⟨fun e htexts => ⟨Element.toXml_normalize htexts, Element.toDocument_normalize htexts⟩, ?_⟩
  intro α _ entries body e h
  have hparts := normal_of_build h
  obtain ⟨hheaders, hpayload⟩ := parts_of_build h
  refine ⟨fun x hx => ?_, fun part hpart p hp ns hns hprefix => ?_, fun x hx htext => ?_, hheaders,
    hpayload, build_parts hparts⟩
  · obtain ⟨part, hpart, hx⟩ := List.mem_flatMap.1 hx
    exact Xml.checkNames_eq_ok.1 ((Element.validate_eq_ok part).1 (hparts part hpart).1 x hx)
  · have hnormal := part.normal_of_mem_placed "" (hparts part hpart).2 p hp
    obtain ⟨inherited, ⟨own, name, attributes, children⟩⟩ := p
    obtain rfl : own = some ns := hns
    exact Xml.ne_of_ownNamespace (Element.normalize_eq_self hnormal).1 hprefix
  · obtain ⟨part, hpart, hx⟩ := List.mem_flatMap.1 hx
    exact Element.text_ne_empty (hparts part hpart).2 hx htext rfl

/-- A payload that names its namespace twice, the second time inside an element with a prefix. -/
def catalog : Element :=
  (Element.qualified "urn:c" "catalog").withChild
    ((Element.qualified Xml.soap12 "shelf").withChild
      (((Element.qualified "urn:c" "item").withNamespacedAttribute "urn:a" "id" "1").withAttachment
        { data := [1], contentType := "image/png", contentId := "1@x" }))

/-- The same payload with its namespace named once. -/
def shortCatalog : Element :=
  (Element.qualified "urn:c" "catalog").withChild
    ((Element.qualified Xml.soap12 "shelf").withChild
      (((Element.named "item").withNamespacedAttribute "urn:a" "id" "1").withAttachment
        { data := [1], contentType := "image/png", contentId := "1@x" }))

/-- A header block in no namespace, which is the default one at its place. -/
def ticket : HeaderEntry :=
  { block := (Element.qualified "" "Ticket").withText " ", mustUnderstand := true }

/-- The block as it is sent. -/
def sentTicket : Element :=
  ((Element.named "Ticket").withNamespacedAttribute Xml.soap11 "mustUnderstand" "1").withText " "

theorem written_and_rebuilt_catalog :
    (shortCatalog.toXml = catalog.toXml ∧
      ∀ form, shortCatalog.toDocument form = catalog.toDocument form) ∧
      build [ticket] catalog = .ok { headers := [sentTicket], body := shortCatalog } ∧
        Normal [ticket] catalog { headers := [sentTicket], body := shortCatalog } := by
  obtain ⟨hwritten, hbuilt⟩ := written_and_rebuilt
  have hshort : catalog.normalize "" = shortCatalog := by decide +kernel
  have hbuild : build [ticket] catalog = .ok { headers := [sentTicket], body := shortCatalog } := by
    decide +kernel
  refine ⟨?_, hbuild, hbuilt [ticket] catalog _ hbuild⟩
  rw [← hshort]
  exact hwritten catalog (by decide +kernel)

end Envelope

end SoapMtom
