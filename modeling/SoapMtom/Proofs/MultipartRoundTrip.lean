import SoapMtom.Proofs.Attachments
import SoapMtom.Proofs.Faithful
import SoapMtom.Proofs.Multipart
import SoapMtom.Proofs.Resolution

/-!
# Messages with attachments are read back

An envelope that is written as a message in parts is read as it was, whatever its attachments hold
and whatever identifiers are drawn. Main statement:

> `Multipart.decode_of_encode_eq_ok`.
-/

namespace SoapMtom

open Xml (Element Node)

/-- An attachment that fits into the header of its part and is found again. -/
structure Attachment.Sendable (a : Attachment) : Prop where
  id_ne : a.contentId ≠ ""
  id_line : '\n' ∉ a.contentId.toList
  type_line : '\n' ∉ a.contentType.toList
  type_trim : Text.trim a.contentType = a.contentType

instance (a : Attachment) : Decidable a.Sendable :=
  decidable_of_iff (_ ∧ _ ∧ _ ∧ _)
    ⟨fun ⟨h₁, h₂, h₃, h₄⟩ => ⟨h₁, h₂, h₃, h₄⟩, fun ⟨h₁, h₂, h₃, h₄⟩ => ⟨h₁, h₂, h₃, h₄⟩⟩

/-- An envelope whose attachments can be sent beside it. -/
structure Envelope.Sendable (e : Envelope) : Prop where
  /-- Nothing refers to an attachment that is not there. -/
  no_reference : ∀ x ∈ e.elements, ∀ n ∈ x.children, n.isReference = false
  /-- A content id stands for one attachment only. -/
  same_id : ∀ a ∈ e.held, ∀ b ∈ e.held, a.contentId = b.contentId → a = b
  attachments : ∀ a ∈ e.held, a.Sendable

instance (e : Envelope) : Decidable e.Sendable :=
  decidable_of_iff (_ ∧ _ ∧ _) ⟨fun ⟨h₁, h₂, h₃⟩ => ⟨h₁, h₂, h₃⟩, fun ⟨h₁, h₂, h₃⟩ => ⟨h₁, h₂, h₃⟩⟩

namespace Multipart

/-- The tree that is received is the envelope again once its references are resolved. -/
private theorem ofRoot_resolve {e : Envelope} (hf : e.Faithful) (hs : e.Sendable)
    (hnormal : ∀ part ∈ e.parts, part.normalize "" = part) :
    Envelope.ofRoot (resolve e.attachments
      (e.map fun part => (part.represented .referenced).received "").toElement) = .ok e := by
  have hreceived : (e.map fun part => (part.represented .referenced).received "") =
      e.map (·.represented .referenced) := by
    apply Envelope.map_congr
    intro part hpart
    apply Element.received_represented_referenced (hnormal part hpart)
    exact fun x hx => (hf x (Envelope.mem_elements_of_mem_parts hpart hx)).tidy
  have hresolved : (e.map fun part => resolve e.attachments (part.represented .referenced)) = e := by
    apply Envelope.map_eq_self
    intro part hpart
    apply resolve_represented part
    · exact fun x hx => hs.no_reference x (Envelope.mem_elements_of_mem_parts hpart hx)
    · intro x hx a ha
      exact Envelope.find?_attachments hs.same_id
        (Envelope.mem_held.2 ⟨x, Envelope.mem_elements_of_mem_parts hpart hx, ha⟩)
  rw [hreceived, Envelope.map_toElement (resolve_framing e.attachments), Envelope.map_map,
    hresolved, Envelope.ofRoot_toElement]

/-- Every reference of the document names one of the attachments. -/
private theorem forM_checkReference {e : Envelope} (hs : e.Sendable) :
    ((e.toElement.represented .referenced).references []).forM (checkReference e.attachments) =
      .ok () := by
  have hno : ∀ x ∈ e.toElement.subtree, ∀ n ∈ x.children, n.isReference = false := by
    intro x hx n hn
    rcases Envelope.mem_subtree_toElement hx with ⟨name, -, parts, rfl⟩ | hx
    · obtain ⟨part, -, rfl⟩ := List.mem_map.1 hn
      rfl
    · exact hs.no_reference x hx n hn
  refine forM_eq_ok.2 fun r hr => ?_
  obtain ⟨x, hx, a, ha, hhref⟩ := Element.exists_of_mem_references [] e.toElement hno hr
  have hheld : a ∈ e.held := by
    rcases Envelope.mem_subtree_toElement hx with ⟨name, -, parts, rfl⟩ | hx
    · obtain ⟨part, -, he⟩ := List.mem_map.1 ha
      cases he
    · exact Envelope.mem_held.2 ⟨x, hx, ha⟩
  rw [checkReference, hhref, Xml.attachmentHref, ContentId.ofReference?_encode]
  dsimp only
  rw [Envelope.find?_attachments hs.same_id hheld]

/-- A message is written as soon as a boundary is free. -/
theorem encode_eq_ok {ids : IdStream} {e : Envelope} {m : Message} :
    encode ids e = .ok m ↔
      ∃ n, freeBoundary? ids (Utf8.encode (e.toDocument .referenced)) e.attachments = some n ∧
        m = { contentType := messageType (boundaryOf (ids n)) (freshContentId (ids (n + 1)))
              body := Mime.Framing.join (boundaryOf (ids n))
                (rootPart (freshContentId (ids (n + 1))) (Utf8.encode (e.toDocument .referenced)) ::
                  e.attachments.map attachmentPart) } := by
  unfold encode
  dsimp only
  split
  · next hn => simp [hn]
  · next n hn =>
    rw [hn, Except.ok.injEq]
    constructor
    · rintro rfl
      exact ⟨n, rfl, rfl⟩
    · rintro ⟨n', hn', rfl⟩
      obtain rfl := Option.some.inj hn'
      rfl

/-- Writing fails only where every boundary that is tried collides. -/
theorem encode_eq_error {ids : IdStream} {e : Envelope} {cause : ParseError} :
    encode ids e = .error cause ↔
      cause = .noFreeBoundary ∧ ∀ n < boundaryAttempts,
        collides (Utf8.encode (e.toDocument .referenced)) e.attachments (boundaryOf (ids n)) =
          true := by
  have hnone : freeBoundary? ids (Utf8.encode (e.toDocument .referenced)) e.attachments = none ↔
      ∀ n < boundaryAttempts, collides (Utf8.encode (e.toDocument .referenced)) e.attachments
        (boundaryOf (ids n)) = true := by
    simp [freeBoundary?, List.find?_eq_none]
  rw [← hnone]
  unfold encode
  dsimp only
  split
  · next h => simp [h, eq_comm]
  · next n h => simp [h]

/-- A message whose boundary is free is read as the envelope that it was written for. -/
theorem decode_message {e : Envelope}
    (hnormal : ∀ part ∈ e.parts, part.validate = .ok () ∧ part.normalize "" = part)
    (hf : e.Faithful) (hs : e.Sendable) {ids : IdStream} {n : Nat}
    (hn : freeBoundary? ids (Utf8.encode (e.toDocument .referenced)) e.attachments = some n) :
    decode (messageType (boundaryOf (ids n)) (freshContentId (ids (n + 1))))
        (Mime.Framing.join (boundaryOf (ids n))
          (rootPart (freshContentId (ids (n + 1))) (Utf8.encode (e.toDocument .referenced)) ::
            e.attachments.map attachmentPart)) =
      .ok (e, e.attachments) := by
  have hfit : ∀ a ∈ e.attachments, Fitting a.contentType "binary" a.contentId := by
    intro a ha
    obtain ⟨-, hid, htype, htrim⟩ := hs.attachments a (Envelope.mem_held_of_mem_attachments ha)
    exact ⟨htype, htrim, by simp, hid⟩
  -- the parts of the message hold the document and the attachments
  have hdocument := Envelope.read_toDocument hf (fun part hpart => (hnormal part hpart).1)
    .referenced
  have hfree := List.find?_some hn
  rw [Bool.not_eq_true'] at hfree
  have hparts := parts_join (ids (n + 1)) hfree hfit
  rw [← parse_messageType] at hparts
  have hcontent := content_readPart rootPartType (freshContentId (ids (n + 1)))
    (by simp : "8bit" ∈ ["binary", "8bit"]) (Utf8.encode (e.toDocument .referenced))
  have hattachments := attachmentsOf_readAttachmentPart fun a ha =>
    (hs.attachments a (Envelope.mem_held_of_mem_attachments ha)).id_ne
  -- in the document that is read every reference finds its attachment
  have hroot := ofRoot_resolve hf hs fun part hpart => (hnormal part hpart).2
  refine bind_eq_ok.2 ⟨_, mapError_eq_ok.2 hparts, bind_eq_ok.2 ⟨_, mapError_eq_ok.2 hcontent,
    bind_eq_ok.2 ⟨_, mapError_eq_ok.2 hdocument, bind_eq_ok.2 ⟨_, mapError_eq_ok.2 hattachments,
      bind_eq_ok.2 ⟨_, mapError_eq_ok.2 (forM_checkReference hs), bind_eq_ok.2
        ⟨_, mapError_eq_ok.2 hroot, rfl⟩⟩⟩⟩⟩⟩

/-- A built envelope that is written as a message in parts is read as it was, with its attachments
in order, whatever identifiers are drawn. -/
theorem decode_of_encode_eq_ok {α : Type*} [ToElement α] {entries : List HeaderEntry} {body : α}
    {e : Envelope} (hbuild : Envelope.build entries body = .ok e) (hf : e.Faithful)
    (hs : e.Sendable) {ids : IdStream} {m : Message} (hencode : encode ids e = .ok m) :
    decode m.contentType m.body = .ok (e, e.attachments) := by
  obtain ⟨n, hn, rfl⟩ := encode_eq_ok.1 hencode
  exact decode_message (Envelope.normal_of_build hbuild) hf hs hn

/-- A parcel with two scans, the second of them shown twice. Its bytes look like the start of a
boundary line. -/
def parcel : Envelope :=
  let front : Attachment := { data := [0, 255, 10], contentType := "image/png", contentId := "a%b" }
  let back : Attachment := { data := [13, 10, 45, 45, 77], contentType := "", contentId := "<é>" }
  { headers := [{ name := "Token" }]
    body :=
      { ns := some "urn:parcels", name := "Parcel"
        attributes := [{ ns := some "urn:labels", name := "label", value := "<fragile>" }]
        children :=
          [.element { name := "Front", children := [.attachment front] },
            .element { name := "Back", children := [.attachment back, .text "seen from below"] },
            .element { name := "Lid", children := [.attachment back] }] } }

/-- Identifiers drawn one after another. -/
def countedIds : IdStream := fun n => BitVec.ofNat 128 n

theorem decode_parcel :
    Envelope.build [{ block := { name := "Token" } }] parcel.body = .ok parcel ∧
      parcel.Faithful ∧ parcel.Sendable ∧
        ∃ m, encode countedIds parcel = .ok m ∧
          decode m.contentType m.body = .ok (parcel, parcel.attachments) := by
  have hbuild : Envelope.build [{ block := { name := "Token" } }] parcel.body = .ok parcel := by
    rfl
  have hf : parcel.Faithful := by decide +kernel
  have hs : parcel.Sendable := by decide +kernel
  have hxml : Utf8.encode (parcel.toDocument .referenced) =
      Xml.Markup.bytesOf (.declaration :: parcel.toElement.markup .referenced) :=
    Xml.Markup.encode_renderAll _
  have hfree : (freeBoundary? countedIds (Utf8.encode (parcel.toDocument .referenced))
      parcel.attachments).isSome = true := by
    rw [hxml]
    decide +kernel
  obtain ⟨n, hn⟩ := Option.isSome_iff_exists.1 hfree
  have hencode := encode_eq_ok.2 ⟨n, hn, rfl⟩
  exact ⟨hbuild, hf, hs, _, hencode, decode_of_encode_eq_ok hbuild hf hs hencode⟩

end Multipart

end SoapMtom
