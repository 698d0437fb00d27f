import SoapMtom.Proofs.Call
import SoapMtom.Proofs.Closed
import SoapMtom.Proofs.Http
import SoapMtom.Proofs.MultipartRoundTrip

/-!
# Calls that are mirrored

A transport that sends every request back as its response gives each call its own envelope back, in
either form in which envelopes travel: the response is recognised by the content type of the
request, and read as what was written. Main statement:

> `Client.callEnvelope_mirror`.
-/

namespace SoapMtom

open Xml (Element Node)

/-! ## Plain documents -/

namespace Envelope

/-- An envelope without attachments is written as one document, and read as its own tree. -/
theorem read_toXml {e : Envelope}
    (hnormal : ∀ part ∈ e.parts, part.validate = .ok () ∧ part.normalize "" = part)
    (hf : e.Faithful) (hnone : e.attachments = []) :
    Xml.Document.read (Utf8.encode e.toXml) =
      .ok { root := e.toElement, references := e.toElement.references [] } := by
  have hrepresented : ∀ part ∈ e.parts, part.represented .inlined = part := fun part hpart =>
    Element.represented_of_detached .inlined part fun x hx =>
      detached_of_attachments_eq_nil hnone (mem_elements_of_mem_parts hpart hx)
  have hreceived : (e.map fun part => (part.represented .inlined).received "") = e := by
    apply map_eq_self
    intro part hpart
    rw [hrepresented part hpart]
    exact Element.received_of_tidy "" part (hnormal part hpart).2 fun x hx =>
      (hf x (mem_elements_of_mem_parts hpart hx)).tidy
  have htree : e.toElement.represented .inlined = e.toElement := by
    rw [map_toElement (represented_framing .inlined), map_eq_self hrepresented]
  rw [toXml, read_toDocument hf (fun part hpart => (hnormal part hpart).1), hreceived, htree]

/-- No element of the whole tree holds a reference if none of the envelope does. -/
theorem isReference_of_mem_subtree_toElement {e : Envelope}
    (h : ∀ x ∈ e.elements, ∀ n ∈ x.children, n.isReference = false) :
    ∀ x ∈ e.toElement.subtree, ∀ n ∈ x.children, n.isReference = false := by
  intro x hx n hn
  rcases mem_subtree_toElement hx with ⟨name, -, parts, rfl⟩ | hx
  · obtain ⟨part, -, rfl⟩ := List.mem_map.1 hn
    rfl
  · exact h x hx n hn

/-- A plain document without attachments and references is taken in as the envelope it was. -/
theorem ofPlain_toXml {e : Envelope}
    (hnormal : ∀ part ∈ e.parts, part.validate = .ok () ∧ part.normalize "" = part)
    (hf : e.Faithful) (hs : e.Sendable) (hnone : e.attachments = []) :
    ofPlain (Utf8.encode e.toXml) = .ok e := by
  have hreferences : e.toElement.references [] = [] :=
    Element.references_eq_nil [] (isReference_of_mem_subtree_toElement hs.no_reference)
  refine bind_eq_ok.2 ⟨_, mapError_eq_ok.2 (read_toXml hnormal hf hnone), ?_⟩
  dsimp only
  rw [hreferences]
  exact mapError_eq_ok.2 (ofRoot_toElement e)

end Envelope

/-! ## Messages are recognised -/

namespace Multipart

/-- The content type of a message is printable. -/
theorem isPrintable_messageType (boundaryId rootId : Uuid) :
    Http.IsPrintable (messageType (boundaryOf boundaryId) (freshContentId rootId)) := by
  have htokens : ∀ d ∈ tokenChars, 32 ≤ d.toNat ∧ d.toNat < 127 :=
    List.all_iff_forall_prop.1 (by decide)
  have happend : ∀ {s t : String}, Http.IsPrintable s → Http.IsPrintable t →
      Http.IsPrintable (s ++ t) := by
    intro s t hs ht c hc
    rw [String.toList_append, List.mem_append] at hc
    exact hc.elim (hs c) (ht c)
  have hboundary : Http.IsPrintable (boundaryOf boundaryId) := fun c hc =>
    htokens c (mem_tokenChars_of_boundary hc)
  have hid : Http.IsPrintable (freshContentId rootId) := fun c hc =>
    htokens c (mem_tokenChars_of_contentId hc)
  unfold messageType
  refine happend (happend (happend (happend (happend (happend (happend (happend ?_ ?_) ?_)
    hboundary) ?_) hid) ?_) ?_) ?_
  all_goals decide

/-- A message in parts is recognised by its content type. -/
theorem isMultipart_messageType (boundaryId rootId : Uuid) :
    isMultipart (messageType (boundaryOf boundaryId) (freshContentId rootId)) = true := by
  rw [isMultipart, parse_messageType]
  show "multipart/".toList.isPrefixOf "multipart/related".toList = true
  decide

theorem isMultipart_plainContentType : isMultipart plainContentType = false := by decide

end Multipart

/-! ## The mirror -/

/-- The transport that sends a request back as its response, with that status. -/
def mirror (status : Nat) : Transport :=
  fun request => some (.ok { status, headers := request.headers, body := request.body })

namespace Client

variable {c : Client} {ids : IdStream} {action : String} {e : Envelope}

theorem isPrintable_plainContentType : Http.IsPrintable plainContentType := by decide

/-- What a client sends is received as the envelope that it was made of. -/
theorem envelope_of_encodeBody
    (hnormal : ∀ part ∈ e.parts, part.validate = .ok () ∧ part.normalize "" = part)
    (hf : e.Faithful) (hs : e.Sendable) (hmode : c.config.mtom = true ∨ e.attachments = [])
    {m : Multipart.Message} (hm : c.encodeBody ids e = .ok m) :
    Http.IsPrintable m.contentType ∧ ∀ r : Http.Response, r.contentType? = some m.contentType →
      r.body = m.body → r.envelope = .ok e := by
  unfold encodeBody at hm
  split at hm
  · obtain ⟨n, hn, rfl⟩ := Multipart.encode_eq_ok.1 (mapError_eq_ok.1 hm)
    refine ⟨Multipart.isPrintable_messageType _ _, fun r htype hbody => ?_⟩
    rw [Http.Response.envelope_eq, htype, hbody, Option.filter_some,
      if_pos (Multipart.isMultipart_messageType ..)]
    dsimp only
    rw [Multipart.decode_message hnormal hf hs hn]
    rfl
  · next hplain =>
    cases hm
    have hnone : e.attachments = [] := by
      rcases hmode with hmtom | hnone
      · simpa [hmtom, Envelope.hasAttachments] using hplain
      · exact hnone
    refine ⟨isPrintable_plainContentType, fun r htype hbody => ?_⟩
    rw [Http.Response.envelope_eq, htype, hbody, Option.filter_some,
      if_neg (by rw [Multipart.isMultipart_plainContentType]; simp)]
    dsimp only
    exact Envelope.ofPlain_toXml hnormal hf hs hnone

/-- What becomes of a request that is mirrored. -/
theorem callEnvelope_of_request {α : Type*} [ToElement α] {body : α} {request : Http.Request}
    (h : c.request ids action body = .ok request) (status : Nat) :
    (c.callEnvelope (mirror status) ids action body).result =
      some (decodeResponse { status, headers := request.headers, body := request.body }) := by
  unfold callEnvelope
  rw [h]
  rfl

/-- A call whose request is mirrored gets back the envelope that it sent, or the fault that this
reports; nothing is sent if the attachments hold every boundary that is tried. -/
theorem callEnvelope_mirror {α : Type*} [ToElement α] {body : α} {status : Nat}
    (hstatus : 200 ≤ status ∧ status ≤ 299)
    (hvalid : ∃ headers, c.config.headerMap = .ok headers)
    (hother : ∀ entry ∈ c.config.httpHeaders.entries, Text.lower entry.1 ≠ "content-type")
    (haction : (Http.fieldValue? action).isSome = true)
    (hagent : (Http.fieldValue? c.userAgent).isSome = true)
    (henvelope : c.envelope body = .ok e) (hf : e.Faithful) (hs : e.Sendable)
    (hmode : c.config.mtom = true ∨ e.attachments = []) :
    let result := (c.callEnvelope (mirror status) ids action body).result
    let taken := c.config.mtom = true ∧ e.attachments ≠ [] ∧ ∀ n < Multipart.boundaryAttempts,
      Multipart.collides (Utf8.encode (e.toDocument .referenced)) e.attachments
        (Multipart.boundaryOf (ids n)) = true
    (¬taken → (¬e.body.IsFault → result = some (.ok e)) ∧
      ∀ f, e.fault? = some f → result = some (.error (.fault f))) ∧
    (taken → result = some (.error (.parse .noFreeBoundary))) := by
  intro result taken
  have hnormal := Envelope.normal_of_build henvelope
  constructor
  · intro hfree
    have hm : ∃ m, c.encodeBody ids e = .ok m := by
      cases hm : c.encodeBody ids e with
      | ok m => exact ⟨m, rfl⟩
      | error cause =>
        refine absurd ?_ hfree
        unfold encodeBody at hm
        split at hm
        · next hboth =>
          rw [Bool.and_eq_true] at hboth
          cases hencode : Multipart.encode ids e with
          | ok m =>
            rw [hencode] at hm
            cases hm
          | error cause' =>
            refine ⟨hboth.1, ?_, (Multipart.encode_eq_error.1 hencode).2⟩
            simpa [Envelope.hasAttachments] using hboth.2
        · cases hm
    obtain ⟨m, hm⟩ := hm
    obtain ⟨hprintable, hreceived⟩ := envelope_of_encodeBody hnormal hf hs hmode hm
    obtain ⟨headers, hheaders, htype⟩ :=
      exists_requestHeaders hvalid hother hprintable haction hagent
    have hrequest : c.request ids action body =
        .ok { url := c.config.endpoint, headers, body := m.body } :=
      bind_eq_ok.2 ⟨e, henvelope, bind_eq_ok.2 ⟨m, hm, bind_eq_ok.2 ⟨headers, hheaders, rfl⟩⟩⟩
    have hresult : result = some (decodeResponse { status, headers, body := m.body }) :=
      callEnvelope_of_request hrequest status
    have he := hreceived { status, headers, body := m.body } htype rfl
    refine ⟨fun hquiet => ?_, fun f hfault => ?_⟩
    · rw [hresult, decodeResponse_of_ok (Http.Response.isSuccess_iff.2 hstatus) he
        (Envelope.fault?_eq_none.2 hquiet)]
    · rw [hresult, decodeResponse_of_fault he hfault]
  · rintro ⟨hmtom, hnone, hcollide⟩
    have hencode := Multipart.encode_eq_error.2 ⟨rfl, hcollide⟩
    have hboth : (c.config.mtom && e.hasAttachments) = true := by
      rw [hmtom]
      simpa [Envelope.hasAttachments] using hnone
    have hbody : c.encodeBody ids e = .error (.parse .noFreeBoundary) := by
      rw [encodeBody, if_pos hboth, hencode]
      rfl
    have hrequest : c.request ids action body = .error (.parse .noFreeBoundary) := by
      refine request_eq_error.2 (.inr ⟨e, henvelope, ?_⟩)
      rw [encodeRequest, hbody]
      rfl
    show (c.callEnvelope (mirror status) ids action body).result = _
    unfold callEnvelope
    rw [hrequest]
    rfl

/-- A client that sends attachments beside the envelope, under a field of its own. -/
def parcelClient : Client :=
  { config :=
      { endpoint := "http://localhost/", mtom := true
        httpHeaders := Http.FieldMap.empty.insert "X-Trace" "on" }
    headers := [{ block := { name := "Token" } }] }

theorem callEnvelope_mirror_parcel :
    (∃ headers, parcelClient.config.headerMap = .ok headers) ∧
      (∀ entry ∈ parcelClient.config.httpHeaders.entries,
        Text.lower entry.1 ≠ "content-type") ∧
      (Http.fieldValue? "urn:send").isSome = true ∧
      (Http.fieldValue? parcelClient.userAgent).isSome = true ∧
      parcelClient.envelope Multipart.parcel.body = .ok Multipart.parcel ∧
      Multipart.parcel.Faithful ∧ Multipart.parcel.Sendable ∧
        (parcelClient.callEnvelope (mirror 202) Multipart.countedIds "urn:send"
          Multipart.parcel.body).result = some (.ok Multipart.parcel) := by
  have hvalid : ∃ headers, parcelClient.config.headerMap = .ok headers :=
    ⟨_, Config.foldlM_setHeader_eq_ok.2 ⟨by decide +kernel, rfl⟩⟩
  have hother : ∀ entry ∈ parcelClient.config.httpHeaders.entries,
      Text.lower entry.1 ≠ "content-type" := by decide +kernel
  have haction : (Http.fieldValue? "urn:send").isSome = true := by decide +kernel
  have hagent : (Http.fieldValue? parcelClient.userAgent).isSome = true := by decide +kernel
  have henvelope : parcelClient.envelope Multipart.parcel.body = .ok Multipart.parcel := by rfl
  have hf : Multipart.parcel.Faithful := by decide +kernel
  have hs : Multipart.parcel.Sendable := by decide +kernel
  have hxml : Utf8.encode (Multipart.parcel.toDocument .referenced) =
      Xml.Markup.bytesOf (.declaration :: Multipart.parcel.toElement.markup .referenced) :=
    Xml.Markup.encode_renderAll _
  have hfree : Multipart.collides (Utf8.encode (Multipart.parcel.toDocument .referenced))
      Multipart.parcel.attachments (Multipart.boundaryOf (Multipart.countedIds 0)) = false := by
    rw [hxml]
    decide +kernel
  have hquiet : ¬Multipart.parcel.body.IsFault := fun h => absurd h.1 (by decide)
  refine ⟨hvalid, hother, haction, hagent, henvelope, hf, hs, ?_⟩
  refine ((callEnvelope_mirror (by decide) hvalid hother haction hagent henvelope hf hs
    (.inl rfl)).1 ?_).1 hquiet
  rintro ⟨-, -, hall⟩
  rw [hall 0 (by decide)] at hfree
  cases hfree

end Client

end SoapMtom
