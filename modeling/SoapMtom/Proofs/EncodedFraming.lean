import SoapMtom.Proofs.AttachmentParts
import SoapMtom.Proofs.Places

/-!
# The framing of a message

Whatever tree an envelope is, and whatever bytes its attachments hold, the boundary lines of the
message that is written are those between its parts and no others. The boundary is the first of the
eight that are drawn that occurs in nothing it has to hold apart. Main statement:

> `Multipart.encode_framing`.
-/

namespace SoapMtom.Multipart

open Mime (Part)

/-! ## The boundary -/

/-- The boundary occurs neither in the document of the envelope nor in an attachment. -/
def IsFree (e : Envelope) (boundary : String) : Prop :=
  ¬Utf8.encode boundary <:+: Utf8.encode (e.toDocument .referenced) ∧
    ∀ a ∈ e.attachments, ¬Utf8.encode boundary <:+: a.data

private theorem collides_eq_false_iff {e : Envelope} {boundary : String} :
    collides (Utf8.encode (e.toDocument .referenced)) e.attachments boundary = false ↔
      IsFree e boundary := by
  simp only [collides_eq_false, Bytes.occursIn_eq_false, IsFree]

/-- The first of eight boundaries that is free is taken. -/
private theorem freeBoundary?_eq_some {ids : IdStream} {e : Envelope} {k : Nat} :
    freeBoundary? ids (Utf8.encode (e.toDocument .referenced)) e.attachments = some k ↔
      k < 8 ∧ IsFree e (boundaryOf (ids k)) ∧ ∀ j < k, ¬IsFree e (boundaryOf (ids j)) := by
  rw [freeBoundary?, List.find?_range_eq_some]
  simp only [← collides_eq_false_iff, Bool.not_eq_false, List.mem_range, Bool.not_eq_true',
    Bool.not_not]
  exact and_left_comm

/-! ## The message -/

/-- A part with a header that can be read, and behind it this content as it is. -/
def HasContent (raw content : Bytes) : Prop :=
  ∃ p, Part.read raw = .ok p ∧ p.body = content ∧ p.content = .ok content

/-- A message is framed exactly: its boundary is the first one that is free, as many lines start
with it as parts are opened and closed, and between these lines stand the document and the bytes of
the first attachment of each content id, in document order. -/
theorem encode_framing {e : Envelope}
    (hline : ∀ a ∈ e.attachments, '\n' ∉ a.contentType.toList ∧ '\n' ∉ a.contentId.toList)
    (ids : IdStream) :
    let xml := Utf8.encode (e.toDocument .referenced)
    e.ListsFirst e.attachments ∧
      (∀ k, freeBoundary? ids xml e.attachments = some k ↔
        k < 8 ∧ IsFree e (boundaryOf (ids k)) ∧ ∀ j < k, ¬IsFree e (boundaryOf (ids j))) ∧
      (encode ids e = .error .noFreeBoundary ↔ ∀ k < 8, ¬IsFree e (boundaryOf (ids k))) ∧
      ∀ m, encode ids e = .ok m → ∃ k, freeBoundary? ids xml e.attachments = some k ∧
        boundary (Mime.MediaType.parse m.contentType) = .ok (boundaryOf (ids k)) ∧
        (List.range m.body.length).countP (Mime.Framing.startsLine
          (Mime.Framing.delimiter (boundaryOf (ids k))) m.body) = e.contentIds.ncard + 2 ∧
        ∃ root others, Mime.Framing.split (boundaryOf (ids k)) m.body = .ok (root :: others) ∧
          others.length = e.contentIds.ncard ∧ HasContent root xml ∧
            List.Forall₂ (fun a raw => HasContent raw a.data) e.attachments others := by
  intro xml
  refine ⟨e.listsFirst_attachments, fun k => freeBoundary?_eq_some, ?_, fun m hencode => ?_⟩
  · rw [encode_eq_error]
    simp only [← collides_eq_false_iff, Bool.not_eq_false, true_and]
    rfl
  · obtain ⟨k, hk, rfl⟩ := encode_eq_ok.1 hencode
    have hfree := collides_eq_false_iff.2 (freeBoundary?_eq_some.1 hk).2.1
    obtain ⟨hxml, hdata⟩ := collides_eq_false.1 hfree
    -- no part holds a boundary line, so the only ones are those that were joined in
    have hwhole : ∀ a ∈ e.attachments, Mime.Framing.Whole
        (Mime.Framing.delimiter (boundaryOf (ids k))) (attachmentPart a) := fun a ha =>
      whole_of_isFolded (hline a ha).2 (Mime.isFolded_of_line (hline a ha).1) (hdata a ha)
    have hparts := whole_of_mem_parts (ids (k + 1)) hxml hwhole
    obtain ⟨-, hcr, hlf⟩ := delimiter_spec (ids k)
    have hboundary := boundary_mediaOf (ids k) (ids (k + 1))
    rw [← parse_messageType] at hboundary
    have hcount := Mime.Framing.countP_startsLine_join hcr hlf hparts
    rw [List.length_cons, List.length_map, ← e.ncard_contentIds] at hcount
    refine ⟨k, hk, hboundary, hcount, _, _, split_parts (ids (k + 1)) hxml hwhole, ?_, ?_, ?_⟩
    · rw [List.length_map, e.ncard_contentIds]
    · rw [rootPart_eq]
      exact ⟨_, read_partOf (fitting_root _) _, rfl, content_readPart _ _ (by simp) _⟩
    · rw [List.forall₂_map_right_iff, List.forall₂_same]
      intro a ha
      obtain ⟨v, hread⟩ :=
        exists_read_eq_readPart (hline a ha).2 (Mime.isFolded_of_line (hline a ha).1)
      exact ⟨_, hread, rfl, content_readPart _ _ (by simp) _⟩

/-- An attachment in a header block, another one with the same content id in the payload, and one
with an empty content id in between. -/
def copies : Envelope :=
  { headers := [{ name := "h", children :=
      [.attachment { data := [45, 45], contentType := "a/b", contentId := "x" }] }]
    body := { name := "r", children :=
      [.element { name := "q", children :=
          [.attachment { data := [1], contentType := "", contentId := "" }] },
        .attachment { data := [2], contentType := "c/d", contentId := "x" }] } }

private theorem freeBoundary?_copies : freeBoundary? countedIds
    (Utf8.encode (copies.toDocument .referenced)) copies.attachments = some 0 := by
  have hxml : Utf8.encode (copies.toDocument .referenced) =
      Xml.Markup.bytesOf (.declaration :: copies.toElement.markup .referenced) :=
    Xml.Markup.encode_renderAll _
  refine freeBoundary?_eq_zero _ ?_ (by decide)
  rw [hxml]
  decide +kernel

theorem encode_framing_copies :
    (∀ a ∈ copies.attachments, '\n' ∉ a.contentType.toList ∧ '\n' ∉ a.contentId.toList) ∧
      ∃ m root first second, encode countedIds copies = .ok m ∧
        (List.range m.body.length).countP (Mime.Framing.startsLine
          (Mime.Framing.delimiter (boundaryOf (countedIds 0))) m.body) = 4 ∧
        Mime.Framing.split (boundaryOf (countedIds 0)) m.body = .ok [root, first, second] ∧
          HasContent root (Utf8.encode (copies.toDocument .referenced)) ∧
            HasContent first [45, 45] ∧ HasContent second [1] := by
  have hline : ∀ a ∈ copies.attachments,
      '\n' ∉ a.contentType.toList ∧ '\n' ∉ a.contentId.toList := by decide
  have hattachments : copies.attachments =
      [{ data := [45, 45], contentType := "a/b", contentId := "x" },
        { data := [1], contentType := "", contentId := "" }] := by rfl
  have hcount : copies.contentIds.ncard = 2 := by
    rw [copies.ncard_contentIds, hattachments]
    rfl
  have hencode := encode_eq_ok.2 ⟨0, freeBoundary?_copies, rfl⟩
  obtain ⟨-, -, -, hframing⟩ := encode_framing hline countedIds
  obtain ⟨k, hk, -, hlines, root, others, hsplit, -, hroot, hcontents⟩ := hframing _ hencode
  obtain rfl := Option.some.inj (freeBoundary?_copies.symm.trans hk)
  rw [hcount] at hlines
  simp only [hattachments, List.forall₂_cons_left_iff, List.forall₂_nil_left_iff] at hcontents
  obtain ⟨first, _, hfirst, ⟨second, _, hsecond, rfl, rfl⟩, rfl⟩ := hcontents
  exact ⟨hline, _, root, first, second, hencode, hlines, hsplit, hroot, hfirst, hsecond⟩

end SoapMtom.Multipart
