import SoapMtom.Proofs.Mime.Folding
import SoapMtom.Proofs.MultipartRoundTrip

/-!
# One part for each attachment

The media type of an attachment is written into the header of its part as it is given, whatever text
that is. As long as each of its line breaks folds the field, the message comes apart into the root
part and one part for each attachment, with its content id and its bytes. A line break that does not
fold starts a field of its own, and that field can stand for one of those behind it. Main statements:

> `Multipart.comesApart_of_encode_eq_ok`: every message whose media types are folded comes apart.
>
> `Multipart.not_comesApart_smuggled`: one that smuggles a field in does not.
-/

namespace SoapMtom

open Mime (HeaderField IsFieldName IsFolded IsHeaderLine Part)

/-- An attachment whose content id was drawn when it was made. -/
def Attachment.IsFresh (a : Attachment) : Prop := ∃ id, a.contentId = freshContentId id

namespace Multipart

/-- A message that comes apart into the document of an envelope and its attachments in order. -/
def ComesApart (e : Envelope) (m : Message) : Prop :=
  ∃ b raw root others,
    boundary (Mime.MediaType.parse m.contentType) = .ok b ∧
      Mime.Framing.split b m.body = .ok raw ∧ raw.mapM Part.read = .ok (root :: others) ∧
        root.content = .ok (Utf8.encode (e.toDocument .referenced)) ∧
          List.Forall₂ (fun a p => p.contentId? = some a.contentId ∧ p.content = .ok a.data)
            e.attachments others

/-! ## One part -/

/-- The fields behind the media type of an attachment. -/
private def laterFields (id : String) : List HeaderField :=
  [{ name := "Content-Transfer-Encoding", value := "binary" },
    { name := "Content-ID", value := "<" ++ id ++ ">" }]

/-- They fit on their lines, and none of their names starts with a hyphen. -/
private theorem laterFields_writable {id : String} (h : '\n' ∉ id.toList) :
    ∀ f ∈ laterFields id, f.Writable ∧ f.name.toList.head? ≠ some '-' := by
  have hfit : Fitting "" "binary" id := ⟨by decide, rfl, by simp, h⟩
  intro f hf
  obtain ⟨hwritable, hhead⟩ := hfit.writable f (List.mem_cons_of_mem _ hf)
  rw [hhead]
  exact ⟨hwritable, by decide⟩

/-- The part of an attachment starts with its media type, however many lines that has. -/
private theorem attachmentPart_eq (a : Attachment) :
    attachmentPart a = Part.withFolded "Content-Type" a.contentType.toList
      ((laterFields a.contentId).map HeaderField.line) a.data := by
  rw [attachmentPart, partOf_eq]
  exact Part.written_cons _ _ _

private theorem isFieldName_contentType : IsFieldName "Content-Type" := by
  have hfit : Fitting "" "binary" "" := ⟨by decide, rfl, by simp, by decide⟩
  obtain ⟨hwritable, -⟩ := hfit.writable _ (List.mem_cons_self ..)
  exact ⟨hwritable.name_ne, hwritable.name_plain⟩

variable {a : Attachment}

theorem lineFeed_not_mem_of_isFresh (h : a.IsFresh) : '\n' ∉ a.contentId.toList := by
  obtain ⟨id, hid⟩ := h
  rw [hid]
  exact fun hmem => (spec_of_mem_tokenChars (mem_tokenChars_of_contentId hmem)).2.2.2.2 rfl

/-- The part of an attachment is read with the content id in brackets and the bytes. -/
theorem exists_read_eq_readPart (hid : '\n' ∉ a.contentId.toList)
    (htype : IsFolded a.contentType.toList) :
    ∃ v, Part.read (attachmentPart a) = .ok (readPart v "binary" a.contentId a.data) := by
  have hlater := laterFields_writable hid
  have hheader : ∀ l ∈ (laterFields a.contentId).map HeaderField.line, IsHeaderLine l := by
    intro l hl
    obtain ⟨f, hf, rfl⟩ := List.mem_map.1 hl
    exact (hlater f hf).1.isHeaderLine
  have hsome : (laterFields a.contentId).map HeaderField.line ≠ [] := List.cons_ne_nil _ _
  obtain ⟨v, hread⟩ := Part.read_withFolded isFieldName_contentType htype hsome hheader a.data
  rw [← attachmentPart_eq, Part.foldlM_readLine fun f hf => (hlater f hf).1] at hread
  refine ⟨v, ?_⟩
  rw [hread]
  simp only [laterFields, List.map_cons, List.map_nil, HeaderField.lowered, lower_fieldNames]
  rfl

/-- So a fresh content id is read, and the bytes of the attachment. -/
private theorem exists_read_attachmentPart (hid : a.IsFresh) (htype : IsFolded a.contentType.toList) :
    ∃ p, Part.read (attachmentPart a) = .ok p ∧ p.contentId? = some a.contentId ∧
      p.content = .ok a.data := by
  obtain ⟨v, hread⟩ := exists_read_eq_readPart (lineFeed_not_mem_of_isFresh hid) htype
  have hne : a.contentId ≠ "" := by
    obtain ⟨id, hid⟩ := hid
    rw [hid]
    exact freshContentId_ne_empty id
  exact ⟨_, hread, contentId?_readPart v "binary" hne a.data,
    content_readPart v a.contentId (by simp) a.data⟩

/-- A part holds no boundary line, if the boundary does not occur in the bytes. -/
theorem whole_of_isFolded (hid : '\n' ∉ a.contentId.toList) (htype : IsFolded a.contentType.toList)
    {boundaryId : Uuid} (hfree : Bytes.occursIn (Utf8.encode (boundaryOf boundaryId)) a.data = false) :
    Mime.Framing.Whole (Mime.Framing.delimiter (boundaryOf boundaryId)) (attachmentPart a) := by
  obtain ⟨⟨rest, hrest⟩, -⟩ := delimiter_spec boundaryId
  have hlater := laterFields_writable hid
  have hcontent := whole_of_free hfree
  rw [hrest] at hcontent ⊢
  rw [attachmentPart_eq]
  refine Part.whole_withFolded (by decide) (by decide) isFieldName_contentType (by decide)
    htype ?_
  exact Part.whole_written (by decide) (by decide) hcontent hlater

private theorem whole_attachmentPart (hid : a.IsFresh) (htype : IsFolded a.contentType.toList)
    {boundaryId : Uuid} (hfree : Bytes.occursIn (Utf8.encode (boundaryOf boundaryId)) a.data = false) :
    Mime.Framing.Whole (Mime.Framing.delimiter (boundaryOf boundaryId)) (attachmentPart a) :=
  whole_of_isFolded (lineFeed_not_mem_of_isFresh hid) htype hfree

/-! ## The message -/

/-- Whatever bytes the attachments hold, and however many lines their media types have, a message
that is written comes apart into its document and one part for each attachment. -/
theorem comesApart_of_encode_eq_ok {e : Envelope} (hid : ∀ a ∈ e.attachments, a.IsFresh)
    (htype : ∀ a ∈ e.attachments, IsFolded a.contentType.toList) {ids : IdStream} {m : Message}
    (hencode : encode ids e = .ok m) : ComesApart e m := by
  obtain ⟨n, hn, rfl⟩ := encode_eq_ok.1 hencode
  have hfree := List.find?_some hn
  rw [Bool.not_eq_true'] at hfree
  obtain ⟨hxml, hdata⟩ := collides_eq_false.1 hfree
  -- no part holds a boundary line, so the body is split into the parts
  have hsplit := split_parts (ids (n + 1)) hxml fun a ha =>
    whole_attachmentPart (hid a ha) (htype a ha) (hdata a ha)
  -- each of them is read, the root part and then those of the attachments
  obtain ⟨others, hothers⟩ := exists_forall₂ fun a ha =>
    exists_read_attachmentPart (hid a ha) (htype a ha)
  have hread : (rootPart (freshContentId (ids (n + 1)))
      (Utf8.encode (e.toDocument .referenced)) :: e.attachments.map attachmentPart).mapM Part.read =
        .ok (readPart rootPartType "8bit" (freshContentId (ids (n + 1)))
          (Utf8.encode (e.toDocument .referenced)) :: others) := by
    rw [mapM_eq_ok, rootPart_eq]
    refine .cons (read_partOf (fitting_root _) _) ?_
    rw [List.forall₂_map_left_iff]
    exact hothers.imp fun _ _ h => h.1
  have hboundary := boundary_mediaOf (ids n) (ids (n + 1))
  rw [← parse_messageType] at hboundary
  exact ⟨_, _, _, _, hboundary, hsplit, hread, content_readPart _ _ (by simp) _,
    hothers.imp fun _ _ h => h.2⟩

/-- Where a message comes apart, each attachment is what its part is read as. -/
theorem read_of_comesApart {e : Envelope} {ids : IdStream} {n : Nat}
    (hn : freeBoundary? ids (Utf8.encode (e.toDocument .referenced)) e.attachments = some n)
    (hwhole : ∀ a ∈ e.attachments,
      Mime.Framing.Whole (Mime.Framing.delimiter (boundaryOf (ids n))) (attachmentPart a))
    {m : Message} (hencode : encode ids e = .ok m) (h : ComesApart e m) {a : Attachment}
    (ha : a ∈ e.attachments) : Part.read (attachmentPart a) >>= Part.content = .ok a.data := by
  obtain ⟨n', hn', rfl⟩ := encode_eq_ok.1 hencode
  obtain rfl := Option.some.inj (hn.symm.trans hn')
  obtain ⟨b, raw, root, others, hb, hraw, hread, -, hmatch⟩ := h
  rw [parse_messageType, boundary_mediaOf] at hb
  obtain rfl := Except.ok.inj hb
  have hfree := List.find?_some hn
  rw [Bool.not_eq_true'] at hfree
  have hsplit := split_parts (ids (n + 1)) (collides_eq_false.1 hfree).1 hwhole
  obtain rfl := Except.ok.inj (hsplit.symm.trans hraw)
  -- the parts behind the root part are those of the attachments, in order
  have hothers := mapM_eq_ok.1 hread
  rw [List.forall₂_cons, List.forall₂_map_left_iff] at hothers
  have hboth : List.Forall₂ (fun a p => Part.read (attachmentPart a) >>= Part.content =
      .ok a.data ∧ p.content = .ok a.data) e.attachments others := by
    refine List.Forall₂.mp (fun a p hp hcontent => ⟨?_, hcontent.2⟩) hothers.2 hmatch
    rw [hp]
    exact hcontent.2
  exact (List.forall₂_and_left _ _).1 hboth |>.1 a ha

/-! ## A field that is smuggled in -/

/-- The field that a media type can bring along. -/
private def smuggledField : HeaderField := { name := "Content-Transfer-Encoding", value := "base64" }

/-- The attachment with that field behind its media type. -/
def smuggling (a : Attachment) : Attachment :=
  a.withContentType (a.contentType ++ "\r\nContent-Transfer-Encoding: base64")

/-- The part has that field in its header, in front of the one that it should have. -/
private theorem attachmentPart_smuggling (a : Attachment) :
    attachmentPart (smuggling a) =
      Part.written ({ name := "Content-Type", value := a.contentType } :: smuggledField ::
        laterFields a.contentId) a.data := by
  have hend : Utf8.encodeChars ['\r', '\n'] = Mime.Framing.crlf := by decide
  have hfirst : HeaderField.line { name := "Content-Type", value := (smuggling a).contentType } =
      HeaderField.line { name := "Content-Type", value := a.contentType } ++
        (['\r', '\n'] ++ smuggledField.line) := by
    simp [HeaderField.line, smuggling, Attachment.withContentType, smuggledField,
      String.toList_append]
  rw [attachmentPart, partOf_eq, partFields, laterFields, Part.written, Part.written, Part.headed,
    Part.headed]
  simp only [List.map_cons, List.flatMap_cons, hfirst, Utf8.encodeChars_append, hend,
    List.append_assoc]
  rfl

/-- All of its fields fit on their lines, and none of their names starts with a hyphen. -/
private theorem smuggling_writable (h : Fitting a.contentType "binary" a.contentId) :
    ∀ f ∈ { name := "Content-Type", value := a.contentType } :: smuggledField ::
      laterFields a.contentId, f.Writable ∧ f.name.toList.head? ≠ some '-' := by
  have hfirst := h.writable _ (List.mem_cons_self ..)
  have hname := (h.writable _ (List.mem_cons_of_mem _ (List.mem_cons_self ..))).1
  have hsmuggled : smuggledField.Writable := ⟨hname.name_ne, hname.name_plain, by decide, rfl⟩
  rw [List.forall_mem_cons, List.forall_mem_cons]
  refine ⟨⟨hfirst.1, ?_⟩, ⟨hsmuggled, by decide⟩, laterFields_writable h.id_line⟩
  rw [hfirst.2]
  decide

/-- So the part is read in base 64, whatever its bytes are. -/
theorem content_smuggling (h : Fitting a.contentType "binary" a.contentId) :
    Part.read (attachmentPart (smuggling a)) >>= Part.content =
      (Base64.decode (a.data.filter (!Text.isAsciiBlank ·))).mapError .notBase64 := by
  rw [attachmentPart_smuggling, Part.read_written fun f hf => (smuggling_writable h f hf).1]
  show Part.content _ = _
  rw [Part.content, Part.field?, List.map_cons, List.map_cons, List.find?_cons, List.find?_cons]
  simp only [HeaderField.lowered, smuggledField, lower_fieldNames]
  rfl

/-- And it holds no boundary line. -/
private theorem whole_smuggling (h : Fitting a.contentType "binary" a.contentId)
    {boundaryId : Uuid} (hfree : Bytes.occursIn (Utf8.encode (boundaryOf boundaryId)) a.data = false) :
    Mime.Framing.Whole (Mime.Framing.delimiter (boundaryOf boundaryId))
      (attachmentPart (smuggling a)) := by
  obtain ⟨⟨rest, hrest⟩, -⟩ := delimiter_spec boundaryId
  have hcontent := whole_of_free hfree
  rw [hrest] at hcontent ⊢
  rw [attachmentPart_smuggling]
  exact Part.whole_written (by decide) (by decide) hcontent (smuggling_writable h)

/-! ## Two messages -/

/-- An attachment of that media type, with a fresh content id. -/
def scan (contentType : String) (data : Bytes) : Attachment :=
  (Attachment.fresh (countedIds 7) data).withContentType contentType

/-- An envelope around one attachment. -/
def enclosing (a : Attachment) : Envelope :=
  { headers := [], body := { name := "r", children := [.attachment a] } }

private theorem build_enclosing (a : Attachment) :
    Envelope.build [] (enclosing a).body = .ok (enclosing a) := by
  rfl

private theorem attachments_enclosing (a : Attachment) : (enclosing a).attachments = [a] := by
  rfl

private theorem isFresh_scan {contentType : String} {data : Bytes} :
    ∀ a ∈ (enclosing (scan contentType data)).attachments, a.IsFresh := by
  rw [attachments_enclosing, List.forall_mem_singleton]
  exact ⟨_, rfl⟩

/-- Any boundary is free there, if there is no underscore among the bytes. -/
private theorem freeBoundary?_scan (contentType : String) {data : Bytes} (h : 95 ∉ data) :
    freeBoundary? countedIds
      (Utf8.encode ((enclosing (scan contentType data)).toDocument .referenced))
      (enclosing (scan contentType data)).attachments = some 0 := by
  have hxml : Utf8.encode ((enclosing (scan contentType data)).toDocument .referenced) =
      Xml.Markup.bytesOf (.declaration :: (enclosing (scan "" [])).toElement.markup .referenced) :=
    Xml.Markup.encode_renderAll _
  refine freeBoundary?_eq_zero _ ?_ ?_
  · rw [hxml]
    decide +kernel
  · rw [attachments_enclosing, List.forall_mem_singleton]
    exact h

theorem comesApart_folded :
    let e := enclosing (scan "text/plain;\r\n\tcharset=utf-8" [45, 45, 13, 10, 13, 10])
    Envelope.build [] e.body = .ok e ∧ (∀ a ∈ e.attachments, a.IsFresh) ∧
      (∀ a ∈ e.attachments, IsFolded a.contentType.toList) ∧
        ∃ m, encode countedIds e = .ok m ∧ ComesApart e m := by
  intro e
  have hdata : 95 ∉ ([45, 45, 13, 10, 13, 10] : Bytes) := by decide
  have htype : ∀ a ∈ e.attachments, IsFolded a.contentType.toList := by
    rw [attachments_enclosing, List.forall_mem_singleton]
    refine ⟨"text/plain;\r".toList, ["\tcharset=utf-8".toList], by decide, by decide, ?_⟩
    rw [List.forall_mem_singleton]
    exact ⟨by decide, '\t', "charset=utf-8".toList, by decide, .inr rfl⟩
  have hencode := encode_eq_ok.2 ⟨0, freeBoundary?_scan "text/plain;\r\n\tcharset=utf-8" hdata, rfl⟩
  exact ⟨build_enclosing _, isFresh_scan, htype, _, hencode,
    comesApart_of_encode_eq_ok isFresh_scan htype hencode⟩

/-- Four bytes that are also the base64 of three others. -/
def fourBytes : Attachment := scan "text/plain" (Utf8.encode "abcd")

/-- With a media type that smuggles a field in, a message does not come apart into its
attachments. -/
theorem not_comesApart_smuggled :
    let e := enclosing (smuggling fourBytes)
    Envelope.build [] e.body = .ok e ∧ (∀ a ∈ e.attachments, a.IsFresh) ∧
      ∃ m, encode countedIds e = .ok m ∧ ¬ComesApart e m := by
  intro e
  have hdata : 95 ∉ fourBytes.data := by decide
  have hfree : freeBoundary? countedIds (Utf8.encode (e.toDocument .referenced)) e.attachments =
      some 0 := freeBoundary?_scan (smuggling fourBytes).contentType hdata
  have hencode := encode_eq_ok.2 ⟨0, hfree, rfl⟩
  refine ⟨build_enclosing _, isFresh_scan, _, hencode, fun h => ?_⟩
  have hfit : Fitting fourBytes.contentType "binary" fourBytes.contentId :=
    ⟨by decide, rfl, by simp, lineFeed_not_mem_of_isFresh ⟨_, rfl⟩⟩
  have hnot := List.find?_some hfree
  rw [Bool.not_eq_true', collides_eq_false, attachments_enclosing, List.forall_mem_singleton] at hnot
  have hwhole : ∀ a ∈ [smuggling fourBytes], Mime.Framing.Whole
      (Mime.Framing.delimiter (boundaryOf (countedIds 0))) (attachmentPart a) :=
    List.forall_mem_singleton.2 (whole_smuggling hfit hnot.2)
  -- the part would have to be read as four bytes, and it is read as three
  have hread := read_of_comesApart hfree hwhole hencode h (List.mem_singleton_self _)
  rw [content_smuggling hfit] at hread
  exact absurd hread (by decide)

end Multipart

end SoapMtom
