import Mathlib.Data.Bool.AllAny
import SoapMtom.Multipart
import SoapMtom.Proofs.Mime.Framing
import SoapMtom.Proofs.Mime.MediaType
import SoapMtom.Proofs.Mime.Part
import SoapMtom.Proofs.Outcome

/-!
# The parts of a message are found again

A message that was written around an envelope comes apart into the same parts: a boundary that does
not occur in the envelope or in an attachment keeps them apart, whatever their bytes are. Main
statements:

> `Multipart.read_partOf`: one part is read as its fields and its content.
>
> `Multipart.parts_join`: a message of parts is read as these parts, the root part first.
-/

namespace SoapMtom

/-! ## Identifiers as text -/

/-- The digits of an identifier. -/
theorem Uuid.mem_digits {id : Uuid} {c : Char} (h : c ∈ id.digits) :
    c ∈ "0123456789abcdef".toList := by
  have hdigit : ∀ n < 16, Uuid.hexDigit n ∈ "0123456789abcdef".toList := by decide
  have hall : ∀ width n, ∀ c ∈ Uuid.hexDigits width n, c ∈ "0123456789abcdef".toList := by
    intro width
    induction width with
    | zero =>
      intro n c hc
      cases hc
    | succ width ih =>
      intro n c hc
      rcases List.mem_append.1 hc with hc | hc
      · exact ih _ c hc
      · rw [List.mem_singleton.1 hc]
        exact hdigit _ (Nat.mod_lt _ (by decide))
  exact hall 32 id.toNat c h

theorem Uuid.toList_simple (id : Uuid) : id.simple.toList = id.digits := String.toList_ofList

theorem Uuid.length_digits (id : Uuid) : id.digits.length = 32 := by
  have hall : ∀ width n, (Uuid.hexDigits width n).length = width := by
    intro width
    induction width with
    | zero => exact fun _ => rfl
    | succ width ih =>
      intro n
      rw [Uuid.hexDigits, List.length_append, ih, List.length_singleton]
  exact hall 32 id.toNat

namespace Multipart

/-- The characters that boundaries and fresh content ids are made of. -/
def tokenChars : List Char :=
  "MIMEBoundary_".toList ++ ("0123456789abcdef".toList ++ contentIdSuffix.toList)

/-- They are ASCII characters, and none of them means anything in a header or ends a line. -/
theorem spec_of_mem_tokenChars {c : Char} (h : c ∈ tokenChars) :
    c.toNat < 128 ∧ c ≠ '\x22' ∧ c ≠ '\\' ∧ c ≠ '\r' ∧ c ≠ '\n' := by
  have hall : ∀ d ∈ tokenChars,
      d.toNat < 128 ∧ d ≠ '\x22' ∧ d ≠ '\\' ∧ d ≠ '\r' ∧ d ≠ '\n' :=
    List.all_iff_forall_prop.1 (by decide)
  exact hall c h

theorem mem_tokenChars_of_boundary {id : Uuid} {c : Char} (h : c ∈ (boundaryOf id).toList) :
    c ∈ tokenChars := by
  rw [boundaryOf, String.toList_append, Uuid.toList_simple] at h
  rcases List.mem_append.1 h with h | h
  · exact List.mem_append_left _ h
  · exact List.mem_append_right _ (List.mem_append_left _ (Uuid.mem_digits h))

theorem mem_tokenChars_of_contentId {id : Uuid} {c : Char} (h : c ∈ (freshContentId id).toList) :
    c ∈ tokenChars := by
  rw [freshContentId, String.toList_append, Uuid.toList_simple] at h
  rcases List.mem_append.1 h with h | h
  · exact List.mem_append_right _ (List.mem_append_left _ (Uuid.mem_digits h))
  · exact List.mem_append_right _ (List.mem_append_right _ h)

theorem utf8ByteSize_boundaryOf (id : Uuid) : (boundaryOf id).utf8ByteSize = 45 := by
  have hascii : ∀ c ∈ (boundaryOf id).toList, c.toNat < 128 :=
    fun c hc => (spec_of_mem_tokenChars (mem_tokenChars_of_boundary hc)).1
  have hlength : (boundaryOf id).toList.length = 45 := by
    rw [boundaryOf, String.toList_append, List.length_append, Uuid.toList_simple,
      Uuid.length_digits]
    rfl
  rw [← Utf8.length_encode, Utf8.encode_eq_encodeChars, Utf8.encodeChars_of_ascii hascii,
    List.length_map, hlength]

/-! ## One part -/

/-- A part as it is read. -/
def readPart (type encoding id : String) (content : Bytes) : Mime.Part :=
  { fields :=
      [{ name := "content-type", value := type },
        { name := "content-transfer-encoding", value := encoding },
        { name := "content-id", value := "<" ++ id ++ ">" }]
    body := content }

/-- The fields in the header of a part. -/
def partFields (type encoding id : String) : List Mime.HeaderField :=
  [{ name := "Content-Type", value := type },
    { name := "Content-Transfer-Encoding", value := encoding },
    { name := "Content-ID", value := "<" ++ id ++ ">" }]

/-- A part is written as three fields and its content. -/
theorem partOf_eq (type encoding id : String) (content : Bytes) :
    partOf type encoding id content =
      Mime.Part.written (partFields type encoding id) content := by
  have hend : Utf8.encodeChars ['\r', '\n'] = Mime.Framing.crlf := by decide
  have hchars : ("Content-Type: " ++ type ++ "\r\nContent-Transfer-Encoding: " ++ encoding ++
      "\r\nContent-ID: <" ++ id ++ ">\r\n\r\n").toList =
        ((partFields type encoding id).map Mime.HeaderField.line).flatMap (· ++ ['\r', '\n']) ++
          ['\r', '\n'] := by
    simp [Mime.HeaderField.line, partFields, String.toList_append]
  unfold partOf Mime.Part.written Mime.Part.headed
  rw [Utf8.encode_eq_encodeChars, hchars, Utf8.encodeChars_append, Utf8.encodeChars_flatMap]
  simp only [Utf8.encodeChars_append, hend]

private theorem toList_bracketed (id : String) :
    ("<" ++ id ++ ">").toList = '<' :: (id.toList ++ ['>']) := by
  simp [String.toList_append]

/-- There are no blanks around angle brackets. -/
private theorem trimChars_bracketed (cs : List Char) :
    Text.trimChars ('<' :: (cs ++ ['>'])) = '<' :: (cs ++ ['>']) := by
  refine Text.trimChars_of_ends (fun c hc => ?_) fun c hc => ?_
  · obtain rfl := Option.some.inj hc
    decide
  · rw [← List.cons_append, List.getLast?_concat] at hc
    obtain rfl := Option.some.inj hc
    decide

/-- Texts that can be written into the header of a part. -/
structure Fitting (type encoding id : String) : Prop where
  type_line : '\n' ∉ type.toList
  type_trim : Text.trim type = type
  encoding : encoding ∈ ["binary", "8bit"]
  id_line : '\n' ∉ id.toList

/-- Each field of a part fits on its line, and its name has no hyphen in front. -/
theorem Fitting.writable {type encoding id : String} (h : Fitting type encoding id) :
    ∀ f ∈ partFields type encoding id,
      f.Writable ∧ f.name.toList.head? = some 'C' := by
  have hnames : ∀ name ∈ ["Content-Type", "Content-Transfer-Encoding", "Content-ID"],
      name ≠ "" ∧ (∀ c ∈ name.toList, c ≠ ':' ∧ Text.isBlank c = false) ∧
        name.toList.head? = some 'C' := by
    simp only [← List.all_iff_forall_prop]
    decide
  have hencodings : ∀ e ∈ ["binary", "8bit"], '\n' ∉ e.toList ∧ Text.trim e = e := by
    decide
  obtain ⟨hencodingLine, hencodingTrim⟩ := hencodings encoding h.encoding
  have hidLine : '\n' ∉ ("<" ++ id ++ ">").toList := by
    rw [toList_bracketed]
    simpa using h.id_line
  have hidTrim : Text.trim ("<" ++ id ++ ">") = "<" ++ id ++ ">" := by
    rw [Text.trim, toList_bracketed, trimChars_bracketed, ← toList_bracketed, String.ofList_toList]
  have hwritable : ∀ {name value : String},
      name ∈ ["Content-Type", "Content-Transfer-Encoding", "Content-ID"] →
        '\n' ∉ value.toList → Text.trim value = value →
          (⟨name, value⟩ : Mime.HeaderField).Writable ∧ name.toList.head? = some 'C' :=
    fun hname hline htrim => ⟨⟨(hnames _ hname).1, (hnames _ hname).2.1, hline, htrim⟩,
      (hnames _ hname).2.2⟩
  intro f hf
  rw [partFields, List.mem_cons, List.mem_cons, List.mem_singleton] at hf
  rcases hf with rfl | rfl | rfl
  · exact hwritable (by simp) h.type_line h.type_trim
  · exact hwritable (by simp) hencodingLine hencodingTrim
  · exact hwritable (by simp) hidLine hidTrim

/-- The names under which the fields of a part are read. -/
theorem lower_fieldNames : Text.lower "Content-Type" = "content-type" ∧
    Text.lower "Content-Transfer-Encoding" = "content-transfer-encoding" ∧
      Text.lower "Content-ID" = "content-id" := ⟨rfl, rfl, rfl⟩

/-- A part whose fields fit on their lines is read as it was. -/
theorem read_partOf {type encoding id : String} (h : Fitting type encoding id) (content : Bytes) :
    Mime.Part.read (partOf type encoding id content) = .ok (readPart type encoding id content) := by
  rw [partOf_eq, Mime.Part.read_written fun f hf => (h.writable f hf).1]
  simp only [partFields, List.map_cons, List.map_nil, Mime.HeaderField.lowered, lower_fieldNames]
  rfl

theorem withoutBrackets_bracketed (id : String) :
    Mime.withoutBrackets ("<" ++ id ++ ">").toList = id.toList := by
  rw [toList_bracketed, Mime.withoutBrackets, trimChars_bracketed]
  show (if (id.toList ++ ['>']).getLast? = some '>' then (id.toList ++ ['>']).dropLast else _) = _
  rw [if_pos List.getLast?_concat, List.dropLast_concat]

theorem contentId?_readPart (type encoding : String) {id : String} (hid : id ≠ "")
    (content : Bytes) :
    (readPart type encoding id content).contentId? = some id := by
  have hfield : (readPart type encoding id content).field? "content-id" =
      some ("<" ++ id ++ ">") := rfl
  rw [Mime.Part.contentId?, hfield, Option.map_some, withoutBrackets_bracketed,
    String.ofList_toList, Option.filter_some, if_pos]
  simpa using hid

theorem content_readPart (type id : String) {encoding : String}
    (hencoding : encoding ∈ ["binary", "8bit"]) (content : Bytes) :
    (readPart type encoding id content).content = .ok content := by
  have hall : ∀ e ∈ ["binary", "8bit"], Text.lower e ∈ ["binary", "8bit", "7bit"] := by decide
  have hfield : (readPart type encoding id content).field? "content-transfer-encoding" =
      some encoding := rfl
  rw [Mime.Part.content, hfield, Option.map_some]
  dsimp only
  rw [if_pos (hall encoding hencoding)]
  rfl

/-! ## The boundary -/

/-- A boundary line starts with a hyphen, and there is no line break in it. -/
theorem delimiter_spec (id : Uuid) :
    (∃ rest, Mime.Framing.delimiter (boundaryOf id) = 45 :: rest) ∧
      13 ∉ Mime.Framing.delimiter (boundaryOf id) ∧
        Mime.Framing.lineFeed ∉ Mime.Framing.delimiter (boundaryOf id) := by
  refine ⟨⟨_, Mime.Framing.delimiter_eq _⟩, Mime.Framing.lineBreaks_not_mem_delimiter ?_⟩
  intro c hc
  exact (spec_of_mem_tokenChars (mem_tokenChars_of_boundary hc)).2.2.2

/-- A boundary is free if it occurs neither in the document nor in an attachment. -/
theorem collides_eq_false {xml : Bytes} {attachments : List Attachment} {boundary : String} :
    collides xml attachments boundary = false ↔
      Bytes.occursIn (Utf8.encode boundary) xml = false ∧
        ∀ a ∈ attachments, Bytes.occursIn (Utf8.encode boundary) a.data = false := by
  simp only [collides, Bool.or_eq_false_iff, List.any_eq_false, Bool.not_eq_true]

/-- Boundaries have an underscore in them. The first one is free where there is none. -/
theorem freeBoundary?_eq_zero (ids : IdStream) {xml : Bytes} {attachments : List Attachment}
    (hxml : 95 ∉ xml) (hdata : ∀ a ∈ attachments, 95 ∉ a.data) :
    freeBoundary? ids xml attachments = some 0 := by
  have hunderscore : 95 ∈ Utf8.encode (boundaryOf (ids 0)) := by
    rw [boundaryOf, Utf8.encode_append]
    exact List.mem_append_left _ (by decide)
  have hfree : ∀ {content : Bytes}, 95 ∉ content →
      Bytes.occursIn (Utf8.encode (boundaryOf (ids 0))) content = false := by
    intro content hcontent
    rw [Bytes.occursIn_eq_false]
    exact fun hinside => hcontent (hinside.subset hunderscore)
  have hcollides : collides xml attachments (boundaryOf (ids 0)) = false :=
    collides_eq_false.2 ⟨hfree hxml, fun a ha => hfree (hdata a ha)⟩
  show List.find? _ (0 :: _) = _
  rw [List.find?_cons, hcollides]
  rfl

/-- Where the boundary does not occur, there is no boundary line. -/
theorem whole_of_free {boundaryId : Uuid} {content : Bytes}
    (hfree : Bytes.occursIn (Utf8.encode (boundaryOf boundaryId)) content = false) :
    Mime.Framing.Whole (Mime.Framing.delimiter (boundaryOf boundaryId)) content := by
  refine Mime.Framing.whole_of_not_occurs fun hinside => ?_
  rw [Mime.Framing.delimiter, Utf8.encode_append] at hinside
  exact Bytes.occursIn_eq_false.1 hfree ((List.suffix_append ..).isInfix.trans hinside)

/-- The header of a part holds no boundary line, and its content none if the boundary does not occur
in it. -/
theorem whole_partOf {boundaryId : Uuid} {type encoding id : String}
    (h : Fitting type encoding id) {content : Bytes}
    (hfree : Bytes.occursIn (Utf8.encode (boundaryOf boundaryId)) content = false) :
    Mime.Framing.Whole (Mime.Framing.delimiter (boundaryOf boundaryId))
      (partOf type encoding id content) := by
  obtain ⟨⟨rest, hrest⟩, -⟩ := delimiter_spec boundaryId
  have hcontent := whole_of_free hfree
  have hstart : ∀ f ∈ partFields type encoding id,
      f.Writable ∧ f.name.toList.head? ≠ some (Char.ofNat (45 : UInt8).toNat) := by
    intro f hf
    obtain ⟨hwritable, hhead⟩ := h.writable f hf
    rw [hhead]
    exact ⟨hwritable, by decide⟩
  rw [hrest] at hcontent ⊢
  rw [partOf_eq]
  exact Mime.Part.whole_written (by decide) (by decide) hcontent hstart

/-! ## The message -/

/-- The media type of a message with that boundary and that root part. -/
def mediaOf (boundary id : String) : Mime.MediaType :=
  { essence := "multipart/related"
    parameters :=
      [("type", rootType), ("boundary", boundary), ("start", "<" ++ id ++ ">"),
        ("start-info", envelopeType)] }

/-- Nothing in a token has to be escaped in quotes. -/
private theorem escapeQuoted_of_tokenChars {s : String} (h : ∀ c ∈ s.toList, c ∈ tokenChars) :
    Mime.MediaType.escapeQuoted s.toList = s.toList :=
  Mime.MediaType.escapeQuoted_of_plain fun c hc =>
    ⟨(spec_of_mem_tokenChars (h c hc)).2.1, (spec_of_mem_tokenChars (h c hc)).2.2.1⟩

theorem messageType_eq (boundaryId rootId : Uuid) :
    messageType (boundaryOf boundaryId) (freshContentId rootId) =
      (mediaOf (boundaryOf boundaryId) (freshContentId rootId)).written := by
  have hfixed : ∀ s ∈ [rootType, envelopeType, "<", ">"],
      Mime.MediaType.escapeQuoted s.toList = s.toList := by decide
  have hboundary : Mime.MediaType.escapeQuoted (boundaryOf boundaryId).toList =
      (boundaryOf boundaryId).toList :=
    escapeQuoted_of_tokenChars fun _ hc => mem_tokenChars_of_boundary hc
  have hid : Mime.MediaType.escapeQuoted (freshContentId rootId).toList =
      (freshContentId rootId).toList :=
    escapeQuoted_of_tokenChars fun _ hc => mem_tokenChars_of_contentId hc
  apply String.toList_inj.1
  unfold messageType Mime.MediaType.written mediaOf
  simp only [String.toList_append, List.flatMap_cons, List.flatMap_nil, Mime.MediaType.segmentOf,
    String.toList_ofList, Mime.MediaType.escapeQuoted_append, hfixed rootType (by simp),
    hfixed envelopeType (by simp), hfixed "<" (by simp), hfixed ">" (by simp), hboundary, hid]
  simp

/-- The media type of a message is read as it was written. -/
theorem parse_messageType (boundaryId rootId : Uuid) :
    Mime.MediaType.parse (messageType (boundaryOf boundaryId) (freshContentId rootId)) =
      mediaOf (boundaryOf boundaryId) (freshContentId rootId) := by
  have hessence : ∀ c ∈ "multipart/related".toList, c ≠ ';' ∧ c ≠ '\x22' :=
    List.all_iff_forall_prop.1 (by decide)
  have hlower : Text.lower (Text.trim "multipart/related") = "multipart/related" := by
    decide
  have hnames : ∀ name ∈ ["type", "boundary", "start", "start-info"],
      (∀ c ∈ name.toList, c ≠ ';' ∧ c ≠ '\x22' ∧ c ≠ '=') ∧
        Text.lower (Text.trim name) = name := by
    simp only [← List.all_iff_forall_prop]
    decide
  have hname : ∀ p ∈ (mediaOf (boundaryOf boundaryId) (freshContentId rootId)).parameters,
      p.1 ∈ ["type", "boundary", "start", "start-info"] := by
    intro p hp
    simp only [mediaOf, List.mem_cons, List.not_mem_nil, or_false] at hp
    rcases hp with rfl | rfl | rfl | rfl <;> simp
  rw [messageType_eq, Mime.MediaType.parse_written ⟨hessence, fun p hp => (hnames _ (hname p hp)).1,
    fun p hp => (hnames _ (hname p hp)).2⟩]
  exact congrArg (Mime.MediaType.mk · _) hlower

/-- The boundary of a message is fit to be one. -/
theorem boundary_mediaOf (boundaryId rootId : Uuid) :
    boundary (mediaOf (boundaryOf boundaryId) (freshContentId rootId)) =
      .ok (boundaryOf boundaryId) := by
  have hmultipart : ∀ b id, (mediaOf b id).isMultipart = true := by
    intro b id
    show "multipart/".toList.isPrefixOf "multipart/related".toList = true
    decide
  have hparameter : ∀ b id, (mediaOf b id).parameter? "boundary" = some b := fun _ _ => rfl
  have hbreaks : (boundaryOf boundaryId).toList.any (fun c => c = '\r' || c = '\n') = false := by
    rw [List.any_eq_false]
    intro c hc
    have hspec := spec_of_mem_tokenChars (mem_tokenChars_of_boundary hc)
    simp [hspec.2.2.2]
  have hempty : (boundaryOf boundaryId).isEmpty = false := by
    rw [Bool.eq_false_iff, ne_eq, String.isEmpty_iff]
    intro he
    have hsize := utf8ByteSize_boundaryOf boundaryId
    rw [he] at hsize
    exact absurd hsize (by decide)
  rw [boundary, hmultipart, hparameter]
  dsimp only
  rw [hempty, hbreaks, utf8ByteSize_boundaryOf, if_neg (by simp), if_neg (by decide)]

/-- The root part is found by its content id. -/
theorem rootPlace_mediaOf (boundary : String) {id : String} {root : Mime.Part}
    (h : root.contentId? = some id) (others : List Mime.Part) :
    rootPlace (mediaOf boundary id) (root :: others) = .ok 0 := by
  have hparameter : (mediaOf boundary id).parameter? "start" = some ("<" ++ id ++ ">") := rfl
  rw [rootPlace, hparameter]
  dsimp only
  rw [withoutBrackets_bracketed, String.ofList_toList, List.findIdx?_cons, h]
  simp

/-- The attachment in a part that holds one. -/
theorem attachmentOf_readPart {encoding : String} (hencoding : encoding ∈ ["binary", "8bit"])
    {a : Attachment} (hid : a.contentId ≠ "") :
    attachmentOf (readPart a.contentType encoding a.contentId a.data) = .ok (some a) := by
  have htype : (readPart a.contentType encoding a.contentId a.data).field? "content-type" =
      some a.contentType := rfl
  rw [attachmentOf, contentId?_readPart _ _ hid]
  dsimp only
  rw [content_readPart _ _ hencoding, htype]
  rfl

theorem freshContentId_ne_empty (id : Uuid) : freshContentId id ≠ "" := by
  intro h
  have hlist : (freshContentId id).toList = [] := String.toList_eq_nil_iff.2 h
  rw [freshContentId, String.toList_append, Uuid.toList_simple] at hlist
  have hdigits := Uuid.length_digits id
  rw [(List.append_eq_nil_iff.1 hlist).1] at hdigits
  exact absurd hdigits (by decide)

/-- The content type that is written for the root part. -/
def rootPartType : String := rootType ++ "; charset=UTF-8; type=\"" ++ envelopeType ++ "\""

theorem rootPart_eq (id : String) (xml : Bytes) :
    rootPart id xml = partOf rootPartType "8bit" id xml := by
  unfold rootPart rootPartType
  rfl

/-- The root part fits whatever the identifier is. -/
theorem fitting_root (rootId : Uuid) : Fitting rootPartType "8bit" (freshContentId rootId) := by
  refine ⟨by decide, by decide, by simp, fun h => ?_⟩
  exact (spec_of_mem_tokenChars (mem_tokenChars_of_contentId h)).2.2.2.2 rfl

/-- A part that holds an attachment, as it is read. -/
def readAttachmentPart (a : Attachment) : Mime.Part :=
  readPart a.contentType "binary" a.contentId a.data

/-- No part of a message holds a boundary line, if the parts of the attachments hold none. -/
theorem whole_of_mem_parts (rootId : Uuid) {boundaryId : Uuid} {xml : Bytes}
    (hxml : Bytes.occursIn (Utf8.encode (boundaryOf boundaryId)) xml = false)
    {attachments : List Attachment}
    (hwhole : ∀ a ∈ attachments,
      Mime.Framing.Whole (Mime.Framing.delimiter (boundaryOf boundaryId)) (attachmentPart a)) :
    ∀ part ∈ rootPart (freshContentId rootId) xml :: attachments.map attachmentPart,
      Mime.Framing.Whole (Mime.Framing.delimiter (boundaryOf boundaryId)) part := by
  intro part hpart
  rcases List.mem_cons.1 hpart with hpart | hpart
  · rw [hpart, rootPart_eq]
    exact whole_partOf (fitting_root rootId) hxml
  · obtain ⟨a, ha, rfl⟩ := List.mem_map.1 hpart
    exact hwhole a ha

/-- A message that is joined from parts is split into them, if none holds a boundary line. -/
theorem split_parts (rootId : Uuid) {boundaryId : Uuid} {xml : Bytes}
    (hxml : Bytes.occursIn (Utf8.encode (boundaryOf boundaryId)) xml = false)
    {attachments : List Attachment}
    (hwhole : ∀ a ∈ attachments,
      Mime.Framing.Whole (Mime.Framing.delimiter (boundaryOf boundaryId)) (attachmentPart a)) :
    Mime.Framing.split (boundaryOf boundaryId)
        (Mime.Framing.join (boundaryOf boundaryId)
          (rootPart (freshContentId rootId) xml :: attachments.map attachmentPart)) =
      .ok (rootPart (freshContentId rootId) xml :: attachments.map attachmentPart) :=
  Mime.Framing.split_join (delimiter_spec boundaryId).2.1 (delimiter_spec boundaryId).2.2
    (List.cons_ne_nil _ _) (whole_of_mem_parts rootId hxml hwhole)

/-- A message that is joined from parts is read as these parts, the root part first. -/
theorem parts_join (rootId : Uuid) {boundaryId : Uuid} {xml : Bytes}
    {attachments : List Attachment} (hfree : collides xml attachments (boundaryOf boundaryId) = false)
    (hfit : ∀ a ∈ attachments, Fitting a.contentType "binary" a.contentId) :
    parts (mediaOf (boundaryOf boundaryId) (freshContentId rootId))
        (Mime.Framing.join (boundaryOf boundaryId)
          (rootPart (freshContentId rootId) xml :: attachments.map attachmentPart)) =
      .ok (readPart rootPartType "8bit" (freshContentId rootId) xml,
        attachments.map readAttachmentPart) := by
  obtain ⟨hxml, hdata⟩ := collides_eq_false.1 hfree
  -- the message comes apart, each part is read, and the root part is found
  have hsplit := split_parts rootId hxml fun a ha =>
    whole_partOf (hfit a ha) (hdata a ha)
  have hread : (rootPart (freshContentId rootId) xml :: attachments.map attachmentPart).mapM
      Mime.Part.read = .ok (readPart rootPartType "8bit" (freshContentId rootId) xml ::
        attachments.map readAttachmentPart) := by
    rw [mapM_eq_ok, rootPart_eq]
    refine .cons (read_partOf (fitting_root rootId) xml) ?_
    rw [List.forall₂_map_left_iff, List.forall₂_map_right_iff, List.forall₂_same]
    exact fun a ha => read_partOf (hfit a ha) a.data
  have hroot := contentId?_readPart rootPartType "8bit" (freshContentId_ne_empty rootId) xml
  have hplace := rootPlace_mediaOf (boundaryOf boundaryId) hroot
    (attachments.map readAttachmentPart)
  unfold parts
  rw [boundary_mediaOf]
  refine bind_eq_ok.2 ⟨_, rfl, bind_eq_ok.2 ⟨_, hsplit, bind_eq_ok.2 ⟨_, hread, ?_⟩⟩⟩
  rw [hplace]
  rfl

/-- The attachments are found in their parts. -/
theorem attachmentsOf_readAttachmentPart {attachments : List Attachment}
    (hid : ∀ a ∈ attachments, a.contentId ≠ "") :
    attachmentsOf (attachments.map readAttachmentPart) = .ok attachments := by
  have hread : (attachments.map readAttachmentPart).mapM attachmentOf =
      .ok (attachments.map some) := by
    rw [mapM_eq_ok, List.forall₂_map_left_iff, List.forall₂_map_right_iff, List.forall₂_same]
    exact fun a ha => attachmentOf_readPart (by simp) (hid a ha)
  rw [attachmentsOf, hread]
  simp [Except.map]

end Multipart

end SoapMtom
