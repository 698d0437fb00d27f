import SoapMtom.Proofs.Call
import SoapMtom.Proofs.Closed
import SoapMtom.Proofs.Http
import SoapMtom.Proofs.Mime.MediaType
import SoapMtom.Proofs.Mime.Part
import SoapMtom.Proofs.Resolution

/-!
# Documents on their own and in messages

A document that refers to nothing can be delivered on its own or as the root part of a message,
whatever other parts, paddings and header lines that message has. Both are taken in alike: the same
envelope, the same fault, the same fault in the document. Main statements:

> `Multipart.decode_enclosed`: the message is read as the document.
>
> `decodeResponse_enclosed`.
-/

namespace SoapMtom

namespace Multipart

open Xml (Element Node)
open Mime.Framing (delimiter)

/-! ## Nothing to resolve -/

/-- A document that lists no reference has none in its tree. -/
theorem resolve_of_references_eq_nil {bs : Bytes} {document : Xml.Document}
    (h : Xml.Document.read bs = .ok document) (hnone : document.references = [])
    (attachments : List Attachment) : resolve attachments document.root = document.root := by
  refine resolve_eq_self attachments document.root fun x hx n hn => ?_
  cases n with
  | element _ | text _ | attachment _ => rfl
  | reference href =>
    obtain ⟨r, hr, -⟩ := Xml.Document.exists_mem_references h hx hn
    rw [hnone] at hr
    cases hr

/-! ## Enclosures -/

/-- A message around a document, which is the content of its root part. -/
structure Enclosure where
  /-- The content type. -/
  media : Mime.MediaType
  boundary : String
  preamble : Bytes := []
  /-- The other parts: those before the root part, and those after it. -/
  before : List Mime.Framing.Piece := []
  after : List Mime.Framing.Piece := []
  /-- What stands after the boundary in front of the root part. -/
  padding : Bytes := []
  /-- The header lines of the root part. -/
  header : List (List Char) := []
  /-- The fields that these lines write. -/
  fields : List Mime.HeaderField := []
  epilogue : Bytes := []

namespace Enclosure

/-- The root part with its boundary line. -/
def rootPiece (c : Enclosure) (x : Bytes) : Mime.Framing.Piece :=
  { padding := c.padding, part := Mime.Part.headed c.header x }

/-- All parts of the message. -/
def pieces (c : Enclosure) (x : Bytes) : List Mime.Framing.Piece :=
  c.before ++ c.rootPiece x :: c.after

/-- The message with that document. -/
def message (c : Enclosure) (x : Bytes) : Bytes :=
  Mime.Framing.framed c.boundary c.preamble (c.pieces x) c.epilogue

/-- The root part as it is read. -/
def root (c : Enclosure) (x : Bytes) : Mime.Part := { fields := c.fields, body := x }

/-- The part that comes first is the root part if the content type names none. If it names one, that
is the first part with this content id. -/
def Starts (c : Enclosure) : Prop :=
  match c.media.parameter? "start" with
  | none => c.before = []
  | some start =>
    let id := String.ofList (Mime.withoutBrackets start.toList)
    (c.root []).contentId? = some id ∧
      ∀ p ∈ c.before, ∀ part, Mime.Part.read p.part = .ok part → part.contentId? ≠ some id

/-- The message is well-formed, and its other parts can be read. -/
structure Proper (c : Enclosure) (x : Bytes) : Prop where
  media : c.media.Writable
  multipart : isMultipart c.media.written = true
  printable : Http.IsPrintable c.media.written
  boundary : c.media.parameter? "boundary" = some c.boundary
  boundary_length : 1 ≤ c.boundary.length ∧ c.boundary.length ≤ maxBoundaryLength
  boundary_visible : ∀ ch ∈ c.boundary.toList, 33 ≤ ch.toNat ∧ ch.toNat < 127
  preamble : Mime.Framing.Preamble (delimiter c.boundary) c.preamble
  padding_line : Mime.Framing.lineFeed ∉ c.padding
  padding_open : ([45, 45] : Bytes).isPrefixOf c.padding = false
  /-- No header line and no line of the document starts like a boundary line. -/
  header : ∀ l ∈ c.header, Mime.IsHeaderLine l ∧
    (delimiter c.boundary).isPrefixOf (Utf8.encodeChars l ++ Mime.Framing.crlf) = false
  document : Mime.Framing.Whole (delimiter c.boundary) x
  fields : c.header.foldlM Mime.Part.readLine [] = .ok c.fields.reverse
  encoding : ∀ encoding, (c.root x).field? "content-transfer-encoding" = some encoding →
    Text.lower encoding ∈ ["binary", "8bit", "7bit"]
  fits : ∀ p ∈ c.before ++ c.after, p.Fits (delimiter c.boundary)
  readable : ∀ p ∈ c.before ++ c.after, ∃ part found,
    Mime.Part.read p.part = .ok part ∧ attachmentOf part = .ok found
  starts : c.Starts

variable {c : Enclosure} {x : Bytes}

/-- A boundary of visible characters has no line break in it. -/
theorem Proper.boundary_unbroken (h : c.Proper x) :
    ∀ ch ∈ c.boundary.toList, ch ≠ '\r' ∧ ch ≠ '\n' := by
  intro ch hch
  have hvisible := (h.boundary_visible ch hch).1
  constructor
  · rintro rfl
    exact absurd hvisible (by decide)
  · rintro rfl
    exact absurd hvisible (by decide)

/-- So there is none in a boundary line either. -/
theorem Proper.delimiter_spec (h : c.Proper x) :
    (∃ rest, delimiter c.boundary = 45 :: rest) ∧ 13 ∉ delimiter c.boundary ∧
      Mime.Framing.lineFeed ∉ delimiter c.boundary :=
  ⟨⟨_, Mime.Framing.delimiter_eq c.boundary⟩,
    Mime.Framing.lineBreaks_not_mem_delimiter h.boundary_unbroken⟩

theorem Proper.boundary_eq (h : c.Proper x) :
    Multipart.boundary (Mime.MediaType.parse c.media.written) = .ok c.boundary := by
  obtain ⟨hlow, hhigh⟩ := h.boundary_length
  have hascii : ∀ ch ∈ c.boundary.toList, ch.toNat < 128 := fun ch hch =>
    Nat.lt_succ_of_lt (h.boundary_visible ch hch).2
  have hsize : c.boundary.utf8ByteSize = c.boundary.length := by
    rw [← Utf8.length_encode, Utf8.encode_eq_encodeChars, Utf8.encodeChars_of_ascii hascii,
      List.length_map, String.length_toList]
  have hempty : c.boundary.isEmpty = false := by
    rw [Bool.eq_false_iff, ne_eq, String.isEmpty_iff]
    intro he
    rw [he] at hlow
    exact absurd hlow (by decide)
  have hbreaks : c.boundary.toList.any (fun ch => ch = '\r' || ch = '\n') = false := by
    rw [List.any_eq_false]
    intro ch hch
    simpa using h.boundary_unbroken ch hch
  have hmultipart : (Mime.MediaType.parse c.media.written).isMultipart = true := h.multipart
  rw [Multipart.boundary, hmultipart, Mime.MediaType.parameter?_parse_written h.media, h.boundary]
  dsimp only
  rw [if_neg (by simp), hempty, hbreaks, hsize, decide_eq_false (Nat.not_lt_of_le hhigh)]
  rw [if_neg (by simp)]

/-- The message comes apart into its parts. -/
theorem Proper.split_message (h : c.Proper x) :
    Mime.Framing.split c.boundary (c.message x) =
      .ok ((c.pieces x).map Mime.Framing.Piece.part) := by
  obtain ⟨⟨rest, hrest⟩, hcr, hlf⟩ := h.delimiter_spec
  refine Mime.Framing.split_framed hcr hlf h.preamble (by simp [pieces]) ?_ c.epilogue
  intro p hp
  rw [pieces, List.mem_append, List.mem_cons] at hp
  rcases hp with hp | rfl | hp
  · exact h.fits p (List.mem_append_left _ hp)
  · refine ⟨h.padding_line, h.padding_open, ?_, by simp [rootPiece]⟩
    have hheader := h.header
    have hdocument := h.document
    rw [hrest] at hheader hdocument ⊢
    exact Mime.Part.whole_headed (by decide)
      (fun l hl => ⟨(hheader l hl).1.unbroken, (hheader l hl).2⟩) hdocument
  · exact h.fits p (List.mem_append_right _ hp)

/-- The root part is read as its fields and the document. -/
theorem Proper.read_root (h : c.Proper x) :
    Mime.Part.read (c.rootPiece x).part = .ok (c.root x) := by
  rw [rootPiece, Mime.Part.read_headed (fun l hl => (h.header l hl).1), h.fields]
  show Except.ok ({ fields := c.fields.reverse.reverse, body := x } : Mime.Part) = _
  rw [List.reverse_reverse]
  rfl

theorem Proper.content_root (h : c.Proper x) : (c.root x).content = .ok x := by
  rw [Mime.Part.content]
  cases hfield : (c.root x).field? "content-transfer-encoding" with
  | none => rfl
  | some encoding =>
    rw [Option.map_some]
    dsimp only
    rw [if_pos (h.encoding encoding hfield)]
    rfl

/-- The root part is found among the parts. -/
theorem Proper.rootPlace_eq (h : c.Proper x) {before after : List Mime.Part}
    (hbefore : (c.before.map Mime.Framing.Piece.part).mapM Mime.Part.read = .ok before) :
    rootPlace (Mime.MediaType.parse c.media.written) (before ++ c.root x :: after) =
      .ok before.length := by
  have hstarts := h.starts
  unfold Starts at hstarts
  rw [rootPlace, Mime.MediaType.parameter?_parse_written h.media]
  cases hstart : c.media.parameter? "start" with
  | none =>
    rw [hstart] at hstarts
    dsimp only at hstarts
    rw [hstarts] at hbefore
    cases hbefore
    rfl
  | some start =>
    rw [hstart] at hstarts
    obtain ⟨hid, hother⟩ := hstarts
    have hplace : (before ++ c.root x :: after).findIdx?
        (·.contentId? = some (String.ofList (Mime.withoutBrackets start.toList))) =
          some before.length := by
      rw [List.findIdx?_append]
      have hnone : before.findIdx?
          (·.contentId? = some (String.ofList (Mime.withoutBrackets start.toList))) = none := by
        rw [List.findIdx?_eq_none_iff]
        intro part hpart
        obtain ⟨raw, hraw, hread⟩ := exists_of_forall₂ (mapM_eq_ok.1 hbefore) hpart
        obtain ⟨p, hp, rfl⟩ := List.mem_map.1 hraw
        exact decide_eq_false (hother p hp part hread)
      have hroot : (c.root x).contentId? =
          some (String.ofList (Mime.withoutBrackets start.toList)) := hid
      rw [hnone, List.findIdx?_cons, hroot]
      simp
    dsimp only
    rw [hplace]

/-- The message is read as its parts, and all but the root part as attachments. -/
theorem Proper.exists_parts (h : c.Proper x) :
    ∃ others attachments,
      parts (Mime.MediaType.parse c.media.written) (c.message x) = .ok (c.root x, others) ∧
        attachmentsOf others = .ok attachments := by
  have hread : ∀ ps : List Mime.Framing.Piece, (∀ p ∈ ps, p ∈ c.before ++ c.after) →
      ∃ read, (ps.map Mime.Framing.Piece.part).mapM Mime.Part.read = .ok read ∧
        ∀ part ∈ read, ∃ found, attachmentOf part = .ok found := by
    intro ps hps
    have hall : ∀ raw ∈ ps.map Mime.Framing.Piece.part, ∃ part found,
        Mime.Part.read raw = .ok part ∧ attachmentOf part = .ok found := by
      intro raw hraw
      obtain ⟨p, hp, rfl⟩ := List.mem_map.1 hraw
      exact h.readable p (hps p hp)
    obtain ⟨read, hread⟩ := exists_mapM_eq_ok fun raw hraw =>
      (hall raw hraw).imp fun part hpart => hpart.choose_spec.1
    refine ⟨read, hread, fun part hpart => ?_⟩
    obtain ⟨raw, hraw, hpart⟩ := exists_of_forall₂ (mapM_eq_ok.1 hread) hpart
    obtain ⟨part', found, hpart', hfound⟩ := hall raw hraw
    rw [hpart] at hpart'
    cases hpart'
    exact ⟨found, hfound⟩
  obtain ⟨before, hbefore, hfirst⟩ := hread c.before fun p hp => List.mem_append_left _ hp
  obtain ⟨after, hafter, hlast⟩ := hread c.after fun p hp => List.mem_append_right _ hp
  have hmapM : ((c.pieces x).map Mime.Framing.Piece.part).mapM Mime.Part.read =
      .ok (before ++ c.root x :: after) := by
    rw [mapM_eq_ok, pieces, List.map_append, List.map_cons]
    exact List.rel_append (mapM_eq_ok.1 hbefore)
      (.cons h.read_root (mapM_eq_ok.1 hafter))
  have hothers : ∀ part ∈ before ++ after, ∃ found, attachmentOf part = .ok found :=
    fun part hpart => (List.mem_append.1 hpart).elim (hfirst part) (hlast part)
  obtain ⟨found, hfound⟩ := exists_mapM_eq_ok hothers
  exact ⟨before ++ after, found.filterMap id,
    (parts_eq_ok_iff h.boundary_eq h.split_message).2
      ⟨before, after, hmapM, h.rootPlace_eq hbefore, rfl⟩,
    attachmentsOf_eq_ok.2 ⟨found, hfound, rfl⟩⟩

end Enclosure

/-- A message is read as the document in it, if that refers to nothing. -/
theorem decode_enclosed {c : Enclosure} {x : Bytes} (hc : c.Proper x)
    (hx : ∀ document, Xml.Document.read x = .ok document → document.references = []) :
    (decode c.media.written (c.message x)).map (·.1) = Envelope.ofPlain x := by
  obtain ⟨others, attachments, hparts, hattachments⟩ := hc.exists_parts
  unfold decode Envelope.ofPlain
  rw [hparts]
  dsimp only [Except.mapError, bind, Except.bind]
  rw [hc.content_root]
  dsimp only
  cases hread : Xml.Document.read x with
  | error cause => rfl
  | ok document =>
    dsimp only
    rw [hattachments, hx document hread]
    dsimp only
    rw [resolve_of_references_eq_nil hread (hx document hread)]
    show ((Envelope.ofRoot document.root).mapError _ >>= _).map _ = _
    cases Envelope.ofRoot document.root <;> rfl

end Multipart

/-! ## Responses -/

/-- Two responses with one envelope and one status come to the same, up to what is shown of them when
the status reports no success. -/
theorem decodeResponse_congr {r r' : Http.Response} (hstatus : r'.status = r.status)
    (henvelope : r'.envelope = r.envelope) :
    (r.isSuccess = true → decodeResponse r' = decodeResponse r) ∧
      (∀ f, decodeResponse r' = .error (.fault f) ↔ decodeResponse r = .error (.fault f)) ∧
      (r.isSuccess = false → (∀ f, decodeResponse r ≠ .error (.fault f)) →
        decodeResponse r = .error (.http r.status r.excerpt) ∧
          decodeResponse r' = .error (.http r.status r'.excerpt)) := by
  have hsuccess : r'.isSuccess = r.isSuccess := by
    rw [Http.Response.isSuccess, Http.Response.isSuccess, hstatus]
  by_cases hquiet : ∀ e, r.envelope = .ok e → e.fault? = none
  · have hquiet' : ∀ e, r'.envelope = .ok e → e.fault? = none := by
      rw [henvelope]
      exact hquiet
    cases hok : r.isSuccess with
    | true =>
      have hsame : decodeResponse r' = decodeResponse r := by
        cases hread : r.envelope with
        | error cause =>
          rw [decodeResponse_of_error hok hread,
            decodeResponse_of_error (hsuccess.trans hok) (henvelope.trans hread)]
        | ok e =>
          rw [decodeResponse_of_ok hok hread (hquiet e hread),
            decodeResponse_of_ok (hsuccess.trans hok) (henvelope.trans hread) (hquiet e hread)]
      exact ⟨fun _ => hsame, fun f => by rw [hsame], fun h => absurd h (by simp)⟩
    | false =>
      have hfailed := decodeResponse_of_status hok hquiet
      have hfailed' := decodeResponse_of_status (hsuccess.trans hok) hquiet'
      rw [hstatus] at hfailed'
      rw [hfailed, hfailed']
      simp
  · simp only [not_forall] at hquiet
    obtain ⟨e, hread, hfault⟩ := hquiet
    obtain ⟨f, hf⟩ := Option.ne_none_iff_exists'.1 hfault
    rw [decodeResponse_of_fault hread hf, decodeResponse_of_fault (henvelope.trans hread) hf]
    simp

/-- A document that refers to nothing comes to the same on its own and as the root part of a
message. -/
theorem decodeResponse_enclosed {c : Multipart.Enclosure} {x : Bytes} (hc : c.Proper x)
    (hx : ∀ document, Xml.Document.read x = .ok document → document.references = [])
    {plain inParts : Http.Response} (hstatus : inParts.status = plain.status)
    (hplain : plain.headers.get? "content-type" = some (Utf8.encode "text/xml"))
    (hdocument : plain.body = x)
    (hparts : inParts.headers.get? "content-type" = some (Utf8.encode c.media.written))
    (hmessage : inParts.body = c.message x) :
    (plain.isSuccess = true → decodeResponse inParts = decodeResponse plain) ∧
      (∀ f, decodeResponse inParts = .error (.fault f) ↔
        decodeResponse plain = .error (.fault f)) ∧
      (plain.isSuccess = false → (∀ f, decodeResponse plain ≠ .error (.fault f)) →
        decodeResponse plain = .error (.http plain.status plain.excerpt) ∧
          decodeResponse inParts = .error (.http plain.status inParts.excerpt)) := by
  have hxml : Http.IsPrintable "text/xml" ∧ Multipart.isMultipart "text/xml" = false := by
    decide +kernel
  have hplain' : plain.contentType? = some "text/xml" := by
    rw [Http.Response.contentType?, hplain]
    exact Http.valueText?_encode hxml.1
  have hparts' : inParts.contentType? = some c.media.written := by
    rw [Http.Response.contentType?, hparts]
    exact Http.valueText?_encode hc.printable
  refine decodeResponse_congr hstatus ?_
  rw [Http.Response.envelope_eq, Http.Response.envelope_eq, hplain', hparts', Option.filter_some,
    Option.filter_some, hxml.2, hc.multipart, hdocument, hmessage]
  exact Multipart.decode_enclosed hc hx

/-- A document with a fault in it. -/
def refusal : Bytes :=
  ["<Envelope xmlns=\"http://www.w3.org/2003/05/soap-envelope\">", "<Body><Fault>",
    "<Code><Value>Sender</Value></Code>", "<Reason><Text>no</Text></Reason>",
    "</Fault></Body></Envelope>"].flatMap Utf8.encode

/-- A part whose content begins like a boundary line. -/
def photograph : Mime.Part :=
  { fields := [{ name := "content-id", value := "<photo>" }], body := Utf8.encode "--=_a" }

/-- A message with that part before the root part. -/
def album : Multipart.Enclosure where
  media :=
    { essence := "multipart/related"
      parameters := [("boundary", "=_a\\b"), ("start", "<root@x>")] }
  boundary := "=_a\\b"
  preamble := Utf8.encode "ignored\r\n"
  before := [{ part := Utf8.encode "Content-ID: <photo>\r\n\r\n--=_a" }]
  padding := [32]
  header := ["Content-ID: <root@x>".toList, "Content-Transfer-Encoding: 8Bit".toList]
  fields :=
    [{ name := "content-id", value := "<root@x>" },
      { name := "content-transfer-encoding", value := "8Bit" }]

/-- The response with the document alone, which reports a failure. -/
def refusalResponse : Http.Response :=
  { status := 500, headers := Http.Headers.insert [] "content-type" (Utf8.encode "text/xml")
    body := refusal }

/-- The response with the message. -/
def albumResponse : Http.Response :=
  { status := 500
    headers := Http.Headers.insert [] "content-type" (Utf8.encode album.media.written)
    body := album.message refusal }

theorem read_photograph :
    Mime.Part.read (Utf8.encode "Content-ID: <photo>\r\n\r\n--=_a") = .ok photograph := by
  decide +kernel

theorem album_proper : album.Proper refusal := by
  have hfield : (album.root refusal).field? "content-transfer-encoding" = some "8Bit" := by
    decide
  refine
    { media := by decide
      multipart := by decide
      printable := by decide
      boundary := by decide
      boundary_length := by decide
      boundary_visible := List.all_iff_forall_prop.1 (by decide)
      preamble := ⟨by decide, by decide⟩
      padding_line := by decide
      padding_open := by decide
      header := ?_
      document := by decide
      fields := by decide
      encoding := ?_
      fits := ?_
      readable := ?_
      starts := ?_ }
  · refine List.forall_mem_cons.2 ⟨⟨⟨by decide, ⟨'C', _, rfl, by decide⟩, by decide⟩, ?_⟩,
      List.forall_mem_singleton.2 ⟨⟨by decide, ⟨'C', _, rfl, by decide⟩, by decide⟩, ?_⟩⟩
    all_goals decide
  · rw [hfield]
    rintro _ ⟨⟩
    decide
  · exact List.forall_mem_singleton.2 ⟨by decide, by decide, by decide, by decide⟩
  · exact List.forall_mem_singleton.2 ⟨_, _, read_photograph, by rfl⟩
  · refine ⟨by decide, List.forall_mem_singleton.2 fun part hpart => ?_⟩
    rw [read_photograph] at hpart
    cases hpart
    decide

theorem decodeResponse_enclosed_album :
    album.Proper refusal ∧
      (∀ document, Xml.Document.read refusal = .ok document → document.references = []) ∧
      decodeResponse albumResponse = .error (.fault { code := "Sender", reason := "no" }) := by
  have hx : ∀ document, Xml.Document.read refusal = .ok document → document.references = [] := by
    have hnone : (Xml.Document.read refusal).map (·.references) = .ok [] := by decide +kernel
    intro document hread
    rw [hread] at hnone
    exact Except.ok.inj hnone
  have hplain : refusalResponse.headers.get? "content-type" = some (Utf8.encode "text/xml") :=
    Http.Headers.get?_insert_self ..
  have hparts :
      albumResponse.headers.get? "content-type" = some (Utf8.encode album.media.written) :=
    Http.Headers.get?_insert_self ..
  have hfault : decodeResponse refusalResponse =
      .error (.fault { code := "Sender", reason := "no" }) := by decide +kernel
  have hstatus : albumResponse.status = refusalResponse.status := rfl
  have hbody : refusalResponse.body = refusal := rfl
  have hmessage : albumResponse.body = album.message refusal := rfl
  exact ⟨album_proper, hx,
    ((decodeResponse_enclosed album_proper hx hstatus hplain hbody hparts hmessage).2.1 _).2 hfault⟩

end SoapMtom
