import SoapMtom.Proofs.Mime.Recoding
import SoapMtom.Proofs.Multipart
import SoapMtom.Proofs.PartOrder

/-!
# Messages with a part in base 64

A part of a message may be given in base 64 in place of its content as it is, the root part as well
as one that holds an attachment. The message is read as before. Main statements:

> `decode_congr`: a message is read by what its parts say.
>
> `decode_recoded`.
-/

namespace SoapMtom.Multipart

open Mime (Part)
open Mime.Part (Alike Recoded headed)
open Mime.Framing (Piece Preamble delimiter framed)

/-! ## Parts that say the same -/

/-- The same place is cut out of two lists that correspond. -/
private theorem forall₂_eraseIdx {α : Type} {R : α → α → Prop} {l l' : List α}
    (h : List.Forall₂ R l l') (n : Nat) : List.Forall₂ R (l.eraseIdx n) (l'.eraseIdx n) := by
  induction h generalizing n with
  | nil => exact .nil
  | cons hhead htail ih =>
    cases n with
    | zero => exact htail
    | succ n => exact .cons hhead (ih n)

/-- What stands at a place of two lists that correspond. -/
private theorem getElem?_of_forall₂ {α : Type} {R : α → α → Prop} {l l' : List α}
    (h : List.Forall₂ R l l') (n : Nat) :
    l[n]? = none ∧ l'[n]? = none ∨ ∃ a a', l[n]? = some a ∧ l'[n]? = some a' ∧ R a a' := by
  induction h generalizing n with
  | nil => exact .inl ⟨rfl, rfl⟩
  | @cons a a' l l' hhead _ ih =>
    cases n with
    | zero => exact .inr ⟨a, a', rfl, rfl, hhead⟩
    | succ n => exact ih n

/-- The root part has the same place in two lists of parts that say the same. -/
theorem rootPlace_congr (media : Mime.MediaType) {ps ps' : List Part}
    (h : List.Forall₂ Alike ps ps') : rootPlace media ps' = rootPlace media ps := by
  have hids : ps'.map Part.contentId? = ps.map Part.contentId? := by
    induction h with
    | nil => rfl
    | cons halike _ ih => rw [List.map_cons, List.map_cons, halike.contentId, ih]
  have hplace : ∀ id : String, ps'.findIdx? (·.contentId? = some id) =
      ps.findIdx? (·.contentId? = some id) := by
    intro id
    have hfind : ∀ l : List Part, l.findIdx? (·.contentId? = some id) =
        (l.map Part.contentId?).findIdx? (· = some id) := by
      intro l
      rw [List.findIdx?_map]
      rfl
    rw [hfind, hfind, hids]
  unfold rootPlace
  simp only [hplace]

/-- The root part and the other parts of two messages say the same. -/
def AlikeParts (found found' : Part × List Part) : Prop :=
  found.1.Alike found'.1 ∧ List.Forall₂ Alike found.2 found'.2

/-- Two messages have parts that say the same if the parts in them are read alike. -/
theorem parts_congr {media : Mime.MediaType} {b : String} (hb : boundary media = .ok b)
    {body body' : Bytes} {raw raw' : List Bytes} (hraw : Mime.Framing.split b body = .ok raw)
    (hraw' : Mime.Framing.split b body' = .ok raw')
    (hread : List.Forall₂ (fun bytes bytes' => SameOutcome Alike (Part.read bytes)
      (Part.read bytes')) raw raw') :
    SameOutcome AlikeParts (parts media body) (parts media body') := by
  unfold parts
  rw [hb]
  dsimp only [bind, Except.bind]
  rw [hraw, hraw']
  refine (SameOutcome.mapM hread).bind fun ps ps' halike => ?_
  refine (SameOutcome.of_eq (rootPlace_congr media halike).symm).bind fun n n' hn => ?_
  subst hn
  rcases getElem?_of_forall₂ halike n with ⟨hnone, hnone'⟩ | ⟨root, root', hroot, hroot', hsame⟩
  · rw [hnone, hnone']
    exact .error Mime.Malformed.noParts
  · rw [hroot, hroot']
    exact .ok ⟨hsame, forall₂_eraseIdx halike n⟩

/-- The same attachment is in two parts that say the same. -/
theorem attachmentOf_congr {p p' : Part} (h : p.Alike p') : attachmentOf p' = attachmentOf p := by
  rw [attachmentOf, attachmentOf, h.contentId, h.contentType, h.content]

theorem attachmentsOf_congr {ps ps' : List Part} (h : List.Forall₂ Alike ps ps') :
    attachmentsOf ps' = attachmentsOf ps := by
  have hfound : ps'.mapM attachmentOf = ps.mapM attachmentOf := by
    induction h with
    | nil => rfl
    | cons halike _ ih => rw [List.mapM_cons, List.mapM_cons, attachmentOf_congr halike, ih]
  rw [attachmentsOf, attachmentsOf, hfound]

/-- A message is read by what its parts say. -/
theorem decode_congr {contentType : String} {body body' : Bytes}
    (h : SameOutcome AlikeParts (parts (Mime.MediaType.parse contentType) body)
      (parts (Mime.MediaType.parse contentType) body')) :
    decode contentType body' = decode contentType body := by
  unfold decode
  refine SameOutcome.eq ?_ |>.symm
  refine (h.mapError ParseError.parts).bind fun found found' halike => ?_
  obtain ⟨hroot, hothers⟩ := halike
  obtain ⟨root, others⟩ := found
  obtain ⟨root', others'⟩ := found'
  refine SameOutcome.of_eq ?_
  dsimp only at hroot hothers ⊢
  rw [hroot.content, attachmentsOf_congr hothers]

/-! ## Messages -/

/-- The transfer encoding makes no difference: if one part of a message, whichever it is, is given
in base 64, the message is read as before, as the same envelope with the same attachments or not at
all. -/
theorem decode_recoded {contentType b : String}
    (hb : boundary (Mime.MediaType.parse contentType) = .ok b) {preamble : Bytes}
    (hpreamble : Preamble (delimiter b) preamble) {before after : List Piece} {p : Piece}
    (hfits : ∀ q ∈ before ++ p :: after, q.Fits (delimiter b)) (hclosing : p.closing = .crlf)
    {header header' : List (List Char)} {content content' : Bytes}
    (hpart : p.part = headed header content)
    (hrecoded : Recoded header header' content content') (epilogue : Bytes) :
    decode contentType (framed b preamble
        (before ++ { p with part := headed header' content' } :: after) epilogue) =
      decode contentType (framed b preamble (before ++ p :: after) epilogue) := by
  obtain ⟨hcr, hlf⟩ := Mime.Framing.lineBreaks_not_mem_delimiter (lineBreaks_of_boundary hb)
  have hfits' : ∀ q ∈ before ++ { p with part := headed header' content' } :: after,
      q.Fits (delimiter b) := by
    intro q hq
    rcases List.mem_append.1 hq with hq | hq
    · exact hfits q (List.mem_append_left _ hq)
    rcases List.mem_cons.1 hq with rfl | hq
    · obtain ⟨hline, hopen, hwhole, -⟩ :=
        hfits p (List.mem_append_right _ (List.mem_cons_self ..))
      refine ⟨hline, hopen, ?_, fun hbare => ?_⟩
      · rw [Mime.Framing.delimiter_eq] at hwhole ⊢
        rw [hpart] at hwhole
        exact hrecoded.whole hwhole
      · rw [hclosing] at hbare
        cases hbare
    · exact hfits q (List.mem_append_right _ (List.mem_cons_of_mem _ hq))
  have hraw := Mime.Framing.split_framed hcr hlf hpreamble (by simp) hfits epilogue
  have hraw' := Mime.Framing.split_framed hcr hlf hpreamble (by simp) hfits' epilogue
  refine decode_congr (parts_congr hb hraw hraw' ?_)
  have hsame : ∀ qs : List Piece, List.Forall₂ (fun bytes bytes' => SameOutcome Alike
      (Part.read bytes) (Part.read bytes')) (qs.map Piece.part) (qs.map Piece.part) := by
    intro qs
    refine List.forall₂_same.2 fun bytes _ => ?_
    cases Part.read bytes with
    | error cause => exact .error cause
    | ok q => exact .ok (.refl q)
  obtain ⟨q, q', hread, hread', halike⟩ := hrecoded.exists_read
  rw [List.map_append, List.map_append, List.map_cons, List.map_cons, hpart]
  refine List.rel_append (hsame before) (.cons ?_ (hsame after))
  rw [hread, hread']
  exact .ok halike

/-- The header of a root part that is given as it is. -/
def plainHeader : List (List Char) :=
  ["Content-Transfer-Encoding: 8bit".toList, "Content-ID: <r>".toList]

/-- The same header for base 64. -/
def wrappedHeader : List (List Char) :=
  ["content-transfer-ENCODING:Base64".toList, "Content-ID: <r>".toList]

/-- An envelope. -/
def wrappedDocument : Bytes :=
  ["<Envelope xmlns=\"", Xml.soap12, "\">", "<Body><p/></Body>", "</Envelope>"].flatMap Utf8.encode

/-- Its symbols on two lines, with a line break in front and a tab at the end. -/
def wrappedSymbols : Bytes :=
  let symbols := Base64.encode wrappedDocument
  [13, 10] ++ symbols.take 76 ++ [13, 10] ++ symbols.drop 76 ++ [9]

theorem recoded_wrapped : Recoded plainHeader wrappedHeader wrappedDocument wrappedSymbols := by
  have hlines : ∀ l ∈ plainHeader ++ wrappedHeader, Mime.IsHeaderLine l := by
    simp only [plainHeader, wrappedHeader, List.cons_append, List.nil_append, List.forall_mem_cons]
    refine ⟨?_, ?_, ?_, ?_, by simp⟩
    all_goals exact ⟨by decide, ⟨_, _, rfl, by decide⟩, by decide⟩
  have hplain : ∀ l ∈ plainHeader, Mime.IsHeaderLine l := fun l hl =>
    hlines l (List.mem_append_left _ hl)
  have hnew : "content-transfer-ENCODING:Base64".toList ∈ plainHeader ++ wrappedHeader := by
    decide
  refine ⟨hplain, ?_, ?_, by decide⟩
  · refine ⟨⟨[⟨Mime.Part.encodingName, "8bit"⟩, ⟨"content-id", "<r>"⟩], wrappedDocument⟩, ?_, ?_⟩
    · rw [Mime.Part.read_headed hplain]
      rfl
    · decide
  · refine ⟨_, "Base64", hlines _ hnew, by decide, by decide, ?_⟩
    show Mime.Part.Sets _ ([] ++ _ :: ["Content-ID: <r>".toList])
      ([] ++ _ :: ["Content-ID: <r>".toList])
    have hold : Mime.Part.SaysEncoding "Content-Transfer-Encoding: 8bit".toList "8bit" := by
      decide
    refine .replaced hold fun l hl encoding => ?_
    obtain rfl : l = "Content-ID: <r>".toList := by simpa using hl
    have hid : Mime.Part.readLine [] "Content-ID: <r>".toList =
        .ok [⟨"content-id", "<r>"⟩] := by decide
    exact Mime.Part.not_saysEncoding hid (by decide) encoding

theorem decode_recoded_wrapped :
    let root : Piece := { part := headed plainHeader wrappedDocument }
    let photo : Piece := { part := Utf8.encode "Content-ID: <photo>\r\n\r\n--B" }
    let wrapped : Piece := { part := headed wrappedHeader wrappedSymbols }
    boundary (Mime.MediaType.parse galleryType) = .ok "b" ∧ Preamble (delimiter "b") [] ∧
      (∀ q ∈ [photo] ++ root :: [], q.Fits (delimiter "b")) ∧ root.closing = .crlf ∧
      Recoded plainHeader wrappedHeader wrappedDocument wrappedSymbols ∧
      decode galleryType (framed "b" [] ([photo] ++ wrapped :: []) []) =
        decode galleryType (framed "b" [] ([photo] ++ root :: []) []) ∧
      (decode galleryType (framed "b" [] ([photo] ++ root :: []) [])).isOk = true := by
  intro root photo wrapped
  have hb : boundary (Mime.MediaType.parse galleryType) = .ok "b" := by decide +kernel
  have hpreamble : Preamble (delimiter "b") [] := by decide
  have hfits : ∀ q ∈ [photo] ++ root :: [], q.Fits (delimiter "b") := by decide +kernel
  have hsame := decode_recoded hb hpreamble hfits rfl rfl recoded_wrapped []
  have hread : (decode galleryType (framed "b" [] ([photo] ++ root :: []) [])).isOk = true := by
    decide +kernel
  exact ⟨hb, hpreamble, hfits, rfl, recoded_wrapped, hsame, hread⟩

end SoapMtom.Multipart
