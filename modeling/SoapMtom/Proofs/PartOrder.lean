import SoapMtom.Proofs.Closed
import SoapMtom.Proofs.Mime.Framing

/-!
# The order of parts

A content type with a `start` names the root part by its content id. The other parts are then a
collection of attachments: in whatever order they and the root part stand in a message, it is read
as the same envelope, or as none. Main statements:

> `parts_eq_ok`: with a `start`, the root part is the first one of that content id, and the others
> are those before and after it.
>
> `decode_framed_perm`.
-/

namespace SoapMtom.Multipart

open Xml (Element Node)
open Mime (Part)
open Mime.Framing (Piece Preamble delimiter framed)

/-! ## Looking up in another order -/

/-- Where content ids are distinct, what is found under one is what carries it. -/
theorem find?_eq_some_iff {attachments : List Attachment}
    (hids : (attachments.map (·.contentId)).Nodup) {id : String} {a : Attachment} :
    find? attachments id = some a ↔ a ∈ attachments ∧ a.contentId = id := by
  have hfound : ∀ {b : Attachment}, find? attachments id = some b →
      b ∈ attachments ∧ b.contentId = id := by
    intro b hb
    refine ⟨List.mem_reverse.1 (List.mem_of_find?_eq_some hb), ?_⟩
    simpa using List.find?_some hb
  refine ⟨hfound, ?_⟩
  rintro ⟨ha, rfl⟩
  cases hfind : find? attachments a.contentId with
  | none =>
    have hnone := List.find?_eq_none.1 hfind a (List.mem_reverse.2 ha)
    simp at hnone
  | some b =>
    obtain ⟨hb, hid⟩ := hfound hfind
    rw [List.inj_on_of_nodup_map hids hb ha hid]

/-- So the order of the attachments does not matter. -/
theorem find?_perm {attachments attachments' : List Attachment}
    (hperm : attachments.Perm attachments') (hids : (attachments.map (·.contentId)).Nodup) :
    find? attachments' = find? attachments := by
  have hids' : (attachments'.map (·.contentId)).Nodup := (hperm.map _).nodup_iff.1 hids
  funext id
  ext a
  rw [find?_eq_some_iff hids, find?_eq_some_iff hids', hperm.mem_iff]

mutual

/-- A tree is resolved by what is found under content ids. -/
theorem resolve_congr {attachments attachments' : List Attachment}
    (h : find? attachments' = find? attachments) : ∀ e : Element,
      resolve attachments' e = resolve attachments e
  | ⟨ns, name, attributes, children⟩ => by
    rw [resolve, resolve, resolveAll_congr h children]

theorem resolveAll_congr {attachments attachments' : List Attachment}
    (h : find? attachments' = find? attachments) : ∀ ns : List Node,
      resolveAll attachments' ns = resolveAll attachments ns
  | [] => rfl
  | .element e :: rest => by
    rw [resolveAll, resolveAll, resolve_congr h e, resolveAll_congr h rest]
  | .text s :: rest => by
    rw [resolveAll, resolveAll, resolveAll_congr h rest]
  | .attachment a :: rest => by
    rw [resolveAll, resolveAll, resolveAll_congr h rest]
  | .reference href :: rest => by
    rw [resolveAll, resolveAll, target?, target?, h, resolveAll_congr h rest]

end

/-! ## The root part and the others -/

/-- The content id that a `start` names. -/
def startId (start : String) : String := String.ofList (Mime.withoutBrackets start.toList)

/-- The first place where a test holds, as a place between what comes before and after it. -/
theorem findIdx?_eq_some_iff_append {α : Type*} {p : α → Bool} {l : List α} {n : Nat} :
    l.findIdx? p = some n ↔
      ∃ before a after, l = before ++ a :: after ∧ before.length = n ∧ p a = true ∧
        ∀ b ∈ before, p b = false := by
  induction l generalizing n with
  | nil => simp
  | cons x l ih =>
    rw [List.findIdx?_cons]
    by_cases hx : p x = true
    · rw [if_pos hx, Option.some.injEq]
      constructor
      · rintro rfl
        exact ⟨[], x, l, rfl, rfl, hx, by simp⟩
      · rintro ⟨before, a, after, hl, rfl, -, hbefore⟩
        cases before with
        | nil => rfl
        | cons y before =>
          obtain ⟨rfl, -⟩ := List.cons.inj hl
          rw [hbefore x (List.mem_cons_self ..)] at hx
          cases hx
    · rw [if_neg hx, Option.map_eq_some_iff]
      constructor
      · rintro ⟨m, hm, rfl⟩
        obtain ⟨before, a, after, rfl, rfl, ha, hbefore⟩ := ih.1 hm
        refine ⟨x :: before, a, after, rfl, rfl, ha, ?_⟩
        exact List.forall_mem_cons.2 ⟨Bool.eq_false_iff.2 hx, hbefore⟩
      · rintro ⟨before, a, after, hl, rfl, ha, hbefore⟩
        cases before with
        | nil =>
          obtain ⟨rfl, -⟩ := List.cons.inj hl
          exact absurd ha hx
        | cons y before =>
          obtain ⟨rfl, rfl⟩ := List.cons.inj hl
          exact ⟨before.length, ih.2 ⟨before, a, after, rfl, rfl, ha, fun b hb =>
            hbefore b (List.mem_cons_of_mem _ hb)⟩, rfl⟩

/-- With a `start`, the root part is the first one of that content id. -/
theorem parts_eq_ok {media : Mime.MediaType} {start : String}
    (hstart : media.parameter? "start" = some start) {b : String} (hb : boundary media = .ok b)
    {body : Bytes} {raw : List Bytes} (hraw : Mime.Framing.split b body = .ok raw) {root : Part}
    {others : List Part} :
    parts media body = .ok (root, others) ↔
      ∃ before after, raw.mapM Part.read = .ok (before ++ root :: after) ∧
        others = before ++ after ∧ root.contentId? = some (startId start) ∧
          ∀ p ∈ before, p.contentId? ≠ some (startId start) := by
  have hplace : ∀ before after : List Part,
      rootPlace media (before ++ root :: after) = .ok before.length ↔
        root.contentId? = some (startId start) ∧
          ∀ p ∈ before, p.contentId? ≠ some (startId start) := by
    intro before after
    have hfind : rootPlace media (before ++ root :: after) = .ok before.length ↔
        (before ++ root :: after).findIdx? (·.contentId? = some (startId start)) =
          some before.length := by
      rw [rootPlace, hstart]
      dsimp only
      rw [← startId]
      cases (before ++ root :: after).findIdx? (·.contentId? = some (startId start)) <;> simp
    rw [hfind, findIdx?_eq_some_iff_append]
    constructor
    · rintro ⟨before', root', after', hsame, hlength, hroot, hbefore⟩
      obtain ⟨rfl, hrest⟩ := List.append_inj hsame.symm hlength
      obtain ⟨rfl, rfl⟩ := List.cons.inj hrest
      exact ⟨by simpa using hroot, fun p hp => by simpa using hbefore p hp⟩
    · rintro ⟨hroot, hbefore⟩
      exact ⟨before, root, after, rfl, rfl, by simpa using hroot,
        fun p hp => by simpa using hbefore p hp⟩
  rw [parts_eq_ok_iff hb hraw]
  constructor
  · rintro ⟨before, after, hps, hn, hothers⟩
    exact ⟨before, after, hps, hothers, (hplace before after).1 hn⟩
  · rintro ⟨before, after, hps, hothers, hn⟩
    exact ⟨before, after, hps, (hplace before after).2 hn, hothers⟩

/-- No part in front of one has its content id, if no content id comes twice. -/
theorem contentId?_ne_of_nodup {before after : List Part} {root : Part} {id : String}
    (hroot : root.contentId? = some id)
    (hids : ((before ++ root :: after).filterMap Part.contentId?).Nodup) :
    ∀ p ∈ before, p.contentId? ≠ some id := by
  intro p hp hid
  rw [List.filterMap_append, List.filterMap_cons_some hroot, List.nodup_append] at hids
  exact hids.2.2 id (List.mem_filterMap.2 ⟨p, hp, hid⟩) id (List.mem_cons_self ..) rfl

/-! ## The attachments -/

/-- In another order, the parts hold the same attachments in another order. -/
theorem exists_attachmentsOf_perm {ps ps' : List Part} (hperm : ps.Perm ps')
    {attachments : List Attachment} (h : attachmentsOf ps = .ok attachments) :
    ∃ attachments', attachmentsOf ps' = .ok attachments' ∧ attachments.Perm attachments' := by
  obtain ⟨found, hfound, rfl⟩ := attachmentsOf_eq_ok.1 h
  obtain ⟨found', hfound', hperm'⟩ := exists_mapM_perm hperm hfound
  exact ⟨_, attachmentsOf_eq_ok.2 ⟨found', hfound', rfl⟩, hperm'.filterMap id⟩

/-- The attachments have the content ids of the parts. -/
theorem contentIds_of_attachmentsOf {ps : List Part} {attachments : List Attachment}
    (h : attachmentsOf ps = .ok attachments) :
    attachments.map (·.contentId) = ps.filterMap Part.contentId? := by
  obtain ⟨found, hfound, rfl⟩ := attachmentsOf_eq_ok.1 h
  have hall := mapM_eq_ok.1 hfound
  clear h hfound
  induction hall with
  | nil => rfl
  | @cons p a ps found hp _ ih =>
    have hid := contentId_of_attachmentOf hp
    cases a with
    | none =>
      rw [List.filterMap_cons_none hid.symm, ← ih]
      rfl
    | some a =>
      rw [List.filterMap_cons_some hid.symm, ← ih]
      rfl

/-! ## Messages -/

/-- The content id of a part that is still in bytes, if it can be read and has one. -/
def rawContentId? (raw : Bytes) : Option String := (Part.read raw).toOption.bind Part.contentId?

/-- These are the content ids of the parts that are read. -/
theorem filterMap_rawContentId? {raw : List Bytes} {ps : List Part}
    (h : raw.mapM Part.read = .ok ps) :
    raw.filterMap rawContentId? = ps.filterMap Part.contentId? := by
  have hall := mapM_eq_ok.1 h
  clear h
  induction hall with
  | nil => rfl
  | @cons bytes p raw ps hp _ ih =>
    have hid : rawContentId? bytes = p.contentId? := by
      rw [rawContentId?, hp]
      rfl
    rw [List.filterMap_cons, List.filterMap_cons, hid, ih]

section Order

variable {contentType b start : String} {body body' : Bytes} {raw raw' : List Bytes}

/-- What the message with the parts in one order carries, it carries with them in another. -/
theorem exists_carries_perm
    (hb : boundary (Mime.MediaType.parse contentType) = .ok b)
    (hstart : (Mime.MediaType.parse contentType).parameter? "start" = some start)
    (hraw : Mime.Framing.split b body = .ok raw) (hraw' : Mime.Framing.split b body' = .ok raw')
    (hperm : raw.Perm raw') (hids : (raw.filterMap rawContentId?).Nodup) {others : List Part}
    {document : Xml.Document} (h : Carries contentType body others document) :
    (others.filterMap Part.contentId?).Nodup ∧
      ∃ others', Carries contentType body' others' document ∧ others.Perm others' := by
  obtain ⟨root, xml, hparts, hcontent, hread⟩ := h
  obtain ⟨before, after, hps, rfl, hroot, -⟩ := (parts_eq_ok hstart hb hraw).1 hparts
  rw [filterMap_rawContentId? hps] at hids
  constructor
  · have hmiddle : ((before ++ root :: after).filterMap Part.contentId?).Perm
        ((root :: (before ++ after)).filterMap Part.contentId?) := List.perm_middle.filterMap _
    rw [hmiddle.nodup_iff, List.filterMap_cons_some hroot] at hids
    exact (List.nodup_cons.1 hids).2
  · -- the root part has its place among the parts in the other order
    obtain ⟨ps', hps', hall⟩ := exists_mapM_perm hperm hps
    have hmem : root ∈ ps' := hall.mem_iff.1 (List.mem_append_right _ (List.mem_cons_self ..))
    obtain ⟨before', after', rfl⟩ := List.append_of_mem hmem
    rw [(hall.filterMap _).nodup_iff] at hids
    refine ⟨before' ++ after', ⟨root, xml, ?_, hcontent, hread⟩, ?_⟩
    · exact (parts_eq_ok hstart hb hraw').2
        ⟨before', after', hps', rfl, hroot, contentId?_ne_of_nodup hroot hids⟩
    · exact (List.perm_middle.symm.trans (hall.trans List.perm_middle)).cons_inv

/-- A message that is read with its parts in one order is read with them in another: as the same
envelope, with the attachments in another order. -/
theorem exists_decode_perm
    (hb : boundary (Mime.MediaType.parse contentType) = .ok b)
    (hstart : (Mime.MediaType.parse contentType).parameter? "start" = some start)
    (hraw : Mime.Framing.split b body = .ok raw) (hraw' : Mime.Framing.split b body' = .ok raw')
    (hperm : raw.Perm raw') (hids : (raw.filterMap rawContentId?).Nodup) {e : Envelope}
    {attachments : List Attachment} (h : decode contentType body = .ok (e, attachments)) :
    ∃ attachments', decode contentType body' = .ok (e, attachments') ∧
      attachments.Perm attachments' := by
  obtain ⟨others, document, hcarries, hattachments, hfound, hroot⟩ := exists_of_decode h
  obtain ⟨hothers, others', hcarries', hperm'⟩ :=
    exists_carries_perm hb hstart hraw hraw' hperm hids hcarries
  obtain ⟨attachments', hattachments', hpermuted⟩ := exists_attachmentsOf_perm hperm' hattachments
  rw [← contentIds_of_attachmentsOf hattachments] at hothers
  have hfind := find?_perm hpermuted hothers
  refine ⟨attachments', hcarries'.decode_eq_ok hattachments' (fun r hr => ?_) ?_, hpermuted⟩
  · rw [target?, hfind]
    exact hfound r hr
  · rw [resolve_congr hfind]
    exact hroot

end Order

/-- A valid boundary has no line breaks. -/
theorem lineBreaks_of_boundary {media : Mime.MediaType} {b : String} (h : boundary media = .ok b) :
    ∀ c ∈ b.toList, c ≠ '\r' ∧ c ≠ '\n' := by
  rw [boundary] at h
  split at h
  · cases h
  · split at h
    · cases h
    · split at h
      · cases h
      · next hvalid =>
        obtain rfl := Except.ok.inj h
        rw [Bool.or_eq_true, not_or, Bool.not_eq_true, Bool.not_eq_true, List.any_eq_false] at hvalid
        intro c hc
        simpa using hvalid.2 c hc

/-- Where the content type names the root part, the order of the parts does not matter: if their
content ids are distinct, a message is read in one order exactly if it is read in another, as the
same envelope and with the attachments in another order. What else stands in the two messages,
between the parts and around them, does not matter either. -/
theorem decode_framed_perm {contentType b start : String}
    (hb : boundary (Mime.MediaType.parse contentType) = .ok b)
    (hstart : (Mime.MediaType.parse contentType).parameter? "start" = some start)
    {preamble preamble' : Bytes} (hpreamble : Preamble (delimiter b) preamble)
    (hpreamble' : Preamble (delimiter b) preamble') {pieces pieces' : List Piece}
    (hne : pieces ≠ []) (hfits : ∀ p ∈ pieces, p.Fits (delimiter b))
    (hfits' : ∀ p ∈ pieces', p.Fits (delimiter b))
    (hperm : (pieces.map Piece.part).Perm (pieces'.map Piece.part))
    (hids : ((pieces.map Piece.part).filterMap rawContentId?).Nodup) (epilogue epilogue' : Bytes) :
    let message := framed b preamble pieces epilogue
    let message' := framed b preamble' pieces' epilogue'
    ((∃ found, decode contentType message = .ok found) ↔
      ∃ found, decode contentType message' = .ok found) ∧
    ∀ e attachments e' attachments', decode contentType message = .ok (e, attachments) →
      decode contentType message' = .ok (e', attachments') →
        e' = e ∧ attachments.Perm attachments' := by
  intro message message'
  obtain ⟨hcr, hlf⟩ := Mime.Framing.lineBreaks_not_mem_delimiter (lineBreaks_of_boundary hb)
  have hne' : pieces' ≠ [] := by
    rintro rfl
    exact hne (List.map_eq_nil_iff.1 (List.perm_nil.1 hperm))
  have hraw : Mime.Framing.split b message = .ok (pieces.map Piece.part) :=
    Mime.Framing.split_framed hcr hlf hpreamble hne hfits epilogue
  have hraw' : Mime.Framing.split b message' = .ok (pieces'.map Piece.part) :=
    Mime.Framing.split_framed hcr hlf hpreamble' hne' hfits' epilogue'
  have hids' : ((pieces'.map Piece.part).filterMap rawContentId?).Nodup :=
    (hperm.filterMap _).nodup_iff.1 hids
  refine ⟨⟨?_, ?_⟩, ?_⟩
  · rintro ⟨⟨e, attachments⟩, h⟩
    obtain ⟨attachments', h', -⟩ := exists_decode_perm hb hstart hraw hraw' hperm hids h
    exact ⟨_, h'⟩
  · rintro ⟨⟨e, attachments⟩, h⟩
    obtain ⟨attachments', h', -⟩ := exists_decode_perm hb hstart hraw' hraw hperm.symm hids' h
    exact ⟨_, h'⟩
  · intro e attachments e' attachments' h h'
    obtain ⟨found, hfound, hsame⟩ := exists_decode_perm hb hstart hraw hraw' hperm hids h
    obtain ⟨rfl, rfl⟩ := Prod.mk.inj (Except.ok.inj (h'.symm.trans hfound))
    exact ⟨rfl, hsame⟩

/-- The content type of a message that names its root part. -/
def galleryType : String := "multipart/related; boundary=b; start=\"<r>\""

/-- A part without a content id, two attachments, and a root part. -/
def gallery : List Piece :=
  [{ part := Utf8.encode "\r\nno id" },
    { part := Utf8.encode "Content-ID: <note>\r\n\r\n--B" },
    { part :=
        ["Content-ID: <photo>\r\n", "Content-Transfer-Encoding: ", "base64\r\n\r\n",
          "QUJD"].flatMap Utf8.encode },
    { part :=
        ["Content-ID: <r>\r\n\r\n", "<Envelope xmlns=\"", Xml.soap12, "\">",
          "<Body><p/></Body>", "</Envelope>"].flatMap Utf8.encode }]

theorem decode_framed_perm_gallery :
    boundary (Mime.MediaType.parse galleryType) = .ok "b" ∧
      (Mime.MediaType.parse galleryType).parameter? "start" = some "<r>" ∧
      Preamble (delimiter "b") [] ∧ gallery ≠ [] ∧ (∀ p ∈ gallery, p.Fits (delimiter "b")) ∧
      (∀ p ∈ gallery.reverse, p.Fits (delimiter "b")) ∧
      (gallery.map Piece.part).Perm (gallery.reverse.map Piece.part) ∧
      ((gallery.map Piece.part).filterMap rawContentId?).Nodup ∧
      ∃ e attachments attachments',
        decode galleryType (framed "b" [] gallery []) = .ok (e, attachments) ∧
          decode galleryType (framed "b" [] gallery.reverse []) = .ok (e, attachments') ∧
            attachments.Perm attachments' := by
  have hb : boundary (Mime.MediaType.parse galleryType) = .ok "b" := by decide +kernel
  have hstart : (Mime.MediaType.parse galleryType).parameter? "start" = some "<r>" := by
    decide +kernel
  have hpreamble : Preamble (delimiter "b") [] := by decide
  have hne : gallery ≠ [] := List.cons_ne_nil _ _
  have hfits : ∀ p ∈ gallery, p.Fits (delimiter "b") := by decide +kernel
  have hfits' : ∀ p ∈ gallery.reverse, p.Fits (delimiter "b") := fun p hp =>
    hfits p (List.mem_reverse.1 hp)
  have hperm : (gallery.map Piece.part).Perm (gallery.reverse.map Piece.part) :=
    (List.reverse_perm gallery).symm.map _
  have hids : ((gallery.map Piece.part).filterMap rawContentId?).Nodup := by decide +kernel
  obtain ⟨hiff, hsame⟩ := decode_framed_perm hb hstart hpreamble hpreamble hne hfits hfits' hperm
    hids [] []
  have hread : (decode galleryType (framed "b" [] gallery [])).isOk = true := by decide +kernel
  cases h : decode galleryType (framed "b" [] gallery []) with
  | error cause =>
    rw [h] at hread
    cases hread
  | ok found =>
    obtain ⟨e, attachments⟩ := found
    obtain ⟨⟨e', attachments'⟩, h'⟩ := hiff.1 ⟨_, h⟩
    obtain ⟨rfl, hattachments⟩ := hsame e attachments e' attachments' h h'
    exact ⟨hb, hstart, hpreamble, hne, hfits, hfits', hperm, hids, e', attachments, attachments',
      rfl, h', hattachments⟩

end SoapMtom.Multipart
