import SoapMtom.Proofs.Places
import SoapMtom.Proofs.ReferenceEscapes
import SoapMtom.Proofs.Xml.Building

/-!
# Nothing is left to look up

A message that is read has an attachment in the place of every reference: the last of its parts that
carries the content id which the reference names. A reference that names no part fails the message,
wherever it stands. Main statements:

> `Multipart.decode_closed`.
>
> `Multipart.nodeAt?_of_decode`: the part stands in the place of the reference, however that spells
> the content id.
-/

namespace SoapMtom

namespace Xml

/-- No element of a document that is read holds an attachment. -/
theorem Document.detached {bs : Bytes} {doc : Document} (h : read bs = .ok doc) :
    ∀ x ∈ doc.root.subtree, Node.Detached x.children := by
  have hroot := settled (P := fun _ => True) h fun _ _ _ _ => trivial
  exact fun x hx => (hroot.settled_of_mem hx).detached

/-- A reference that is left in a document is listed. -/
theorem Document.exists_mem_references {bs : Bytes} {doc : Document} (h : read bs = .ok doc)
    {x : Element} (hx : x ∈ doc.root.subtree) {href : String} (hn : .reference href ∈ x.children) :
    ∃ r ∈ doc.references, r.href = href := by
  obtain ⟨r, hr, hhref⟩ := (Element.exists_mem_references [] doc.root).2 ⟨x, hx, hn⟩
  exact ⟨r, (references_sublist h).subset hr, hhref⟩

end Xml

namespace Multipart

open Xml (Element Node)

/-! ## Attachments in the places of references -/

/-- The last attachment of its content id. -/
def LastOfId (attachments : List Attachment) (a : Attachment) : Prop :=
  ∃ before after, attachments = before ++ a :: after ∧ ∀ b ∈ after, b.contentId ≠ a.contentId

mutual

/-- The second tree is the first with an attachment in the place of each reference: the last one
whose content id the reference names. -/
inductive Filled (attachments : List Attachment) : Element → Element → Prop
  | intro {ns : Option String} {name : String} {attributes : List Xml.Attribute}
    {children filled : List Node} (h : FilledAll attachments children filled) :
    Filled attachments ⟨ns, name, attributes, children⟩ ⟨ns, name, attributes, filled⟩

/-- Nodes, and the same nodes with attachments in the places of references. -/
inductive FilledAll (attachments : List Attachment) : List Node → List Node → Prop
  | nil : FilledAll attachments [] []
  | element {e e' : Element} {rest filled : List Node} (he : Filled attachments e e')
    (hrest : FilledAll attachments rest filled) :
    FilledAll attachments (.element e :: rest) (.element e' :: filled)
  | text (s : String) {rest filled : List Node} (hrest : FilledAll attachments rest filled) :
    FilledAll attachments (.text s :: rest) (.text s :: filled)
  | reference {href : String} {a : Attachment} {rest filled : List Node}
    (hid : ContentId.ofReference? href = some a.contentId) (ha : LastOfId attachments a)
    (hrest : FilledAll attachments rest filled) :
    FilledAll attachments (.reference href :: rest) (.attachment a :: filled)

end

variable {attachments : List Attachment}

/-- What is found under a content id is the last attachment that carries it. -/
theorem lastOfId_of_find? {id : String} {a : Attachment} (h : find? attachments id = some a) :
    LastOfId attachments a ∧ a.contentId = id := by
  obtain ⟨hid, before, after, hattachments, hnone⟩ := exists_of_find?_reverse h
  rw [decide_eq_true_eq] at hid
  refine ⟨⟨before, after, hattachments, fun b hb => ?_⟩, hid⟩
  rw [hid]
  exact decide_eq_false_iff_not.1 (hnone b hb)

/-- A reference passes the check when it finds an attachment. -/
theorem checkReference_eq_ok {r : Xml.Reference} :
    checkReference attachments r = .ok () ↔ ∃ a, target? attachments r.href = some a := by
  unfold checkReference target?
  cases ContentId.ofReference? r.href with
  | none => simp
  | some id =>
    rw [Option.bind_some]
    dsimp only
    cases find? attachments id <;> simp

/-- What a reference finds has the content id that it names. -/
theorem spec_of_target? {href : String} {a : Attachment} (h : target? attachments href = some a) :
    ContentId.ofReference? href = some a.contentId ∧ LastOfId attachments a := by
  obtain ⟨id, hid, hfind⟩ := Option.bind_eq_some_iff.1 h
  obtain ⟨hlast, rfl⟩ := lastOfId_of_find? hfind
  exact ⟨hid, hlast⟩

mutual

/-- Resolving fills a tree whose references all find their attachments. -/
theorem filled_resolve : ∀ e : Element, (∀ x ∈ e.subtree, Node.Detached x.children) →
    (∀ x ∈ e.subtree, ∀ href, .reference href ∈ x.children →
      ∃ a, target? attachments href = some a) →
    Filled attachments e (resolve attachments e)
  | ⟨ns, name, attributes, children⟩ => by
    intro hd hfound
    rw [resolve]
    exact .intro (filledAll_resolveAll children (hd _ (Element.mem_subtree_self _))
      (fun x hx => hd x (Element.mem_subtree_of_below hx)) (hfound _ (Element.mem_subtree_self _))
      fun x hx => hfound x (Element.mem_subtree_of_below hx))

theorem filledAll_resolveAll : ∀ ns : List Node, Node.Detached ns →
    (∀ x ∈ Node.subtrees ns, Node.Detached x.children) →
    (∀ href, .reference href ∈ ns → ∃ a, target? attachments href = some a) →
    (∀ x ∈ Node.subtrees ns, ∀ href, .reference href ∈ x.children →
      ∃ a, target? attachments href = some a) →
    FilledAll attachments ns (resolveAll attachments ns)
  | [] => fun _ _ _ _ => .nil
  | .element e :: rest => by
    intro hns hd hhere hfound
    rw [Node.subtrees] at hd hfound
    rw [resolveAll]
    refine .element (filled_resolve e (fun x hx => hd x (List.mem_append_left _ hx)) fun x hx =>
      hfound x (List.mem_append_left _ hx)) ?_
    exact filledAll_resolveAll rest hns.of_cons (fun x hx => hd x (List.mem_append_right _ hx))
      (fun href h => hhere href (List.mem_cons_of_mem _ h))
      fun x hx => hfound x (List.mem_append_right _ hx)
  | .text s :: rest => by
    intro hns hd hhere hfound
    rw [resolveAll]
    exact .text s (filledAll_resolveAll rest hns.of_cons hd
      (fun href h => hhere href (List.mem_cons_of_mem _ h)) hfound)
  | .attachment a :: rest => by
    intro hns
    exact absurd (hns _ (List.mem_cons_self ..)) (by simp [Node.attachment?])
  | .reference href :: rest => by
    intro hns hd hhere hfound
    obtain ⟨a, ha⟩ := hhere href (List.mem_cons_self ..)
    obtain ⟨hid, hlast⟩ := spec_of_target? ha
    rw [resolveAll, ha]
    exact .reference hid hlast (filledAll_resolveAll rest hns.of_cons hd
      (fun href h => hhere href (List.mem_cons_of_mem _ h)) hfound)

end

/-- The node is no reference, and no attachment but the last of its content id. -/
def Resolved (attachments : List Attachment) (n : Node) : Prop :=
  n.isReference = false ∧ ∀ a, n = .attachment a → LastOfId attachments a

mutual

theorem Filled.resolved : ∀ {e e' : Element}, Filled attachments e e' →
    ∀ x ∈ e'.subtree, ∀ n ∈ x.children, Resolved attachments n
  | _, _, .intro h => by
    intro x hx
    rw [Element.subtree_eq, List.mem_cons] at hx
    rcases hx with rfl | hx
    · exact h.resolved.1
    · exact h.resolved.2 x hx

theorem FilledAll.resolved : ∀ {ns ns' : List Node}, FilledAll attachments ns ns' →
    (∀ n ∈ ns', Resolved attachments n) ∧
      ∀ x ∈ Node.subtrees ns', ∀ n ∈ x.children, Resolved attachments n
  | _, _, .nil => ⟨by simp, by simp [Node.subtrees]⟩
  | _, _, .element he hrest => by
    obtain ⟨hhere, hbelow⟩ := hrest.resolved
    refine ⟨List.forall_mem_cons.2 ⟨⟨rfl, by simp⟩, hhere⟩, fun x hx => ?_⟩
    rw [Node.subtrees, List.mem_append] at hx
    rcases hx with hx | hx
    · exact he.resolved x hx
    · exact hbelow x hx
  | _, _, .text s hrest => by
    obtain ⟨hhere, hbelow⟩ := hrest.resolved
    exact ⟨List.forall_mem_cons.2 ⟨⟨rfl, by simp⟩, hhere⟩, hbelow⟩
  | _, _, .reference hid ha hrest => by
    obtain ⟨hhere, hbelow⟩ := hrest.resolved
    refine ⟨List.forall_mem_cons.2 ⟨⟨rfl, fun b hb => ?_⟩, hhere⟩, hbelow⟩
    cases hb
    exact ha

end

/-! ## Messages -/

/-- The root part stands between the others, at its place. -/
theorem parts_eq_ok_iff {media : Mime.MediaType} {b : String} (hb : boundary media = .ok b)
    {body : Bytes} {raw : List Bytes} (hraw : Mime.Framing.split b body = .ok raw)
    {root : Mime.Part} {others : List Mime.Part} :
    parts media body = .ok (root, others) ↔
      ∃ before after, raw.mapM Mime.Part.read = .ok (before ++ root :: after) ∧
        rootPlace media (before ++ root :: after) = .ok before.length ∧ others = before ++ after := by
  have hrest : ∀ before after : List Mime.Part,
      (before ++ root :: after).eraseIdx before.length = before ++ after := by
    intro before after
    rw [List.eraseIdx_append_of_length_le (Nat.le_refl _), Nat.sub_self]
    rfl
  rw [parts, hb]
  constructor
  · intro h
    obtain ⟨b', hb', h⟩ := bind_eq_ok.1 h
    cases hb'
    obtain ⟨raw', hraw', h⟩ := bind_eq_ok.1 h
    obtain rfl : raw = raw' := Except.ok.inj (hraw.symm.trans hraw')
    obtain ⟨ps, hps, h⟩ := bind_eq_ok.1 h
    obtain ⟨n, hn, h⟩ := bind_eq_ok.1 h
    split at h
    · next first hfirst =>
      obtain ⟨rfl, rfl⟩ := Prod.mk.inj (Except.ok.inj h)
      obtain ⟨hlt, hget⟩ := List.getElem?_eq_some_iff.1 hfirst
      have hlength : (ps.take n).length = n := List.length_take_of_le (Nat.le_of_lt hlt)
      have hsplit : ps = ps.take n ++ first :: ps.drop (n + 1) := by
        rw [← hget, List.getElem_cons_drop, List.take_append_drop]
      refine ⟨ps.take n, ps.drop (n + 1), ?_, ?_, ?_⟩
      · rw [← hsplit]
        exact hps
      · rw [← hsplit, hlength]
        exact hn
      · rw [← hrest, ← hsplit, hlength]
    · cases h
  · rintro ⟨before, after, hps, hn, rfl⟩
    refine bind_eq_ok.2 ⟨b, rfl, bind_eq_ok.2 ⟨raw, hraw, bind_eq_ok.2 ⟨_, hps,
      bind_eq_ok.2 ⟨_, hn, ?_⟩⟩⟩⟩
    have hroot : (before ++ root :: after)[before.length]? = some root := by simp
    rw [hroot, hrest]
    rfl

theorem attachmentsOf_eq_ok {ps : List Mime.Part} :
    attachmentsOf ps = .ok attachments ↔
      ∃ found, ps.mapM attachmentOf = .ok found ∧ attachments = found.filterMap id := by
  rw [attachmentsOf, map_eq_ok]
  simp only [eq_comm]

/-- What a part is read as carries its content id. -/
theorem contentId_of_attachmentOf {p : Mime.Part} {found : Option Attachment}
    (h : attachmentOf p = .ok found) : found.map (·.contentId) = p.contentId? := by
  rw [attachmentOf] at h
  split at h
  · next hnone =>
    cases h
    exact hnone.symm
  · next id hid =>
    obtain ⟨data, -, h⟩ := bind_eq_ok.1 h
    cases h
    exact hid.symm

/-- Every attachment that is read stands in a part with its content id. -/
theorem exists_part_of_mem {parts : List Mime.Part} (h : attachmentsOf parts = .ok attachments)
    {a : Attachment} (ha : a ∈ attachments) : ∃ p ∈ parts, p.contentId? = some a.contentId := by
  obtain ⟨found, hread, rfl⟩ := attachmentsOf_eq_ok.1 h
  obtain ⟨b, hb, rfl⟩ := List.mem_filterMap.1 ha
  obtain ⟨p, hp, hpart⟩ := exists_of_forall₂ (mapM_eq_ok.1 hread) hb
  exact ⟨p, hp, (contentId_of_attachmentOf hpart).symm⟩

/-- The message has these parts beside its root part, and that holds this document. -/
def Carries (contentType : String) (body : Bytes) (others : List Mime.Part)
    (document : Xml.Document) : Prop :=
  ∃ root xml, parts (Mime.MediaType.parse contentType) body = .ok (root, others) ∧
    root.content = .ok xml ∧ Xml.Document.read xml = .ok document

theorem Carries.exists_read {contentType : String} {body : Bytes} {others : List Mime.Part}
    {document : Xml.Document} (h : Carries contentType body others document) :
    ∃ xml, Xml.Document.read xml = .ok document := by
  obtain ⟨-, xml, -, -, hread⟩ := h
  exact ⟨xml, hread⟩

theorem Carries.unique {contentType : String} {body : Bytes} {others others' : List Mime.Part}
    {document document' : Xml.Document} (h : Carries contentType body others document)
    (h' : Carries contentType body others' document') :
    others = others' ∧ document = document' := by
  obtain ⟨root, xml, hparts, hcontent, hread⟩ := h
  obtain ⟨root', xml', hparts', hcontent', hread'⟩ := h'
  rw [hparts] at hparts'
  cases hparts'
  rw [hcontent] at hcontent'
  cases hcontent'
  rw [hread] at hread'
  cases hread'
  exact ⟨rfl, rfl⟩

/-- What a message that is read went through. -/
theorem exists_of_decode {contentType : String} {body : Bytes} {e : Envelope}
    (h : decode contentType body = .ok (e, attachments)) :
    ∃ others document, Carries contentType body others document ∧
      attachmentsOf others = .ok attachments ∧
      (∀ r ∈ document.references, ∃ a, target? attachments r.href = some a) ∧
      Envelope.ofRoot (resolve attachments document.root) = .ok e := by
  obtain ⟨⟨root, others⟩, hparts, h⟩ := bind_eq_ok.1 h
  obtain ⟨xml, hcontent, h⟩ := bind_eq_ok.1 h
  obtain ⟨document, hread, h⟩ := bind_eq_ok.1 h
  obtain ⟨found, hattachments, h⟩ := bind_eq_ok.1 h
  obtain ⟨_, hcheck, h⟩ := bind_eq_ok.1 h
  obtain ⟨envelope, hroot, h⟩ := bind_eq_ok.1 h
  cases h
  rw [mapError_eq_ok] at hparts hcontent hread hattachments hcheck hroot
  exact ⟨others, document, ⟨root, xml, hparts, hcontent, hread⟩, hattachments,
    fun r hr => checkReference_eq_ok.1 (forM_eq_ok.1 hcheck r hr), hroot⟩

/-- And that is enough for a message to be read. -/
theorem Carries.decode_eq_ok {contentType : String} {body : Bytes} {others : List Mime.Part}
    {document : Xml.Document} (h : Carries contentType body others document)
    (hattachments : attachmentsOf others = .ok attachments)
    (hfound : ∀ r ∈ document.references, ∃ a, target? attachments r.href = some a) {e : Envelope}
    (hroot : Envelope.ofRoot (resolve attachments document.root) = .ok e) :
    decode contentType body = .ok (e, attachments) := by
  obtain ⟨root, xml, hparts, hcontent, hread⟩ := h
  have hcheck : document.references.forM (checkReference attachments) = .ok ⟨⟩ :=
    forM_eq_ok.2 fun r hr => checkReference_eq_ok.2 (hfound r hr)
  exact bind_eq_ok.2 ⟨_, mapError_eq_ok.2 hparts, bind_eq_ok.2 ⟨_, mapError_eq_ok.2 hcontent,
    bind_eq_ok.2 ⟨_, mapError_eq_ok.2 hread, bind_eq_ok.2 ⟨_, mapError_eq_ok.2 hattachments,
      bind_eq_ok.2 ⟨_, mapError_eq_ok.2 hcheck, bind_eq_ok.2 ⟨_, mapError_eq_ok.2 hroot, rfl⟩⟩⟩⟩⟩⟩

/-- Resolving changes what stands in the elements, and nothing else. -/
theorem ofRoot_resolve_eq (attachments : List Attachment) (root : Element) :
    Envelope.ofRoot (resolve attachments root) =
      (Envelope.ofRoot root).map (Envelope.map (resolve attachments)) := by
  apply Envelope.ofRoot_map
  rintro ⟨ns, name, attributes, children⟩
  rw [resolve]
  refine ⟨rfl, rfl, ?_⟩
  show (resolveAll attachments children).filterMap Node.element? =
    (children.filterMap Node.element?).map (resolve attachments)
  induction children with
  | nil => rfl
  | cons n children ih =>
    cases n with
    | element e =>
      rw [resolveAll]
      simp only [List.filterMap_cons, Node.element?, List.map_cons, ih]
    | text s | attachment a => exact ih
    | reference href =>
      rw [resolveAll]
      cases target? attachments href <;> exact ih

/-- The parts of the envelope are those of the document, filled. -/
theorem filled_of_decode {contentType : String} {body : Bytes} {e : Envelope}
    (h : decode contentType body = .ok (e, attachments)) :
    ∃ others document written, Carries contentType body others document ∧
      attachmentsOf others = .ok attachments ∧ Envelope.ofRoot document.root = .ok written ∧
        List.Forall₂ (Filled attachments) written.parts e.parts := by
  obtain ⟨others, document, hcarries, hattachments, hfound, hroot⟩ := exists_of_decode h
  obtain ⟨xml, hread⟩ := hcarries.exists_read
  rw [ofRoot_resolve_eq] at hroot
  cases hwritten : Envelope.ofRoot document.root with
  | error cause =>
    rw [hwritten] at hroot
    cases hroot
  | ok written =>
    rw [hwritten] at hroot
    cases hroot
    refine ⟨others, document, written, hcarries, hattachments, hwritten, ?_⟩
    have hinside := Envelope.elements_subset_of_ofRoot hwritten
    rw [Envelope.parts_map, List.forall₂_map_right_iff, List.forall₂_same]
    intro part hpart
    have hpart' : ∀ x ∈ part.subtree, x ∈ document.root.subtree := fun x hx =>
      hinside (Envelope.mem_elements_of_mem_parts hpart hx)
    refine filled_resolve part (fun x hx => Xml.Document.detached hread x (hpart' x hx)) ?_
    -- a reference that is left in the tree is one of those that were checked
    intro x hx href hn
    obtain ⟨r, hr, rfl⟩ := Xml.Document.exists_mem_references hread (hpart' x hx) hn
    exact hfound r hr

/-- Decoding is closed. In a message that is read no reference is left, and every attachment is the
last part with its content id; it stands where a reference with that content id stood. A message
with a reference that names no part is refused. -/
theorem decode_closed (contentType : String) (body : Bytes) :
    (∀ e attachments, decode contentType body = .ok (e, attachments) →
      (∀ x ∈ e.elements, ∀ n ∈ x.children, n.isReference = false) ∧
      (∀ a ∈ e.held, LastOfId attachments a) ∧
      ∃ others document written, Carries contentType body others document ∧
        attachmentsOf others = .ok attachments ∧ Envelope.ofRoot document.root = .ok written ∧
          List.Forall₂ (Filled attachments) written.parts e.parts) ∧
    ∀ others document href, Carries contentType body others document →
      ((∃ x ∈ document.root.subtree, .reference href ∈ x.children) ∨
        ∃ r ∈ document.references, r.href = href) →
      (∀ id, ContentId.ofReference? href = some id → ∀ p ∈ others, p.contentId? ≠ some id) →
        ∃ cause, decode contentType body = .error cause := by
  constructor
  · intro e attachments h
    obtain ⟨others, document, written, hcarries, hattachments, hwritten, hfilled⟩ :=
      filled_of_decode h
    have hresolved : ∀ x ∈ e.elements, ∀ n ∈ x.children, Resolved attachments n := by
      intro x hx
      obtain ⟨part, hpart, hx⟩ := List.mem_flatMap.1 hx
      obtain ⟨part', -, hpart'⟩ := exists_of_forall₂ hfilled hpart
      exact hpart'.resolved x hx
    refine ⟨fun x hx n hn => (hresolved x hx n hn).1, fun a ha => ?_,
      others, document, written, hcarries, hattachments, hwritten, hfilled⟩
    obtain ⟨x, hx, ha⟩ := Envelope.mem_held.1 ha
    exact (hresolved x hx _ ha).2 a rfl
  · intro others document href hcarries hplace hnone
    cases h : decode contentType body with
    | error cause => exact ⟨cause, rfl⟩
    | ok p =>
      obtain ⟨e, attachments⟩ := p
      obtain ⟨others', document', hcarries', hattachments, hfound, -⟩ := exists_of_decode h
      obtain ⟨rfl, rfl⟩ := hcarries.unique hcarries'
      -- the reference is listed, so it has found an attachment, which stands in a part
      have hlisted : ∃ r ∈ document.references, r.href = href := by
        rcases hplace with ⟨x, hx, hn⟩ | hlisted
        · obtain ⟨xml, hread⟩ := hcarries.exists_read
          exact Xml.Document.exists_mem_references hread hx hn
        · exact hlisted
      obtain ⟨r, hr, rfl⟩ := hlisted
      obtain ⟨a, ha⟩ := hfound r hr
      obtain ⟨hid, before, after, rfl, -⟩ := spec_of_target? ha
      have hmem : a ∈ before ++ a :: after := List.mem_append_right _ (List.mem_cons_self ..)
      obtain ⟨p, hp, hpid⟩ := exists_part_of_mem hattachments hmem
      exact absurd hpid (hnone _ hid p hp)

/-! ## References with escapes -/

mutual

theorem Filled.nodeAt? : ∀ {e e' : Element}, Filled attachments e e' → ∀ {place : Place}
    {href : String}, Node.nodeAt? e.children place = some (.reference href) →
      ∃ a, Node.nodeAt? e'.children place = some (.attachment a) ∧
        ContentId.ofReference? href = some a.contentId ∧ LastOfId attachments a
  | _, _, .intro h, _, _, hplace => h.nodeAt? hplace

/-- Where a reference stood stands the last attachment that it names. -/
theorem FilledAll.nodeAt? : ∀ {ns ns' : List Node}, FilledAll attachments ns ns' → ∀ {place : Place}
    {href : String}, Node.nodeAt? ns place = some (.reference href) →
      ∃ a, Node.nodeAt? ns' place = some (.attachment a) ∧
        ContentId.ofReference? href = some a.contentId ∧ LastOfId attachments a
  | _, _, .nil, place, _, hplace => by
    match place with
    | [] | [i] | i :: j :: place => simp [Node.nodeAt?] at hplace
  | _, _, .element he hrest, place, _, hplace => by
    rcases Node.nodeAt?_cons_eq_some.1 hplace with ⟨q, hq, rfl⟩ | ⟨-, h⟩ | ⟨e, q, h, hq, rfl⟩
    · rw [Node.nodeAt?_next]
      exact hrest.nodeAt? hq
    · cases h
    · cases h
      obtain ⟨a, ha, hspec⟩ := he.nodeAt? hq
      exact ⟨a, Node.nodeAt?_cons_eq_some.2 (.inr (.inr ⟨_, q, rfl, ha, rfl⟩)), hspec⟩
  | _, _, .text s hrest, place, _, hplace => by
    rcases Node.nodeAt?_cons_eq_some.1 hplace with ⟨q, hq, rfl⟩ | ⟨-, h⟩ | ⟨e, q, h, -, -⟩
    · rw [Node.nodeAt?_next]
      exact hrest.nodeAt? hq
    · cases h
    · cases h
  | _, _, .reference hid ha hrest, place, _, hplace => by
    rcases Node.nodeAt?_cons_eq_some.1 hplace with ⟨q, hq, rfl⟩ | ⟨rfl, h⟩ | ⟨e, q, h, -, -⟩
    · rw [Node.nodeAt?_next]
      exact hrest.nodeAt? hq
    · cases h
      exact ⟨_, rfl, hid, ha⟩
    · cases h

end

/-- Parts that are filled one by one are filled as nodes. -/
theorem filledAll_map_element {parts filled : List Element}
    (h : List.Forall₂ (Filled attachments) parts filled) :
    FilledAll attachments (parts.map .element) (filled.map .element) := by
  induction h with
  | nil => exact .nil
  | cons he _ ih => exact .element he ih

/-- In a message that is read, the last part with the content id stands in the place of a reference
that names it, however the reference spells the id. -/
theorem nodeAt?_of_decode {contentType : String} {body : Bytes} {e : Envelope}
    (h : decode contentType body = .ok (e, attachments)) :
    ∃ others document written, Carries contentType body others document ∧
      Envelope.ofRoot document.root = .ok written ∧
        ∀ place href id, written.nodeAt? place = some (.reference href) →
          ContentId.Names href id → ∃ a, e.nodeAt? place = some (.attachment a) ∧
            a.contentId = id ∧ LastOfId attachments a := by
  obtain ⟨others, document, written, hcarries, -, hwritten, hfilled⟩ := filled_of_decode h
  refine ⟨others, document, written, hcarries, hwritten, fun place href id hplace hnames => ?_⟩
  obtain ⟨a, ha, hid, hlast⟩ := (filledAll_map_element hfilled).nodeAt? hplace
  rw [ContentId.ofReference?_of_names hnames] at hid
  exact ⟨a, ha, (Option.some.inj hid).symm, hlast⟩

/-- A message whose reference spells the content id with escapes, and with two parts of that id. -/
def menu : Bytes :=
  ["--b\r\nContent-Type: text/xml\r\n\r\n",
    "<s:Envelope xmlns:s=\"http://schemas.xmlsoap.org/soap/envelope/\"><s:Body><Menu>",
    "<x:Include xmlns:x=\"http://www.w3.org/2004/08/xop/include\" href=\"cid:caf%C3%a9\"/>",
    "</Menu></s:Body></s:Envelope>\r\n",
    "--b\r\nContent-ID: <café>\r\n\r\ntea\r\n",
    "--b\r\nContent-Type: text/plain\r\nContent-ID: <café>\r\n\r\ncake\r\n",
    "--b--\r\n"].flatMap Utf8.encode

/-- That is the content id which the reference names. -/
theorem names_menu : ContentId.Names "cid:caf%C3%a9" "café" := by
  have haccent : List.Forall₂ ContentId.IsEscape (String.utf8EncodeChar 'é')
      [[37, 67, 51], [37, 97, 57]] :=
    .cons ⟨67, 51, ⟨12, 3, .inr (by decide), .inl (by decide), by decide⟩, rfl⟩
      (.cons ⟨97, 57, ⟨10, 9, .inl (by decide), .inl (by decide), by decide⟩, rfl⟩ .nil)
  have hspells : ContentId.Spells "café".toList (Utf8.encode "caf%C3%a9") :=
    .literal (c := 'c') (by decide) (.literal (c := 'a') (by decide)
      (.literal (c := 'f') (by decide) (.escaped haccent .nil)))
  have hlast : "caf%C3%a9".toList.getLast? = some '9' := by decide
  refine ContentId.names_of_spells hspells fun c hc => ?_
  obtain rfl := Option.some.inj (hlast.symm.trans hc)
  decide

example : (decode "multipart/related; boundary=b" menu).map (fun p => p.1.nodeAt? [0, 0]) =
    .ok (some (.attachment
      { data := Utf8.encode "cake", contentType := "text/plain", contentId := "café" })) := by
  decide +kernel

end Multipart

end SoapMtom
