import SoapMtom.Multipart
import SoapMtom.Proofs.ContentId
import SoapMtom.Proofs.Envelope

/-!
# References are resolved

A tree that is written with references is read with these references, and once they are resolved it
is the tree again. Main statements:

> `Element.received_represented_referenced`: what is received has a reference for each attachment.
>
> `Multipart.resolve_represented`: resolving the references gives back the tree.
-/

namespace SoapMtom

namespace Xml

theorem contentTypeNote_referenced (attributes : List Attribute) (children : List Node) :
    contentTypeNote .referenced attributes children = [] := by
  unfold contentTypeNote contentTypeToNote
  rfl

mutual

/-- A normal tree stays normal when its attachments become references. -/
theorem Element.normalize_represented (inherited : String) : ∀ e : Element,
    e.normalize inherited = e →
      (e.represented .referenced).normalize inherited = e.represented .referenced
  | ⟨ns, name, attributes, children⟩ => by
    intro h
    obtain ⟨hns, hchildren⟩ := Element.normalize_eq_self h
    rw [Element.represented, Element.normalize, hns,
      Node.normalizeAll_representAll (handedDown ns inherited) children hchildren]

theorem Node.normalizeAll_representAll (inherited : String) : ∀ ns : List Node,
    Node.normalizeAll inherited ns = ns →
      Node.normalizeAll inherited (Node.representAll .referenced ns) =
        Node.representAll .referenced ns
  | [] => fun _ => rfl
  | .element e :: rest => by
    intro h
    have he : e.normalize inherited = e := Node.element.inj (List.cons.inj h).1
    rw [Node.representAll, Node.normalizeAll, Element.normalize_represented inherited e he,
      Node.normalizeAll_representAll inherited rest (Node.normalizeAll_of_cons h)]
  | .text s :: rest => by
    intro h
    have hs : s ≠ "" := Node.text_ne_empty h (List.mem_cons_self ..)
    rw [Node.representAll, Node.normalizeAll, if_neg (by simpa using hs),
      Node.normalizeAll_representAll inherited rest (Node.normalizeAll_of_cons h)]
  | .attachment a :: rest => by
    intro h
    rw [Node.representAll, AttachmentForm.nodeOf, Node.normalizeAll,
      Node.normalizeAll_representAll inherited rest (Node.normalizeAll_of_cons h)]
  | .reference href :: rest => by
    intro h
    rw [Node.representAll, Node.normalizeAll,
      Node.normalizeAll_representAll inherited rest (Node.normalizeAll_of_cons h)]

end

/-- References stand where attachments stood, and texts stay. -/
private theorem text?_representAll (ns : List Node) :
    (Node.representAll .referenced ns).map Node.text? = ns.map Node.text? := by
  induction ns with
  | nil => rfl
  | cons n ns ih =>
    cases n with
    | element e | attachment a =>
      rw [Node.representAll, List.map_cons, List.map_cons, ih]
      rfl
    | text s | reference href => rw [Node.representAll, List.map_cons, List.map_cons, ih]

/-- A normal tree with tidy texts is received with references for its attachments. -/
theorem Element.received_represented_referenced {inherited : String} {e : Element}
    (hnormal : e.normalize inherited = e) (htidy : ∀ x ∈ e.subtree, x.Tidy) :
    (e.represented .referenced).received inherited = e.represented .referenced := by
  apply Element.received_of_tidy inherited _ (Element.normalize_represented inherited e hnormal)
  intro y hy
  obtain ⟨x, hx, rfl⟩ := Element.exists_of_mem_represented .referenced e y hy
  refine (htidy x hx).congr ?_
  rw [Element.represented_eq]
  exact text?_representAll x.children

mutual

/-- Every reference of the tree that is written stands for an attachment of the tree. -/
theorem Element.exists_of_mem_references {r : Reference} : ∀ (outer : List String) (e : Element),
    (∀ x ∈ e.subtree, ∀ n ∈ x.children, n.isReference = false) →
      r ∈ (e.represented .referenced).references outer →
        ∃ x ∈ e.subtree, ∃ a, .attachment a ∈ x.children ∧ r.href = attachmentHref a
  | outer, ⟨ns, name, attributes, children⟩ => by
    intro h hr
    rw [Element.represented, Element.references] at hr
    rcases Node.exists_of_mem_references (name :: outer) children (h _ (Element.mem_subtree_self _))
      (fun x hx => h x (Element.mem_subtree_of_below hx)) hr with
      ⟨a, ha, hhref⟩ | ⟨x, hx, a, ha, hhref⟩
    · exact ⟨_, Element.mem_subtree_self _, a, ha, hhref⟩
    · exact ⟨x, Element.mem_subtree_of_below hx, a, ha, hhref⟩

theorem Node.exists_of_mem_references {r : Reference} : ∀ (outer : List String) (ns : List Node),
    (∀ n ∈ ns, n.isReference = false) →
      (∀ x ∈ Node.subtrees ns, ∀ n ∈ x.children, n.isReference = false) →
        r ∈ Node.references outer (Node.representAll .referenced ns) →
          (∃ a, .attachment a ∈ ns ∧ r.href = attachmentHref a) ∨
            ∃ x ∈ Node.subtrees ns, ∃ a, .attachment a ∈ x.children ∧ r.href = attachmentHref a
  | outer, [] => by
    intro _ _ hr
    cases hr
  | outer, .element e :: rest => by
    intro hns h hr
    rw [Node.subtrees] at h
    rw [Node.representAll, Node.references, List.mem_append] at hr
    rw [Node.subtrees]
    rcases hr with hr | hr
    · obtain ⟨x, hx, a, ha, hhref⟩ := Element.exists_of_mem_references outer e
        (fun x hx => h x (List.mem_append_left _ hx)) hr
      exact .inr ⟨x, List.mem_append_left _ hx, a, ha, hhref⟩
    · rcases Node.exists_of_mem_references outer rest
        (fun n hn => hns n (List.mem_cons_of_mem _ hn))
        (fun x hx => h x (List.mem_append_right _ hx)) hr with ⟨a, ha, hhref⟩ | ⟨x, hx, a, ha, hhref⟩
      · exact .inl ⟨a, List.mem_cons_of_mem _ ha, hhref⟩
      · exact .inr ⟨x, List.mem_append_right _ hx, a, ha, hhref⟩
  | outer, .text _ :: rest => by
    intro hns h hr
    rcases Node.exists_of_mem_references outer rest
      (fun n hn => hns n (List.mem_cons_of_mem _ hn)) h hr with ⟨a, ha, hhref⟩ | hx
    · exact .inl ⟨a, List.mem_cons_of_mem _ ha, hhref⟩
    · exact .inr hx
  | outer, .attachment b :: rest => by
    intro hns h hr
    rw [Node.representAll, AttachmentForm.nodeOf, Node.references, List.mem_cons] at hr
    rcases hr with rfl | hr
    · exact .inl ⟨b, List.mem_cons_self .., rfl⟩
    · rcases Node.exists_of_mem_references outer rest
        (fun n hn => hns n (List.mem_cons_of_mem _ hn)) h hr with ⟨a, ha, hhref⟩ | hx
      · exact .inl ⟨a, List.mem_cons_of_mem _ ha, hhref⟩
      · exact .inr hx
  | outer, .reference _ :: rest => by
    intro hns
    exact absurd (hns _ (List.mem_cons_self ..)) (by simp [Node.isReference])

end

end Xml

namespace Multipart

open Xml (Element Node attachmentHref)

/-- The reference that is written for an attachment finds what its content id finds. -/
theorem target?_attachmentHref (attachments : List Attachment) (a : Attachment) :
    target? attachments (attachmentHref a) = find? attachments a.contentId := by
  rw [target?, attachmentHref, ContentId.ofReference?_encode]
  rfl

mutual

/-- Where every attachment is found under its content id, resolving the references gives back the
tree. -/
theorem resolve_represented {attachments : List Attachment} : ∀ e : Element,
    (∀ x ∈ e.subtree, ∀ n ∈ x.children, n.isReference = false) →
      (∀ x ∈ e.subtree, ∀ a, .attachment a ∈ x.children →
        find? attachments a.contentId = some a) →
          resolve attachments (e.represented .referenced) = e
  | ⟨ns, name, attributes, children⟩ => by
    intro hr hfind
    rw [Element.represented, resolve, Xml.contentTypeNote_referenced, List.append_nil,
      resolveAll_representAll children (hr _ (Element.mem_subtree_self _))
        (hfind _ (Element.mem_subtree_self _)) (fun x hx => hr x (Element.mem_subtree_of_below hx))
        fun x hx => hfind x (Element.mem_subtree_of_below hx)]

theorem resolveAll_representAll {attachments : List Attachment} : ∀ ns : List Node,
    (∀ n ∈ ns, n.isReference = false) →
      (∀ a, .attachment a ∈ ns → find? attachments a.contentId = some a) →
        (∀ x ∈ Node.subtrees ns, ∀ n ∈ x.children, n.isReference = false) →
          (∀ x ∈ Node.subtrees ns, ∀ a, .attachment a ∈ x.children →
            find? attachments a.contentId = some a) →
              resolveAll attachments (Node.representAll .referenced ns) = ns
  | [] => fun _ _ _ _ => rfl
  | .element e :: rest => by
    intro hns hhere hr hfind
    rw [Node.subtrees] at hr hfind
    rw [Node.representAll, resolveAll,
      resolve_represented e (fun x hx => hr x (List.mem_append_left _ hx)) fun x hx =>
        hfind x (List.mem_append_left _ hx),
      resolveAll_representAll rest (fun n hn => hns n (List.mem_cons_of_mem _ hn))
        (fun a ha => hhere a (List.mem_cons_of_mem _ ha))
        (fun x hx => hr x (List.mem_append_right _ hx)) fun x hx =>
          hfind x (List.mem_append_right _ hx)]
  | .text s :: rest => by
    intro hns hhere hr hfind
    rw [Node.representAll, resolveAll,
      resolveAll_representAll rest (fun n hn => hns n (List.mem_cons_of_mem _ hn))
        (fun a ha => hhere a (List.mem_cons_of_mem _ ha)) hr hfind]
  | .attachment a :: rest => by
    intro hns hhere hr hfind
    -- the reference names the content id, under which this very attachment is found
    rw [Node.representAll, Xml.AttachmentForm.nodeOf, resolveAll, target?_attachmentHref,
      hhere a (List.mem_cons_self ..),
      resolveAll_representAll rest (fun n hn => hns n (List.mem_cons_of_mem _ hn))
        (fun b hb => hhere b (List.mem_cons_of_mem _ hb)) hr hfind]
  | .reference href :: rest => by
    intro hns
    exact absurd (hns _ (List.mem_cons_self ..)) (by simp [Node.isReference])

end

mutual

/-- A tree without references stays as it is. -/
theorem resolve_eq_self (attachments : List Attachment) : ∀ e : Element,
    (∀ x ∈ e.subtree, ∀ n ∈ x.children, n.isReference = false) → resolve attachments e = e
  | ⟨ns, name, attributes, children⟩ => by
    intro h
    rw [resolve, resolveAll_eq_self attachments children (h _ (Element.mem_subtree_self _))
      fun x hx => h x (Element.mem_subtree_of_below hx)]

theorem resolveAll_eq_self (attachments : List Attachment) : ∀ ns : List Node,
    (∀ n ∈ ns, n.isReference = false) →
      (∀ x ∈ Node.subtrees ns, ∀ n ∈ x.children, n.isReference = false) →
        resolveAll attachments ns = ns
  | [] => fun _ _ => rfl
  | .element e :: rest => by
    intro hns h
    rw [Node.subtrees] at h
    rw [resolveAll, resolve_eq_self attachments e fun x hx => h x (List.mem_append_left _ hx),
      resolveAll_eq_self attachments rest (fun n hn => hns n (List.mem_cons_of_mem _ hn))
        fun x hx => h x (List.mem_append_right _ hx)]
  | .text s :: rest => by
    intro hns h
    rw [resolveAll, resolveAll_eq_self attachments rest
      (fun n hn => hns n (List.mem_cons_of_mem _ hn)) h]
  | .attachment a :: rest => by
    intro hns h
    rw [resolveAll, resolveAll_eq_self attachments rest
      (fun n hn => hns n (List.mem_cons_of_mem _ hn)) h]
  | .reference href :: rest => by
    intro hns
    exact absurd (hns _ (List.mem_cons_self ..)) (by simp [Node.isReference])

end

/-- The frames of an envelope hold no references of their own. -/
theorem resolve_framing (attachments : List Attachment) (name : String) (parts : List Element) :
    resolve attachments (Envelope.framing name parts) =
      Envelope.framing name (parts.map (resolve attachments)) := by
  have hchildren : resolveAll attachments (parts.map .element) =
      (parts.map (resolve attachments)).map .element := by
    induction parts with
    | nil => rfl
    | cons part parts ih => rw [List.map_cons, resolveAll, ih]; rfl
  rw [Envelope.framing, resolve, hchildren]
  rfl

end Multipart

end SoapMtom
