import SoapMtom.Proofs.Base64
import SoapMtom.Proofs.Xml.Received
import SoapMtom.Proofs.Xml.Represented
import SoapMtom.Xml.Field

/-!
# Trees with their attachments inlined

`Element.inlined` puts base64 text where attachments are, and notes their media types. Where every
attachment stands alone in its element, this is the tree that is received when the original is
written with inlined attachments, and the attachment can be read from it again. Main statements:

> `Element.received_represented_inlined`: what is received is the inlined tree.
>
> `Element.readAttachment_inlined`: the field yields the bytes and the media type.
-/

namespace SoapMtom.Xml

mutual

/-- The tree with base64 text in the places of attachments. An element that holds one has one more
attribute, which comes last and gives the media type. -/
def Element.inlined : Element → Element
  | ⟨ns, name, attributes, children⟩ =>
    { ns
      name
      attributes := attributes ++ (children.findSome? Node.attachment?).toList.map fun a =>
        { ns := some xmime, name := "contentType", value := a.contentType }
      children := Node.inlineAll children }

/-- The nodes with base64 text in the places of attachments; no text stands for no bytes. -/
def Node.inlineAll : List Node → List Node
  | [] => []
  | .element e :: rest => .element e.inlined :: Node.inlineAll rest
  | .text s :: rest => .text s :: Node.inlineAll rest
  | .attachment a :: rest =>
    if a.isEmpty then Node.inlineAll rest
    else .text (Base64.encodeText a.data) :: Node.inlineAll rest
  | .reference href :: rest => .reference href :: Node.inlineAll rest

end

theorem Element.inlined_eq (e : Element) :
    e.inlined =
      { ns := e.ns, name := e.name
        attributes := e.attributes ++ e.attachment?.toList.map fun a =>
          { ns := some xmime, name := "contentType", value := a.contentType }
        children := Node.inlineAll e.children } := by
  obtain ⟨ns, name, attributes, children⟩ := e
  rw [Element.inlined]
  rfl

/-- An element that holds an attachment holds nothing else, and does not give the media type
itself. -/
def Element.Inlinable (e : Element) : Prop :=
  ∀ n ∈ e.children, n.attachment?.isSome = true →
    e.children = [n] ∧ ∀ b ∈ e.attributes, b.name ≠ "contentType"

instance (e : Element) : Decidable e.Inlinable :=
  inferInstanceAs (Decidable (∀ n ∈ e.children, n.attachment?.isSome = true →
    e.children = [n] ∧ ∀ b ∈ e.attributes, b.name ≠ "contentType"))

theorem Node.attachment?_eq_some {n : Node} {a : Attachment} :
    n.attachment? = some a ↔ n = .attachment a := by
  cases n <;> simp [Node.attachment?]

theorem Element.mem_of_attachment? {e : Element} {a : Attachment} (h : e.attachment? = some a) :
    .attachment a ∈ e.children := by
  obtain ⟨n, hn, ha⟩ := List.exists_of_findSome?_eq_some h
  rw [← Node.attachment?_eq_some.1 ha]
  exact hn

/-! ## What is received -/

/-- The media type is noted wherever there is an attachment. -/
private theorem contentTypeNote_inlined {ns : Option String} {name : String}
    {attributes : List Attribute} {children : List Node}
    (h : (⟨ns, name, attributes, children⟩ : Element).Inlinable) :
    contentTypeNote .inlined attributes children =
      (children.findSome? Node.attachment?).toList.map fun a =>
        { ns := some xmime, name := "contentType", value := a.contentType } := by
  rw [contentTypeNote, contentTypeToNote, if_pos rfl]
  cases hfirst : children.findSome? Node.attachment? with
  | none => split <;> rfl
  | some a =>
    obtain ⟨-, hname⟩ := h _ (Element.mem_of_attachment? hfirst) rfl
    rw [if_neg]
    · rfl
    · intro hany
      obtain ⟨b, hb, hbad⟩ := List.any_eq_true.1 hany
      rw [Bool.and_eq_true, decide_eq_true_eq] at hbad
      exact hname b hb hbad.1

mutual

/-- Only texts without characters tell what is written from what is inlined. -/
private theorem Element.received_represented (inherited : String) : ∀ e : Element,
    (∀ x ∈ e.subtree, x.Inlinable) →
      (e.represented .inlined).received inherited = e.inlined.received inherited
  | ⟨ns, name, attributes, children⟩ => by
    intro h
    have hchildren := Node.foldl_representAll (handedDown ns inherited) children
      (fun x hx => h x (Element.mem_subtree_of_below hx)) []
    rw [Element.represented, Element.inlined, Element.received, Element.received, Node.joinTexts,
      Node.joinTexts, hchildren, contentTypeNote_inlined (h _ (Element.mem_subtree_self _))]

private theorem Node.foldl_representAll (inherited : String) : ∀ ns : List Node,
    (∀ x ∈ Node.subtrees ns, x.Inlinable) → ∀ before : List Node,
      (Node.receivedEach inherited (Node.representAll .inlined ns)).foldl Node.join before =
        (Node.receivedEach inherited (Node.inlineAll ns)).foldl Node.join before
  | [] => fun _ _ => rfl
  | .element e :: rest => by
    intro h before
    rw [Node.subtrees] at h
    rw [Node.representAll, Node.inlineAll, Node.receivedEach, Node.receivedEach, List.foldl_cons,
      List.foldl_cons, Element.received_represented inherited e fun x hx =>
        h x (List.mem_append_left _ hx),
      Node.foldl_representAll inherited rest fun x hx => h x (List.mem_append_right _ hx)]
  | .text s :: rest => by
    intro h before
    rw [Node.representAll, Node.inlineAll, Node.receivedEach, Node.receivedEach, List.foldl_cons,
      List.foldl_cons, Node.foldl_representAll inherited rest h]
  | .attachment a :: rest => by
    intro h before
    have hrest := Node.foldl_representAll inherited rest h
    rw [Node.representAll, AttachmentForm.nodeOf, Node.inlineAll, Node.receivedEach,
      List.foldl_cons]
    split
    · next ha =>
      -- no bytes: an empty text is written, and nothing is received
      have hempty : Base64.encodeText a.data = "" :=
        Base64.encodeText_eq_empty.2 (List.isEmpty_iff.1 ha)
      rw [hempty, Node.join_empty, hrest]
    · rw [Node.receivedEach, List.foldl_cons, hrest]
  | .reference href :: rest => by
    intro h before
    rw [Node.representAll, Node.inlineAll, Node.receivedEach, Node.receivedEach, List.foldl_cons,
      List.foldl_cons, Node.foldl_representAll inherited rest h]

end

mutual

/-- Inlining keeps a tree normal. -/
theorem Element.normalize_inlined (inherited : String) : ∀ e : Element,
    e.normalize inherited = e → e.inlined.normalize inherited = e.inlined
  | ⟨ns, name, attributes, children⟩ => by
    intro h
    obtain ⟨hns, hchildren⟩ := Element.normalize_eq_self h
    rw [Element.inlined, Element.normalize, hns,
      Node.normalizeAll_inlineAll (handedDown ns inherited) children hchildren]

theorem Node.normalizeAll_inlineAll (inherited : String) : ∀ ns : List Node,
    Node.normalizeAll inherited ns = ns →
      Node.normalizeAll inherited (Node.inlineAll ns) = Node.inlineAll ns
  | [] => fun _ => rfl
  | .element e :: rest => by
    intro h
    have he : e.normalize inherited = e := Node.element.inj (List.cons.inj h).1
    rw [Node.inlineAll, Node.normalizeAll, Element.normalize_inlined inherited e he,
      Node.normalizeAll_inlineAll inherited rest (Node.normalizeAll_of_cons h)]
  | .text s :: rest => by
    intro h
    have hs : s ≠ "" := Node.text_ne_empty h (List.mem_cons_self ..)
    rw [Node.inlineAll, Node.normalizeAll, if_neg (by simpa using hs),
      Node.normalizeAll_inlineAll inherited rest (Node.normalizeAll_of_cons h)]
  | .attachment a :: rest => by
    intro h
    have hrest := Node.normalizeAll_inlineAll inherited rest (Node.normalizeAll_of_cons h)
    rw [Node.inlineAll]
    split
    · exact hrest
    · next ha =>
      have hne : Base64.encodeText a.data ≠ "" := fun he =>
        ha (List.isEmpty_iff.2 (Base64.encodeText_eq_empty.1 he))
      rw [Node.normalizeAll, if_neg (by simpa using hne), hrest]
  | .reference href :: rest => by
    intro h
    rw [Node.inlineAll, Node.normalizeAll,
      Node.normalizeAll_inlineAll inherited rest (Node.normalizeAll_of_cons h)]

end

/-- Where no attachment is, no text comes or goes. -/
private theorem text?_inlineAll {ns : List Node} (h : Node.Detached ns) :
    (Node.inlineAll ns).map Node.text? = ns.map Node.text? := by
  induction ns with
  | nil => rfl
  | cons n ns ih =>
    have hrest := ih h.of_cons
    cases n with
    | element e =>
      rw [Node.inlineAll, List.map_cons, List.map_cons, hrest]
      rfl
    | text s | reference href => rw [Node.inlineAll, List.map_cons, List.map_cons, hrest]
    | attachment a => exact absurd (h _ (List.mem_cons_self ..)) (by simp [Node.attachment?])

/-- Inlining keeps texts tidy. -/
theorem Element.Tidy.inlined {e : Element} (h : e.Tidy) (hi : e.Inlinable) : e.inlined.Tidy := by
  by_cases hd : Node.Detached e.children
  · refine h.congr ?_
    rw [Element.inlined_eq]
    exact text?_inlineAll hd
  · -- the attachment is the only child, and so is its text
    obtain ⟨n, hn, ha⟩ : ∃ n ∈ e.children, n.attachment? ≠ none := by
      simpa [Node.Detached] using hd
    obtain ⟨a, ha⟩ := Option.ne_none_iff_exists'.1 ha
    rw [Node.attachment?_eq_some] at ha
    obtain ⟨halone, -⟩ := hi (.attachment a) (ha ▸ hn) rfl
    have hchildren : e.inlined.children = [] ∨
        e.inlined.children = [.text (Base64.encodeText a.data)] := by
      rw [Element.inlined_eq, halone, Node.inlineAll]
      split
      · exact .inl rfl
      · exact .inr rfl
    rcases hchildren with hc | hc
    · refine ⟨by rw [hc]; exact .nil, fun n hn => ?_⟩
      rw [hc] at hn
      cases hn
    · refine ⟨by rw [hc]; exact .singleton _, fun n hn _ => ?_⟩
      rw [hc, List.mem_singleton] at hn
      rw [hc, hn]

mutual

/-- Every element of the inlined tree is an element of the tree, inlined. -/
theorem Element.exists_of_mem_inlined : ∀ e : Element,
    ∀ y ∈ e.inlined.subtree, ∃ x ∈ e.subtree, y = x.inlined
  | ⟨ns, name, attributes, children⟩ => by
    intro y hy
    rw [Element.subtree_eq, List.mem_cons] at hy
    rcases hy with rfl | hy
    · exact ⟨_, Element.mem_subtree_self _, rfl⟩
    · rw [Element.inlined] at hy
      obtain ⟨x, hx, rfl⟩ := Node.exists_of_mem_inlineAll children y hy
      exact ⟨x, Element.mem_subtree_of_below hx, rfl⟩

theorem Node.exists_of_mem_inlineAll : ∀ ns : List Node,
    ∀ y ∈ Node.subtrees (Node.inlineAll ns), ∃ x ∈ Node.subtrees ns, y = x.inlined
  | [] => by simp [Node.inlineAll, Node.subtrees]
  | .element e :: rest => by
    intro y hy
    rw [Node.inlineAll, Node.subtrees, List.mem_append] at hy
    rw [Node.subtrees]
    rcases hy with hy | hy
    · obtain ⟨x, hx, rfl⟩ := Element.exists_of_mem_inlined e y hy
      exact ⟨x, List.mem_append_left _ hx, rfl⟩
    · obtain ⟨x, hx, rfl⟩ := Node.exists_of_mem_inlineAll rest y hy
      exact ⟨x, List.mem_append_right _ hx, rfl⟩
  | .text _ :: rest => Node.exists_of_mem_inlineAll rest
  | .attachment a :: rest => by
    intro y hy
    rw [Node.inlineAll] at hy
    split at hy <;> exact Node.exists_of_mem_inlineAll rest y hy
  | .reference _ :: rest => Node.exists_of_mem_inlineAll rest

end

mutual

/-- Every element of the tree is found in the inlined one, inlined itself. -/
theorem Element.inlined_mem_subtree : ∀ e : Element, ∀ x ∈ e.subtree, x.inlined ∈ e.inlined.subtree
  | ⟨ns, name, attributes, children⟩ => by
    intro x hx
    rw [Element.subtree, List.mem_cons] at hx
    rcases hx with rfl | hx
    · exact Element.mem_subtree_self _
    · rw [Element.inlined, Element.subtree]
      exact List.mem_cons_of_mem _ (Node.inlined_mem_subtrees children x hx)

theorem Node.inlined_mem_subtrees : ∀ ns : List Node,
    ∀ x ∈ Node.subtrees ns, x.inlined ∈ Node.subtrees (Node.inlineAll ns)
  | [] => by simp [Node.subtrees]
  | .element e :: rest => by
    intro x hx
    rw [Node.subtrees, List.mem_append] at hx
    rw [Node.inlineAll, Node.subtrees, List.mem_append]
    rcases hx with hx | hx
    · exact .inl (Element.inlined_mem_subtree e x hx)
    · exact .inr (Node.inlined_mem_subtrees rest x hx)
  | .text _ :: rest => Node.inlined_mem_subtrees rest
  | .attachment a :: rest => by
    intro x hx
    rw [Node.inlineAll]
    split <;> exact Node.inlined_mem_subtrees rest x hx
  | .reference _ :: rest => Node.inlined_mem_subtrees rest

end

/-- Where a tree is written with its attachments inlined, the inlined tree is received. -/
theorem Element.received_represented_inlined {inherited : String} {e : Element}
    (hnormal : e.normalize inherited = e) (htidy : ∀ x ∈ e.subtree, x.Tidy)
    (hi : ∀ x ∈ e.subtree, x.Inlinable) :
    (e.represented .inlined).received inherited = e.inlined := by
  rw [Element.received_represented inherited e hi]
  refine Element.received_of_tidy inherited _ (Element.normalize_inlined inherited e hnormal) ?_
  intro y hy
  obtain ⟨x, hx, rfl⟩ := Element.exists_of_mem_inlined e y hy
  exact (htidy x hx).inlined (hi x hx)

/-! ## Without attachments -/

mutual

/-- A tree without attachments stays as it is. -/
theorem Element.inlined_of_detached : ∀ e : Element,
    (∀ x ∈ e.subtree, Node.Detached x.children) → e.inlined = e
  | ⟨ns, name, attributes, children⟩ => by
    intro h
    have hd : Node.Detached children := h _ (Element.mem_subtree_self _)
    have hfirst : children.findSome? Node.attachment? = none := List.findSome?_eq_none_iff.2 hd
    rw [Element.inlined, hfirst, Node.inlineAll_of_detached children hd fun x hx =>
      h x (Element.mem_subtree_of_below hx)]
    simp

theorem Node.inlineAll_of_detached : ∀ ns : List Node, Node.Detached ns →
    (∀ x ∈ Node.subtrees ns, Node.Detached x.children) → Node.inlineAll ns = ns
  | [] => fun _ _ => rfl
  | .element e :: rest => by
    intro hd h
    rw [Node.subtrees] at h
    rw [Node.inlineAll, Element.inlined_of_detached e fun x hx => h x (List.mem_append_left _ hx),
      Node.inlineAll_of_detached rest hd.of_cons fun x hx =>
        h x (List.mem_append_right _ hx)]
  | .text s :: rest => by
    intro hd h
    rw [Node.inlineAll, Node.inlineAll_of_detached rest hd.of_cons h]
  | .attachment a :: rest => by
    intro hd
    exact absurd (hd _ (List.mem_cons_self ..)) (by simp [Node.attachment?])
  | .reference href :: rest => by
    intro hd h
    rw [Node.inlineAll, Node.inlineAll_of_detached rest hd.of_cons h]

end

/-! ## Reading the field -/

/-- The text of the field writes the bytes. -/
private theorem text_inlined {e : Element} {a : Attachment} (h : e.children = [.attachment a]) :
    e.inlined.text = Base64.encodeText a.data := by
  rw [Element.inlined_eq, Element.text, h, Node.inlineAll]
  split
  · next ha =>
    rw [Base64.encodeText_eq_empty.2 (List.isEmpty_iff.1 ha)]
    rfl
  · exact String.empty_append ..

/-- The field that is received yields the bytes and the media type of the attachment. -/
theorem Element.readAttachment_inlined {e : Element} (hi : e.Inlinable) {a : Attachment}
    (ha : e.attachment? = some a) (fresh : Uuid) :
    e.inlined.readAttachment fresh = .ok { a with contentId := freshContentId fresh } := by
  obtain ⟨halone, hname⟩ := hi _ (Element.mem_of_attachment? ha) rfl
  have hchildren : ∀ n ∈ e.inlined.children, n.attachment? = none ∧ n.isReference = false := by
    intro n hn
    rw [Element.inlined_eq, halone, Node.inlineAll] at hn
    split at hn
    · cases hn
    · rw [Node.inlineAll, List.mem_singleton] at hn
      subst hn
      exact ⟨rfl, rfl⟩
  have hnone : e.inlined.attachment? = none :=
    List.findSome?_eq_none_iff.2 fun n hn => (hchildren n hn).1
  have hreference : e.inlined.children.any Node.isReference = false := by
    rw [List.any_eq_false]
    intro n hn
    rw [(hchildren n hn).2]
    simp
  have hdata : e.inlined.base64Text = .ok a.data := by
    rw [Element.base64Text, text_inlined halone, Base64.encode_encodeText, Base64.filter_encode,
      Base64.decode_encode]
    rfl
  have htype : e.inlined.attribute? "contentType" = some a.contentType := by
    -- the element has no such attribute of its own, so the note is found
    have hnew : e.attributes.find? (·.name = "contentType") = none := by
      rw [List.find?_eq_none]
      intro b hb
      simpa using hname b hb
    rw [Element.inlined_eq, Element.attribute?, List.find?_append, hnew, ha]
    rfl
  rw [Element.readAttachment, hnone, hreference, hdata, htype]
  rfl

end SoapMtom.Xml
