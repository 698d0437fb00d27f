import SoapMtom.Proofs.Xml.Tree
import SoapMtom.Xml.Writing

/-!
# Attachments as they are written

A tree with attachments is written like a tree without them: each attachment is a text or a
reference, and the media type of inlined bytes is one more attribute. `Element.represented` is that
tree, so that what is proved of trees without attachments covers them all. Main statement:

> `Element.write_represented`: a tree and the one that represents it have the same markup.
-/

namespace SoapMtom.Xml

/-- The node that is written for an attachment. -/
def AttachmentForm.nodeOf : AttachmentForm → Attachment → Node
  | .inlined, a => .text (Base64.encodeText a.data)
  | .referenced, a => .reference (attachmentHref a)

/-- The attribute that notes the media type of inlined bytes, if there is one to note. -/
def contentTypeNote (form : AttachmentForm) (attributes : List Attribute) (children : List Node) :
    List Attribute :=
  (contentTypeToNote form attributes children).toList.map fun contentType =>
    { ns := some xmime, name := "contentType", value := contentType }

/-- A media type is noted in an attribute that is not there yet. -/
theorem spec_of_mem_contentTypeNote {form : AttachmentForm} {attributes : List Attribute}
    {children : List Node} {a : Attribute} (ha : a ∈ contentTypeNote form attributes children) :
    a.ns = some xmime ∧ a.name = "contentType" ∧
      ∀ b ∈ attributes, ¬(b.name = "contentType" ∧ b.ns = some xmime) := by
  obtain ⟨contentType, hmem, rfl⟩ := List.mem_map.1 ha
  refine ⟨rfl, rfl, fun b hb hthere => ?_⟩
  rw [Option.mem_toList, contentTypeToNote] at hmem
  have hany : attributes.any (fun a => a.name = "contentType" && a.ns = some xmime) = true :=
    List.any_eq_true.2 ⟨b, hb, by simp [hthere]⟩
  rw [hany] at hmem
  split at hmem <;> cases hmem

mutual

/-- The tree without attachments that is written in place of a tree. -/
def Element.represented (form : AttachmentForm) : Element → Element
  | ⟨ns, name, attributes, children⟩ =>
    { ns
      name
      attributes := attributes ++ contentTypeNote form attributes children
      children := Node.representAll form children }

/-- The nodes without attachments that are written in place of nodes. -/
def Node.representAll (form : AttachmentForm) : List Node → List Node
  | [] => []
  | .element e :: rest => .element (e.represented form) :: Node.representAll form rest
  | .text s :: rest => .text s :: Node.representAll form rest
  | .attachment a :: rest => form.nodeOf a :: Node.representAll form rest
  | .reference href :: rest => .reference href :: Node.representAll form rest

end

/-- The element that is written for a reference. -/
def includeElement (href : String) : Element :=
  { ns := some xop, name := "Include", attributes := [{ name := "href", value := href }] }

/-- A reference is written as an element. -/
theorem writeReference_eq (form : AttachmentForm) (scope : Scope) (generated : Nat)
    (href : String) :
    writeReference form scope generated href = (includeElement href).write form scope generated := by
  rw [includeElement, Element.write, writeReference]
  rfl

/-! ## Nothing is left to note -/

/-- None of the nodes is an attachment. -/
def Node.Detached (ns : List Node) : Prop := ∀ n ∈ ns, n.attachment? = none

theorem Node.Detached.of_cons {n : Node} {ns : List Node} (h : Detached (n :: ns)) : Detached ns :=
  fun m hm => h m (List.mem_cons_of_mem _ hm)

theorem contentTypeToNote_of_detached (form : AttachmentForm) (attributes : List Attribute)
    {children : List Node} (h : Node.Detached children) :
    contentTypeToNote form attributes children = none := by
  have hnone : children.findSome? Node.attachment? = none := List.findSome?_eq_none_iff.2 h
  unfold contentTypeToNote
  split
  · split
    · rfl
    · rw [hnone]
      rfl
  · rfl

theorem AttachmentForm.attachment?_nodeOf (form : AttachmentForm) (a : Attachment) :
    (form.nodeOf a).attachment? = none := by
  cases form <;> rfl

theorem Node.detached_representAll (form : AttachmentForm) (ns : List Node) :
    Detached (representAll form ns) := by
  induction ns with
  | nil => exact fun n hn => absurd hn (by simp [representAll])
  | cons n ns ih =>
    intro m hm
    cases n with
    | element e | text s | reference href =>
      rw [representAll, List.mem_cons] at hm
      rcases hm with rfl | hm
      · rfl
      · exact ih m hm
    | attachment a =>
      rw [representAll, List.mem_cons] at hm
      rcases hm with rfl | hm
      · exact form.attachment?_nodeOf a
      · exact ih m hm

theorem Node.isEmpty_representAll (form : AttachmentForm) (ns : List Node) :
    (representAll form ns).isEmpty = ns.isEmpty := by
  cases ns with
  | nil => rfl
  | cons n ns => cases n <;> rfl

/-! ## The markup is the same -/

/-- Attributes are bound from left to right. -/
theorem TagScope.bindAttributes_append (t : TagScope) (as bs : List Attribute) :
    t.bindAttributes (as ++ bs) =
      ((t.bindAttributes as).1 ++ ((t.bindAttributes as).2.bindAttributes bs).1,
        ((t.bindAttributes as).2.bindAttributes bs).2) := by
  induction as generalizing t with
  | nil => rfl
  | cons a as ih =>
    rw [List.cons_append, bindAttributes, bindAttributes]
    simp only [ih, List.cons_append]

/-- The note is bound like an attribute that comes last. -/
theorem openTag_represented (form : AttachmentForm) (scope : Scope) (generated : Nat)
    (ns : Option String) (name : String) (attributes : List Attribute) (children : List Node) :
    openTag form scope generated ns name (attributes ++ contentTypeNote form attributes children)
        (Node.representAll form children) =
      openTag form scope generated ns name attributes children := by
  rw [openTag, openTag,
    contentTypeToNote_of_detached form _ (Node.detached_representAll form children)]
  simp only [TagScope.bindAttributes_append, contentTypeNote]
  cases contentTypeToNote form attributes children with
  | none => simp [TagScope.bindAttributes]
  | some contentType => simp [TagScope.bindAttributes]

mutual

/-- A tree is written as the tree that represents it. -/
theorem Element.write_represented (form : AttachmentForm) : ∀ (scope : Scope) (generated : Nat)
    (e : Element), (e.represented form).write form scope generated = e.write form scope generated
  | scope, generated, ⟨ns, name, attributes, children⟩ => by
    rw [Element.represented, Element.write, Element.write, openTag_represented,
      Node.isEmpty_representAll, Node.writeAll_representAll]

theorem Node.writeAll_representAll (form : AttachmentForm) : ∀ (scope : Scope) (generated : Nat)
    (ns : List Node),
    Node.writeAll form scope generated (Node.representAll form ns) =
      Node.writeAll form scope generated ns
  | scope, generated, [] => rfl
  | scope, generated, .element e :: rest => by
    have hrest := fun n => Node.writeAll_representAll form scope n rest
    rw [Node.representAll, Node.writeAll, Node.writeAll, Element.write_represented]
    simp only [hrest]
  | scope, generated, .text s :: rest => by
    have hrest := Node.writeAll_representAll form scope generated rest
    rw [Node.representAll, Node.writeAll, Node.writeAll, hrest]
  | scope, generated, .attachment a :: rest => by
    have hrest := fun n => Node.writeAll_representAll form scope n rest
    cases form with
    | inlined =>
      rw [Node.representAll, AttachmentForm.nodeOf, Node.writeAll, Node.writeAll, hrest]
      rfl
    | referenced =>
      rw [Node.representAll, AttachmentForm.nodeOf, Node.writeAll, Node.writeAll]
      simp only [hrest]
  | scope, generated, .reference href :: rest => by
    have hrest := fun n => Node.writeAll_representAll form scope n rest
    rw [Node.representAll, Node.writeAll, Node.writeAll]
    simp only [hrest]

end

/-- A tree without attachments stands in for every tree. -/
theorem Element.toDocument_represented (form : AttachmentForm) (e : Element) :
    (e.represented form).toDocument form = e.toDocument form := by
  rw [toDocument, toDocument, markup, markup, write_represented]

theorem Element.represented_eq (form : AttachmentForm) (e : Element) :
    e.represented form =
      { ns := e.ns, name := e.name
        attributes := e.attributes ++ contentTypeNote form e.attributes e.children
        children := Node.representAll form e.children } := by
  obtain ⟨ns, name, attributes, children⟩ := e
  rw [Element.represented]

mutual

/-- Every element of the tree that represents another represents an element of that tree. -/
theorem Element.exists_of_mem_represented (form : AttachmentForm) : ∀ e : Element,
    ∀ y ∈ (e.represented form).subtree, ∃ x ∈ e.subtree, y = x.represented form
  | ⟨ns, name, attributes, children⟩ => by
    intro y hy
    rw [Element.subtree_eq, List.mem_cons] at hy
    rcases hy with rfl | hy
    · exact ⟨_, Element.mem_subtree_self _, rfl⟩
    · rw [Element.represented] at hy
      obtain ⟨x, hx, rfl⟩ := Node.exists_of_mem_representAll form children y hy
      exact ⟨x, Element.mem_subtree_of_below hx, rfl⟩

theorem Node.exists_of_mem_representAll (form : AttachmentForm) : ∀ ns : List Node,
    ∀ y ∈ Node.subtrees (Node.representAll form ns), ∃ x ∈ Node.subtrees ns, y = x.represented form
  | [] => by simp [Node.representAll, Node.subtrees]
  | .element e :: rest => by
    intro y hy
    rw [Node.representAll, Node.subtrees, List.mem_append] at hy
    rw [Node.subtrees]
    rcases hy with hy | hy
    · obtain ⟨x, hx, rfl⟩ := Element.exists_of_mem_represented form e y hy
      exact ⟨x, List.mem_append_left _ hx, rfl⟩
    · obtain ⟨x, hx, rfl⟩ := Node.exists_of_mem_representAll form rest y hy
      exact ⟨x, List.mem_append_right _ hx, rfl⟩
  | .text _ :: rest => Node.exists_of_mem_representAll form rest
  | .attachment _ :: rest => by
    intro y hy
    rw [Node.representAll] at hy
    cases form <;> exact Node.exists_of_mem_representAll _ rest y hy
  | .reference _ :: rest => Node.exists_of_mem_representAll form rest

end

mutual

/-- A tree without attachments represents itself. -/
theorem Element.represented_of_detached (form : AttachmentForm) : ∀ e : Element,
    (∀ x ∈ e.subtree, Node.Detached x.children) → e.represented form = e
  | ⟨ns, name, attributes, children⟩ => by
    intro h
    have hd : Node.Detached children := h _ (Element.mem_subtree_self _)
    rw [Element.represented, contentTypeNote, contentTypeToNote_of_detached form _ hd,
      Node.representAll_of_detached form children hd fun x hx =>
        h x (Element.mem_subtree_of_below hx)]
    simp

theorem Node.representAll_of_detached (form : AttachmentForm) : ∀ ns : List Node,
    Node.Detached ns → (∀ x ∈ Node.subtrees ns, Node.Detached x.children) →
      Node.representAll form ns = ns
  | [] => fun _ _ => rfl
  | .element e :: rest => by
    intro hd h
    rw [Node.subtrees] at h
    rw [Node.representAll,
      Element.represented_of_detached form e fun x hx => h x (List.mem_append_left _ hx),
      Node.representAll_of_detached form rest hd.of_cons fun x hx =>
        h x (List.mem_append_right _ hx)]
  | .text s :: rest => by
    intro hd h
    rw [Node.representAll, Node.representAll_of_detached form rest hd.of_cons h]
  | .attachment a :: rest => by
    intro hd
    exact absurd (hd _ (List.mem_cons_self ..)) (by simp [Node.attachment?])
  | .reference href :: rest => by
    intro hd h
    rw [Node.representAll, Node.representAll_of_detached form rest hd.of_cons h]

end

end SoapMtom.Xml
