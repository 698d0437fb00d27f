import SoapMtom.Delivery
import SoapMtom.Proofs.Faithful

/-!
# Trees that come back as they are

A tree that is written and read comes back unchanged if each of its elements lasts and it is in the
form in which trees are read. Such trees are put together from tags, texts and other such trees.
Main statements:

> `Document.read_of_returns`: a tree whose elements last is read from its document as it is.
>
> `Element.ReturnsIn.around`, `Element.ReturnsIn.withText`.
>
> `Envelope.ofDocument_of_returns`: an envelope of such trees is read as it was built.
-/

namespace SoapMtom

namespace Xml

/-- An element that is not changed on its way through a document: it is faithful, its names can be
written, and it neither holds an attachment nor refers to one. -/
structure Element.Lasting (e : Element) : Prop where
  faithful : e.Faithful
  names : checkNames e.name e.attributes = .ok ()
  detached : Node.Detached e.children
  no_reference : ∀ n ∈ e.children, n.isReference = false

instance (e : Element) : Decidable e.Lasting :=
  have : Decidable (Node.Detached e.children) :=
    inferInstanceAs (Decidable (∀ n ∈ e.children, n.attachment? = none))
  decidable_of_iff (_ ∧ _ ∧ _ ∧ _)
    ⟨fun ⟨h₁, h₂, h₃, h₄⟩ => ⟨h₁, h₂, h₃, h₄⟩, fun ⟨h₁, h₂, h₃, h₄⟩ => ⟨h₁, h₂, h₃, h₄⟩⟩

/-- A tree that comes back as it is from its own document, where there is no default namespace. -/
structure Element.Returns (e : Element) : Prop where
  lasting : ∀ x ∈ e.subtree, x.Lasting
  normal : e.normalize "" = e

instance (e : Element) : Decidable e.Returns :=
  decidable_of_iff (_ ∧ _) ⟨fun ⟨h₁, h₂⟩ => ⟨h₁, h₂⟩, fun ⟨h₁, h₂⟩ => ⟨h₁, h₂⟩⟩

/-- The document of such a tree is read as the tree, and holds no references. -/
theorem Document.read_of_returns {e : Element} (h : e.Returns) (form : AttachmentForm) :
    read (Utf8.encode (e.toDocument form)) = .ok { root := e, references := [] } := by
  have hrepresented : e.represented form = e :=
    Element.represented_of_detached form e fun x hx => (h.lasting x hx).detached
  have hescaped : e.escaped = e :=
    Element.escaped_of_isClean e fun x hx => (h.lasting x hx).faithful.clean
  have hreceived : e.received "" = e :=
    Element.received_of_tidy "" e h.normal fun x hx => (h.lasting x hx).faithful.tidy
  have hreferences : e.references [] = [] :=
    Element.references_eq_nil [] fun x hx => (h.lasting x hx).no_reference
  rw [read_toDocument form (fun x hx => ?_) fun x hx => ?_, hrepresented, hescaped, hreceived,
    hreferences]
  · exact (h.lasting x hx).faithful.writable (h.lasting x hx).names
  · exact (h.lasting x (Element.mem_subtree_of_below hx)).faithful.not_include

/-! ## Building such trees -/

/-- A tree that comes back as it is from a place with that default namespace. -/
structure Element.ReturnsIn (inherited : String) (e : Element) : Prop where
  lasting : ∀ x ∈ e.subtree, x.Lasting
  normal : e.normalize inherited = e

instance (inherited : String) (e : Element) : Decidable (e.ReturnsIn inherited) :=
  decidable_of_iff (_ ∧ _) ⟨fun ⟨h₁, h₂⟩ => ⟨h₁, h₂⟩, fun ⟨h₁, h₂⟩ => ⟨h₁, h₂⟩⟩

theorem Element.returns_iff {e : Element} : e.Returns ↔ e.ReturnsIn "" :=
  ⟨fun ⟨hlasting, hnormal⟩ => ⟨hlasting, hnormal⟩, fun ⟨hlasting, hnormal⟩ => ⟨hlasting, hnormal⟩⟩

namespace Element.ReturnsIn

variable {inherited : String} {tag : Element}

/-- A tag that comes back, with children that are tidy, and each of them normal and free of
attachments. -/
theorem with_children (h : tag.ReturnsIn inherited) {children : List Node}
    (htidy : ({ tag with children } : Element).Tidy)
    (hnormal : ∀ n ∈ children, n.Normal (handedDown tag.ns inherited))
    (hdetached : ∀ n ∈ children, n.attachment? = none ∧ n.isReference = false)
    (hbelow : ∀ x ∈ Node.subtrees children, x.Lasting) :
    ({ tag with children } : Element).ReturnsIn inherited := by
  obtain ⟨ns, name, attributes, others⟩ := tag
  obtain ⟨hlasting, hself⟩ := h
  obtain ⟨⟨hdistinct, hdeclares, hattributes, hclean, -, hinclude⟩, hnames, -, -⟩ :=
    hlasting _ (Element.mem_subtree_self _)
  refine ⟨fun x hx => ?_, ?_⟩
  · rw [Element.subtree_eq, List.mem_cons] at hx
    rcases hx with rfl | hx
    · exact ⟨⟨hdistinct, hdeclares, hattributes, hclean, htidy, hinclude⟩, hnames,
        fun n hn => (hdetached n hn).1, fun n hn => (hdetached n hn).2⟩
    · exact hbelow x hx
  · have hns := (Element.normalize_eq_self hself).1
    have hchildren := Node.normalizeAll_eq_self.2 hnormal
    dsimp only at hchildren ⊢
    rw [Element.normalize, hns, hchildren]

/-- A tag around trees that come back comes back. -/
theorem around (h : tag.ReturnsIn inherited) {parts : List Element}
    (hparts : ∀ part ∈ parts, part.ReturnsIn (handedDown tag.ns inherited)) :
    ({ tag with children := parts.map .element } : Element).ReturnsIn inherited := by
  have hpart : ∀ n ∈ parts.map Node.element, ∃ part ∈ parts, n = .element part := by
    intro n hn
    obtain ⟨part, hpart, he⟩ := List.mem_map.1 hn
    exact ⟨part, hpart, he.symm⟩
  refine h.with_children (Element.tidy_of_no_text fun n hn => ?_) (fun n hn => ?_) (fun n hn => ?_)
    fun x hx => ?_
  · obtain ⟨part, -, rfl⟩ := hpart n hn
    rfl
  · obtain ⟨part, hmem, rfl⟩ := hpart n hn
    exact (hparts part hmem).normal
  · obtain ⟨part, -, rfl⟩ := hpart n hn
    exact ⟨rfl, rfl⟩
  · obtain ⟨part, hmem, hx⟩ := Node.mem_subtrees.1 hx
    obtain ⟨part', hmem', he⟩ := hpart _ hmem
    obtain rfl := Node.element.inj he
    exact (hparts part hmem').lasting x hx

/-- A tag around a text comes back, also if the text is empty and so no node at all. -/
theorem withText (h : tag.ReturnsIn inherited) (hchildless : tag.children = []) (s : String) :
    (tag.withText s).ReturnsIn inherited := by
  unfold Element.withText
  split
  · exact h
  · next hs =>
    rw [Element.push, hchildless, List.nil_append]
    refine h.with_children ⟨List.isChain_singleton _, fun n hn _ => ?_⟩ (fun n hn => ?_)
      (fun n hn => ?_) fun x hx => ?_
    · rw [List.mem_singleton.1 hn]
    · rw [List.mem_singleton.1 hn]
      exact fun he => hs (by rw [he]; rfl)
    · rw [List.mem_singleton.1 hn]
      exact ⟨rfl, rfl⟩
    · cases hx

end Element.ReturnsIn

/-- An element that is nothing but its name comes back as it is. -/
theorem Element.returns_named {n : String} (h : isName n = true) : (Element.named n).Returns := by
  have hnames : checkNames n [] = .ok () := if_pos h
  refine ⟨fun x hx => ?_, rfl⟩
  rw [Element.subtree_eq, Element.named, List.mem_cons] at hx
  rcases hx with rfl | hx
  · exact ⟨⟨by simp, by simp, by simp, by simp [Element.namespaces],
      Element.tidy_of_no_text (by simp), by simp [Builder.isInclude]⟩, hnames,
      by simp [Node.Detached], by simp⟩
  · cases hx

theorem Element.name_withText (tag : Element) (s : String) : (tag.withText s).name = tag.name := by
  unfold Element.withText
  split <;> rfl

theorem Element.attributes_withText (tag : Element) (s : String) :
    (tag.withText s).attributes = tag.attributes := by
  unfold Element.withText
  split <;> rfl

/-- The text of a tag is the text that was put into it. -/
theorem Element.text_withText {tag : Element} (h : tag.children = []) (s : String) :
    (tag.withText s).text = s := by
  rw [Element.withText, Element.text]
  split
  · next hs =>
    rw [h, String.isEmpty_iff.1 hs]
    rfl
  · rw [Element.push, h]
    exact String.empty_append

/-- The tag of an element that does not change the default namespace, and comes back as it is. -/
structure Element.IsFrame (tag : Element) : Prop where
  returns : tag.Returns
  childless : tag.children = []
  inherits : handedDown tag.ns "" = ""

instance (tag : Element) : Decidable tag.IsFrame :=
  decidable_of_iff (_ ∧ _ ∧ _) ⟨fun ⟨h₁, h₂, h₃⟩ => ⟨h₁, h₂, h₃⟩, fun ⟨h₁, h₂, h₃⟩ => ⟨h₁, h₂, h₃⟩⟩

/-- A frame around trees that come back comes back. -/
theorem Element.IsFrame.returns_around {tag : Element} (h : tag.IsFrame) (parts : List Element)
    (hparts : ∀ part ∈ parts, part.Returns) :
    ({ tag with children := parts.map .element } : Element).Returns := by
  refine Element.returns_iff.2 ((Element.returns_iff.1 h.returns).around fun part hpart => ?_)
  rw [h.inherits]
  exact Element.returns_iff.1 (hparts part hpart)

/-- A frame around a text comes back. -/
theorem Element.IsFrame.returns_withText {tag : Element} (h : tag.IsFrame) (s : String) :
    (tag.withText s).Returns :=
  Element.returns_iff.2 ((Element.returns_iff.1 h.returns).withText h.childless s)

/-- The text of a frame is the text that was put into it. -/
theorem Element.IsFrame.text_withText {tag : Element} (h : tag.IsFrame) (s : String) :
    (tag.withText s).text = s :=
  Element.text_withText h.childless s

end Xml

namespace Envelope

open Xml (Element)

/-! ## Envelopes of such trees -/

theorem prepare_of_returns {e : Element} (h : e.Returns) : prepare e = .ok e := by
  refine prepare_eq_ok.2 ⟨?_, h.normal.symm⟩
  exact (Element.validate_eq_ok e).2 fun x hx => (h.lasting x hx).names

/-- What comes back is put into an envelope as it is. -/
theorem build_of_returns {entries : List HeaderEntry} {body : Element}
    (hentries : ∀ entry ∈ entries, entry.element.Returns) (hbody : body.Returns) :
    build entries body = .ok { headers := entries.map HeaderEntry.element, body } := by
  have hheaders : entries.mapM (fun entry => prepare entry.element) =
      .ok (entries.map HeaderEntry.element) := by
    rw [mapM_eq_ok, List.forall₂_map_right_iff, List.forall₂_same]
    exact fun entry hentry => prepare_of_returns (hentries entry hentry)
  exact bind_eq_ok.2 ⟨body, rfl, bind_eq_ok.2 ⟨body, prepare_of_returns hbody,
    bind_eq_ok.2 ⟨_, hheaders, rfl⟩⟩⟩

/-- The frames of an envelope do not change the default namespace. -/
theorem isFrame_of_mem : ∀ name ∈ ["Envelope", "Header", "Body"],
    (Element.qualified Xml.soap11 name).IsFrame := by decide

/-- An envelope of trees that come back comes back. -/
theorem returns_toElement {e : Envelope} (h : ∀ part ∈ e.parts, part.Returns) :
    e.toElement.Returns := by
  have hframing : ∀ {name : String}, name ∈ ["Envelope", "Header", "Body"] →
      ∀ parts : List Element, (∀ part ∈ parts, part.Returns) → (framing name parts).Returns :=
    fun hname parts hparts => (isFrame_of_mem _ hname).returns_around parts hparts
  have hbody : (framing "Body" [e.body]).Returns := by
    refine hframing (by simp) [e.body] fun part hpart => h part ?_
    rw [List.mem_singleton.1 hpart]
    exact List.mem_append_right _ (List.mem_singleton_self _)
  have hheader : (framing "Header" e.headers).Returns :=
    hframing (by simp) e.headers fun part hpart => h part (List.mem_append_left _ hpart)
  rw [toElement_eq]
  refine hframing (by simp) e.sections fun part hpart => ?_
  rcases List.mem_append.1 hpart with hpart | hpart
  · split at hpart
    · cases hpart
    · rw [List.mem_singleton.1 hpart]
      exact hheader
  · rw [List.mem_singleton.1 hpart]
    exact hbody

/-- The document of such an envelope is read as the envelope. -/
theorem ofDocument_of_returns {e : Envelope} (h : ∀ part ∈ e.parts, part.Returns) :
    ofDocument (Utf8.encode e.toXml) = .ok e := by
  have hread := Xml.Document.read_of_returns (returns_toElement h) .inlined
  exact bind_eq_ok.2 ⟨_, mapError_eq_ok.2 hread, mapError_eq_ok.2 (ofRoot_toElement e)⟩

end Envelope

end SoapMtom
