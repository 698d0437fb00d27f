import SoapMtom.Delivery
import SoapMtom.Proofs.Faithful
import SoapMtom.Proofs.Xml.Assembly

/-!
# What is built can be read back

A tree that is made step by step never has one attribute twice. If its names can be written and
nothing in it is reserved, its document is read, whatever its texts and its namespaces are made of.
The names alone are not enough: an attribute called `xmlns` is a name like any other to them.
Main statements:

> `Element.Built.distinct`: no step gives an element one attribute twice.
>
> `Envelope.ofDocument_of_build`: what is built can be read back, or a name in it cannot be written.
>
> `Envelope.not_ofDocument_of_build`: with reserved names it may not be.
-/

namespace SoapMtom

namespace Xml

/-! ## Trees made step by step -/

/-- A tree made of the two empty elements by the methods that add to one. -/
inductive Element.Built : Element → Prop
  | named (name : String) : Built (named name)
  | qualified (ns name : String) : Built (qualified ns name)
  | setAttribute {e : Element} (h : Built e) (ns : Option String) (name value : String) :
      Built (e.setAttribute ns name value)
  | withChild {e child : Element} (h : Built e) (hchild : Built child) : Built (e.withChild child)
  | withText {e : Element} (h : Built e) (s : String) : Built (e.withText s)
  | withAttachment {e : Element} (h : Built e) (a : Attachment) : Built (e.withAttachment a)

/-- What holds of an element and below each child added to it. -/
theorem Element.forall_mem_subtree_push {P : Element → Prop} {e : Element} {n : Node}
    (h : ∀ x ∈ e.subtree, P x) (hself : P e → P (e.push n))
    (hn : ∀ child, n = .element child → ∀ x ∈ child.subtree, P x) :
    ∀ x ∈ (e.push n).subtree, P x := by
  intro x hx
  rw [subtree_eq, List.mem_cons] at hx
  rcases hx with rfl | hx
  · exact hself (h e e.mem_subtree_self)
  · obtain ⟨child, hchild, hx⟩ := Node.mem_subtrees.1 hx
    rcases List.mem_append.1 hchild with hchild | hchild
    · exact h x (mem_subtree_of_below (Node.mem_subtrees.2 ⟨child, hchild, hx⟩))
    · exact hn child (List.mem_singleton.1 hchild).symm x hx

/-- What holds of an element and below it, when one of its attributes is set. -/
theorem Element.forall_mem_subtree_setAttribute {P : Element → Prop} {e : Element}
    {ns : Option String} {name value : String} (h : ∀ x ∈ e.subtree, P x)
    (hself : P e → P (e.setAttribute ns name value)) :
    ∀ x ∈ (e.setAttribute ns name value).subtree, P x := by
  intro x hx
  rw [subtree_eq, List.mem_cons] at hx
  rcases hx with rfl | hx
  · exact hself (h e e.mem_subtree_self)
  · exact h x (mem_subtree_of_below hx)

/-- No step gives an element one attribute twice. -/
theorem Element.Built.distinct {e : Element} (h : e.Built) :
    ∀ x ∈ e.subtree, (x.attributes.map Attribute.key).Nodup := by
  induction h with
  | named name | qualified ns name =>
    intro x hx
    obtain rfl := List.mem_singleton.1 hx
    exact List.nodup_nil
  | setAttribute h ns name value ih =>
    exact Element.forall_mem_subtree_setAttribute ih (Element.nodup_assign _)
  | withChild h hchild ih ihchild =>
    refine Element.forall_mem_subtree_push ih id fun child he => ?_
    obtain rfl := Node.element.inj he
    exact ihchild
  | withText h s ih =>
    unfold Element.withText
    split
    · exact ih
    · exact Element.forall_mem_subtree_push ih id fun child he => by cases he
  | withAttachment h a ih => exact Element.forall_mem_subtree_push ih id fun child he => by cases he

/-- An attribute in a namespace that is not reserved leaves an element unreserved. -/
theorem Element.Unreserved.withNamespacedAttribute {e : Element} (h : e.Unreserved) {ns : String}
    (hns : ns ≠ "" ∧ ns ≠ xmlnsNamespace) (name value : String) :
    (e.withNamespacedAttribute ns name value).Unreserved := by
  refine ⟨fun a ha hnone => ?_, fun a ha => ?_, h.not_include⟩
  · rcases Element.key_of_mem_assign ha with hkey | ⟨b, hb, hkey⟩
    · rw [(Prod.mk.inj hkey).1] at hnone
      cases hnone
    · rw [← (Prod.mk.inj hkey).1] at hnone
      rw [← (Prod.mk.inj hkey).2]
      exact h.no_declaration b hb hnone
  · rcases Element.key_of_mem_assign ha with hkey | ⟨b, hb, hkey⟩
    · rw [(Prod.mk.inj hkey).1]
      simpa using hns
    · rw [← (Prod.mk.inj hkey).1]
      exact h.attribute_ns b hb

/-- Normalizing leaves an element unreserved: it may lose its namespace, but takes on no other. -/
theorem Element.Unreserved.normalize {e : Element} (h : e.Unreserved) (inherited : String) :
    (e.normalize inherited).Unreserved := by
  obtain ⟨ns, name, attributes, children⟩ := e
  obtain ⟨hdeclaration, hattributes, hinclude⟩ := h
  refine ⟨hdeclaration, hattributes, ?_⟩
  have hns : ∀ u, ownNamespace ns inherited = some u → ns = some u := by
    intro u hu
    unfold ownNamespace at hu
    split at hu
    · split at hu
      · cases hu
      · exact hu
    · cases hu
  rw [Builder.isInclude, Bool.and_eq_false_iff, decide_eq_false_iff_not,
    decide_eq_false_iff_not] at hinclude ⊢
  exact hinclude.imp_right fun hne hown => hne (hns _ hown)

end Xml

/-! ## Envelopes -/

namespace Envelope

open Xml (Element Node)

/-- A tree made step by step in which nothing is reserved. -/
structure Ready (e : Element) : Prop where
  built : e.Built
  unreserved : ∀ x ∈ e.subtree, x.Unreserved

/-- The mark of a header block that has to be understood is not reserved. -/
theorem Ready.element {entry : HeaderEntry} (h : Ready entry.block) : Ready entry.element := by
  have hns : Xml.soap11 ≠ "" ∧ Xml.soap11 ≠ Xml.xmlnsNamespace := by decide
  unfold HeaderEntry.element
  split
  · refine ⟨h.built.setAttribute _ _ _, ?_⟩
    exact Element.forall_mem_subtree_setAttribute h.unreserved fun hself =>
      hself.withNamespacedAttribute hns _ _
  · exact h

/-- What is prepared from such a tree can be written. -/
theorem Ready.writable {e e' : Element} (h : Ready e) (hprepare : prepare e = .ok e') :
    ∀ x ∈ e'.subtree, x.Writable ∧ Xml.Builder.isInclude x = false := by
  obtain ⟨hvalid, rfl⟩ := prepare_eq_ok.1 hprepare
  intro x hx
  have hnames : Xml.checkNames x.name x.attributes = .ok () := by
    rw [← Element.validate_normalize "" e] at hvalid
    exact (Element.validate_eq_ok _).1 hvalid x hx
  obtain ⟨y, hy, outer, rfl⟩ := Element.exists_of_mem_normalize "" e x hx
  have hunreserved := (h.unreserved y hy).normalize outer
  have hdistinct := h.built.distinct y hy
  refine ⟨hunreserved.writable ?_ hnames, hunreserved.not_include⟩
  obtain ⟨ns, name, attributes, children⟩ := y
  exact hdistinct

/-- What can be written is read back, its namespaces escaped and its attachments as text. -/
theorem ofDocument_toXml_of_writable {e : Envelope}
    (h : ∀ x ∈ e.elements, x.Writable ∧ Xml.Builder.isInclude x = false) :
    ofDocument (Utf8.encode e.toXml) =
      .ok (e.map fun part => (part.represented .inlined).escaped.received "") := by
  rw [ofDocument, toXml, read_toDocument_of_writable h]
  show (ofRoot (Envelope.toElement _)).mapError ParseError.envelope = _
  rw [ofRoot_toElement]
  rfl

/-- A tree that is not prepared has a name that cannot be written. -/
theorem prepare_eq_error {e : Element} {cause : SoapError} (h : prepare e = .error cause) :
    ∃ name, cause = .encoding (.name name) := by
  unfold prepare at h
  split at h
  · cases h
  · exact ⟨_, (Except.error.inj h).symm⟩

/-- An envelope of trees made step by step, in which nothing is reserved, can be read back, unless it
is refused because of a name that cannot be written. -/
theorem ofDocument_of_build {entries : List HeaderEntry} {body : Element}
    (hentries : ∀ entry ∈ entries, Ready entry.block) (hbody : Ready body) :
    (∃ e back, build entries body = .ok e ∧ ofDocument (Utf8.encode e.toXml) = .ok back) ∨
      ∃ name, build entries body = .error (.encoding (.name name)) := by
  have hbuild : build entries body = (do
      let payload ← prepare body
      let headers ← entries.mapM fun entry => prepare entry.element
      pure { headers, body := payload }) := rfl
  rw [hbuild]
  cases hpayload : prepare body with
  | error cause =>
    obtain ⟨name, rfl⟩ := prepare_eq_error hpayload
    exact .inr ⟨name, rfl⟩
  | ok payload =>
    cases hheaders : entries.mapM fun entry => prepare entry.element with
    | error cause =>
      obtain ⟨entry, -, hfails⟩ := exists_of_mapM_eq_error hheaders
      obtain ⟨name, rfl⟩ := prepare_eq_error hfails
      exact .inr ⟨name, rfl⟩
    | ok headers =>
      have hwritable : ∀ x ∈ (⟨headers, payload⟩ : Envelope).elements,
          x.Writable ∧ Xml.Builder.isInclude x = false := by
        intro x hx
        obtain ⟨part, hpart, hsub⟩ := List.mem_flatMap.1 hx
        rcases List.mem_append.1 hpart with hpart | hpart
        · obtain ⟨entry, hentry, hprepare⟩ := exists_of_forall₂ (mapM_eq_ok.1 hheaders) hpart
          exact (hentries entry hentry).element.writable hprepare x hsub
        · rw [List.mem_singleton.1 hpart] at hsub
          exact hbody.writable hpayload x hsub
      exact .inl ⟨_, _, rfl, ofDocument_toXml_of_writable hwritable⟩

/-- A header block that says nothing. -/
def token : Element := (Element.qualified "urn:a&b" "Token").withText " "

/-- A payload with marks of markup in each text and namespace. -/
def order : Element :=
  ((Element.qualified "<'>" "order").withAttribute "note" "\n\"&").withChild
    ((Element.named "item").withText "]]>")

theorem ofDocument_of_build_order :
    Ready token ∧ Ready order ∧ ∃ e back, build [⟨token, true⟩] order = .ok e ∧
      ofDocument (Utf8.encode e.toXml) = .ok back := by
  have htoken : Ready token := ⟨.withText (.qualified _ _) _, by decide +kernel⟩
  have horder : Ready order :=
    ⟨.withChild (.setAttribute (.qualified _ _) _ _ _) (.withText (.named _) _), by decide +kernel⟩
  have hentries : ∀ entry ∈ [(⟨token, true⟩ : HeaderEntry)], Ready entry.block :=
    List.forall_mem_singleton.2 htoken
  have hnames : (build [⟨token, true⟩] order).isOk = true := by decide +kernel
  rcases ofDocument_of_build hentries horder with h | ⟨name, hname⟩
  · exact ⟨htoken, horder, h⟩
  · rw [hname] at hnames
    cases hnames

/-- A payload with an attribute that would be one more declaration of its namespace. -/
def redeclared : Element := (Element.qualified "u" "r").withAttribute "xmlns" "v"

/-- All its names can be written and it holds no attachments, and yet it is not read back. -/
theorem not_ofDocument_of_build :
    ¬∀ (entries : List HeaderEntry) (body : Element) (e : Envelope),
      (∀ entry ∈ entries, entry.block.Built ∧ entry.block.attachments = []) →
        body.Built → body.attachments = [] → build entries body = .ok e →
          ∃ back, ofDocument (Utf8.encode e.toXml) = .ok back := by
  intro h
  have hbuild : build [] redeclared = .ok { headers := [], body := redeclared } := by
    decide +kernel
  obtain ⟨back, hback⟩ :=
    h [] redeclared _ (by simp) (.setAttribute (.qualified _ _) _ _ _) rfl hbuild
  have hrefused : (ofDocument (Xml.Markup.bytesOf (.declaration ::
      (Envelope.toElement { headers := [], body := redeclared }).markup .inlined))).isOk = false := by
    decide +kernel
  have hxml : Utf8.encode (Envelope.toXml { headers := [], body := redeclared }) =
      Xml.Markup.bytesOf (.declaration ::
        (Envelope.toElement { headers := [], body := redeclared }).markup .inlined) :=
    Xml.Markup.encode_renderAll _
  rw [← hxml, hback] at hrefused
  cases hrefused

end Envelope

end SoapMtom
