import SoapMtom.Proofs.Envelope
import SoapMtom.Proofs.Xml.Reading

/-!
# Envelopes that documents carry

An element is `Faithful` when writing and reading do not change it: its attributes are distinct and
declare nothing, its namespaces are read as they are written, its texts are tidy, and it stands for
no attachment. Main statement:

> `Envelope.read_toDocument`: the document of a built envelope of such elements is read as the tree
> of the envelope, each part as it is received.
-/

namespace SoapMtom

namespace Xml

/-- An element whose markup cannot be taken for something else. -/
structure Element.Unreserved (e : Element) : Prop where
  /-- No attribute without a namespace is called `xmlns`. -/
  no_declaration : ∀ a ∈ e.attributes, a.ns = none → a.name ≠ "xmlns"
  /-- No attribute lives in the empty namespace or in that of declarations. -/
  attribute_ns : ∀ a ∈ e.attributes, a.ns ≠ some "" ∧ a.ns ≠ some xmlnsNamespace
  /-- The element is no reference to an attachment. -/
  not_include : Builder.isInclude e = false

instance (e : Element) : Decidable e.Unreserved :=
  decidable_of_iff (_ ∧ _ ∧ _) ⟨fun ⟨h₁, h₂, h₃⟩ => ⟨h₁, h₂, h₃⟩, fun ⟨h₁, h₂, h₃⟩ => ⟨h₁, h₂, h₃⟩⟩

theorem Element.Unreserved.writable {e : Element} (h : e.Unreserved)
    (hdistinct : (e.attributes.map fun a => (a.ns, a.name)).Nodup)
    (hnames : checkNames e.name e.attributes = .ok ()) : e.Writable := by
  obtain ⟨hname, hattributes⟩ := checkNames_eq_ok.1 hnames
  refine ⟨plain_of_isName hname,
    fun a ha => ⟨plain_of_isName (hattributes a ha), h.no_declaration a ha⟩, hdistinct,
    fun a ha ns hns => ?_⟩
  obtain ⟨hempty, hxmlns⟩ := h.attribute_ns a ha
  rw [hns] at hempty hxmlns
  exact ⟨fun he => hempty (by rw [he]), fun he => hxmlns (by rw [he])⟩

/-- An element that is not changed by writing and reading. -/
structure Element.Faithful (e : Element) : Prop where
  /-- No two attributes have the same namespace and name. -/
  distinct : (e.attributes.map fun a => (a.ns, a.name)).Nodup
  /-- No attribute without a namespace is called `xmlns`. -/
  no_declaration : ∀ a ∈ e.attributes, a.ns = none → a.name ≠ "xmlns"
  /-- No attribute lives in the empty namespace or in that of declarations. -/
  attribute_ns : ∀ a ∈ e.attributes, a.ns ≠ some "" ∧ a.ns ≠ some xmlnsNamespace
  /-- No namespace holds a character that is written as a reference. -/
  clean : ∀ ns ∈ e.namespaces, IsClean ns
  /-- No text follows another, and one of blanks only stands alone. -/
  tidy : e.Tidy
  /-- The element is no reference to an attachment. -/
  not_include : Builder.isInclude e = false

instance (e : Element) : Decidable e.Faithful :=
  decidable_of_iff (_ ∧ _ ∧ _ ∧ _ ∧ _ ∧ _)
    ⟨fun ⟨h₁, h₂, h₃, h₄, h₅, h₆⟩ => ⟨h₁, h₂, h₃, h₄, h₅, h₆⟩, fun ⟨h₁, h₂, h₃, h₄, h₅, h₆⟩ =>
      ⟨h₁, h₂, h₃, h₄, h₅, h₆⟩⟩

theorem Element.Faithful.unreserved {e : Element} (h : e.Faithful) : e.Unreserved :=
  ⟨h.no_declaration, h.attribute_ns, h.not_include⟩

theorem Element.Faithful.writable {e : Element} (h : e.Faithful)
    (hnames : checkNames e.name e.attributes = .ok ()) : e.Writable :=
  h.unreserved.writable h.distinct hnames

end Xml

namespace Envelope

open Xml (Element Node)

/-- Every element of the envelope is faithful. -/
def Faithful (e : Envelope) : Prop := ∀ x ∈ e.elements, x.Faithful

instance (e : Envelope) : Decidable e.Faithful :=
  inferInstanceAs (Decidable (∀ x ∈ e.elements, x.Faithful))

/-- The document of an envelope that can be written is read as its tree, with the namespaces of each
part escaped. -/
theorem read_toDocument_of_writable {e : Envelope}
    (h : ∀ x ∈ e.elements, x.Writable ∧ Xml.Builder.isInclude x = false)
    (form : Xml.AttachmentForm) :
    Xml.Document.read (Utf8.encode (e.toDocument form)) =
      .ok { root := (e.map fun part => (part.represented form).escaped.received "").toElement
            references := (e.toElement.represented form).references [] } := by
  have hall : ∀ x ∈ e.toElement.subtree, x.Writable ∧ Xml.Builder.isInclude x = false := by
    intro x hx
    rcases mem_subtree_toElement hx with ⟨name, hname, parts, rfl⟩ | hx
    · obtain ⟨hwritable, hinclude, -⟩ := writable_framing hname parts
      exact ⟨hwritable, hinclude⟩
    · exact h x hx
  have hread := Xml.Document.read_toDocument form (fun x hx => (hall x hx).1) fun x hx =>
    (hall x (Element.mem_subtree_of_below hx)).2
  rw [toDocument, hread, map_toElement (represented_framing form), map_toElement escaped_framing,
    map_toElement received_framing, map_map, map_map]

/-- The document of an envelope is read as its tree, with each part as it is received. -/
theorem read_toDocument {e : Envelope} (hf : e.Faithful)
    (hvalid : ∀ part ∈ e.parts, part.validate = .ok ()) (form : Xml.AttachmentForm) :
    Xml.Document.read (Utf8.encode (e.toDocument form)) =
      .ok { root := (e.map fun part => (part.represented form).received "").toElement
            references := (e.toElement.represented form).references [] } := by
  have hwritable : ∀ x ∈ e.elements, x.Writable ∧ Xml.Builder.isInclude x = false := by
    intro x hx
    obtain ⟨part, hpart, hsub⟩ := List.mem_flatMap.1 hx
    have hnames := (Element.validate_eq_ok part).1 (hvalid part hpart) x hsub
    exact ⟨(hf x hx).writable hnames, (hf x hx).not_include⟩
  have hescaped : (e.map fun part => (part.represented form).escaped.received "") =
      e.map fun part => (part.represented form).received "" := by
    refine map_congr fun part hpart => ?_
    rw [Element.escaped_of_isClean _ fun y hy => ?_]
    obtain ⟨x, hx, rfl⟩ := Element.exists_of_mem_represented form _ y hy
    exact Element.isClean_represented form (hf x (mem_elements_of_mem_parts hpart hx)).clean
  rw [read_toDocument_of_writable hwritable, hescaped]

end Envelope

end SoapMtom
