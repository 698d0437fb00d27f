import SoapMtom.Proofs.Lasting

/-!
# Faults are read back

A fault is written in one of two layouts, and read in the one that its child elements tell. Whatever
its texts are and whatever it says in particular, the fault that is reported is the fault that was
written. Main statements:

> `Fault.ofElement?_element`: a fault is recognised in the layout in which it was written, and so are
> its particulars if their name belongs to that layout.
>
> `Fault.receivePlain_toDocument`.
>
> `Fault.receivePlain_both_versions`: a fault that is written in both versions is reported alike
> exactly if it says nothing in particular.
-/

namespace SoapMtom

namespace Fault

open Xml (Element Node)

/-! ## The two layouts -/

/-- The name of the element with the particulars in that version. -/
def detailName : FaultVersion → String
  | .soap11 => "detail"
  | .soap12 => "Detail"

/-- An element of SOAP 1.2 that says the explanation in English. -/
def reasonText : Element :=
  (Element.qualified Xml.soap12 "Text").withNamespacedAttribute Xml.xmlNamespace "lang" "en"

/-- The children of a fault in that version. -/
def parts (f : Fault) : FaultVersion → List Element
  | .soap11 =>
    [(Element.named "faultcode").withText f.code, (Element.named "faultstring").withText f.reason] ++
      (f.actor.map (Element.named "faultactor").withText).toList ++ f.detail.toList
  | .soap12 =>
    let q := Element.qualified Xml.soap12
    [(q "Code").withChild ((q "Value").withText f.code),
        (q "Reason").withChild (reasonText.withText f.reason)] ++
      (f.actor.map (q "Role").withText).toList ++ f.detail.toList

/-- The elements that frame the texts of a fault, without their children. -/
def frames : List Element :=
  let of11 := Element.qualified Xml.soap11
  let of12 := Element.qualified Xml.soap12
  [of11 "Envelope", of11 "Body", of11 "Fault", .named "faultcode", .named "faultstring",
    .named "faultactor", of12 "Envelope", of12 "Body", of12 "Fault", of12 "Code", of12 "Value",
    of12 "Reason", reasonText, of12 "Role"]

theorem isFrame_of_mem_frames : ∀ tag ∈ frames, tag.IsFrame := by decide

/-- A fault is written as its parts, in either version. -/
theorem element_eq (f : Fault) (version : FaultVersion) :
    f.element version =
      { Element.qualified version.ns "Fault" with
        children := (f.parts version).map .element } := by
  cases version <;>
    simp [element, element11, element12, parts, optionalChildren, Element.withTextChild,
      Element.withChild, Element.push, Element.qualified, reasonText, FaultVersion.ns]

/-- The envelope around a fault holds its body, and that holds the fault. -/
theorem envelopeElement_eq (f : Fault) (version : FaultVersion) :
    f.envelopeElement version =
      { Element.qualified version.ns "Envelope" with
        children := [{ Element.qualified version.ns "Body" with
          children := [f.element version].map .element }].map .element } := rfl

/-! ## What is written comes back -/

/-- The particulars of a fault, if there are any, bear the name that the version gives them and come
back as they are. -/
def Reportable (f : Fault) (version : FaultVersion) : Prop :=
  ∀ detail ∈ f.detail, detail.name = detailName version ∧ detail.Returns

instance (f : Fault) (version : FaultVersion) : Decidable (f.Reportable version) :=
  match h : f.detail with
  | none => isTrue fun detail hd => by rw [h] at hd; cases hd
  | some detail =>
    decidable_of_iff (detail.name = detailName version ∧ detail.Returns) (by
      rw [Reportable, h]
      simp)

theorem returns_of_mem_parts {f : Fault} (h : ∀ detail ∈ f.detail, detail.Returns)
    (version : FaultVersion) : ∀ part ∈ f.parts version, part.Returns := by
  have hframe : ∀ {tag : Element}, tag ∈ frames → tag.IsFrame := fun htag =>
    isFrame_of_mem_frames _ htag
  have hwithText : ∀ {tag : Element} (s : String), tag ∈ frames → (tag.withText s).Returns :=
    fun s htag => (hframe htag).returns_withText s
  have hactor : ∀ {tag part : Element}, tag ∈ frames →
      part ∈ (f.actor.map tag.withText).toList → part.Returns := by
    intro tag part htag hpart
    obtain ⟨s, -, rfl⟩ := Option.map_eq_some_iff.1 (Option.mem_toList.1 hpart)
    exact hwithText s htag
  have hdetail : ∀ {part : Element}, part ∈ f.detail.toList → part.Returns := fun hpart =>
    h _ (Option.mem_toList.1 hpart)
  have haround : ∀ {tag part : Element}, tag ∈ frames → part.Returns →
      (tag.withChild part).Returns := by
    intro tag part htag hpart
    have hreturns := (hframe htag).returns_around [part] (by simpa using hpart)
    rw [Element.withChild, Element.push, (hframe htag).childless]
    exact hreturns
  intro part hpart
  cases version with
  | soap11 =>
    simp only [parts, List.mem_append, List.mem_cons, List.not_mem_nil, or_false] at hpart
    rcases hpart with ((rfl | rfl) | hpart) | hpart
    · exact hwithText _ (by simp [frames])
    · exact hwithText _ (by simp [frames])
    · exact hactor (by simp [frames]) hpart
    · exact hdetail hpart
  | soap12 =>
    simp only [parts, List.mem_append, List.mem_cons, List.not_mem_nil, or_false] at hpart
    rcases hpart with ((rfl | rfl) | hpart) | hpart
    · exact haround (by simp [frames]) (hwithText _ (by simp [frames]))
    · exact haround (by simp [frames]) (hwithText _ (by simp [frames]))
    · exact hactor (by simp [frames]) hpart
    · exact hdetail hpart

/-- The tree of a fault comes back, with the envelope around it. -/
theorem returns_envelopeElement {f : Fault} (h : ∀ detail ∈ f.detail, detail.Returns)
    (version : FaultVersion) : (f.envelopeElement version).Returns := by
  have hframe : ∀ name ∈ ["Envelope", "Body", "Fault"],
      (Element.qualified version.ns name).IsFrame := by
    intro name hname
    apply isFrame_of_mem_frames
    cases version <;> simp only [List.mem_cons, List.not_mem_nil, or_false] at hname <;>
      rcases hname with rfl | rfl | rfl <;> simp [frames, FaultVersion.ns]
  have hfault : (f.element version).Returns := by
    rw [element_eq]
    exact (hframe "Fault" (by simp)).returns_around _ (returns_of_mem_parts h version)
  have hbody := (hframe "Body" (by simp)).returns_around [f.element version]
    (by simpa using hfault)
  rw [envelopeElement_eq]
  exact (hframe "Envelope" (by simp)).returns_around _ (by simpa using hbody)

/-! ## The layout is recognised -/

/-- The first child of a name, among the parts of a fault. -/
theorem child?_element (f : Fault) (version : FaultVersion) (name : String) :
    (f.element version).child? name = (f.parts version).find? (·.name = name) := by
  have helements : (f.element version).elements = f.parts version := by
    rw [element_eq, Element.elements, List.filterMap_map]
    exact List.filterMap_some
  rw [Element.child?, helements]

/-- The particulars bear the name that one of the versions gives them, and none of the other names
that a reader looks for. -/
def IsNamed (f : Fault) : Prop := ∀ detail ∈ f.detail, ∃ version, detail.name = detailName version

/-- The particulars as a reader of that version finds them. -/
def foundDetail (f : Fault) (version : FaultVersion) : Option Element :=
  f.detail.filter (·.name = detailName version)

/-- The children of a fault in SOAP 1.1 are found by their names. -/
theorem child?_element11 {f : Fault} (h : f.IsNamed) :
    let e := f.element .soap11
    e.child? "Code" = none ∧
      e.child? "faultcode" = some ((Element.named "faultcode").withText f.code) ∧
      e.child? "faultstring" = some ((Element.named "faultstring").withText f.reason) ∧
      e.child? "faultactor" = f.actor.map (Element.named "faultactor").withText ∧
      e.child? "detail" = f.foundDetail .soap11 := by
  obtain ⟨code, reason, actor, detail⟩ := f
  simp only [child?_element, parts, List.cons_append, List.nil_append, List.find?_cons,
    List.find?_append, Element.name_withText, Element.named, foundDetail, detailName]
  cases detail with
  | none => cases actor <;> simp [Element.name_withText]
  | some detail =>
    obtain ⟨version, hname⟩ := h detail rfl
    cases version <;> cases actor <;> simp [hname, detailName, Element.name_withText, Option.filter_some]

/-- The children of a fault in SOAP 1.2 are found by their names. -/
theorem child?_element12 {f : Fault} (h : f.IsNamed) :
    let e := f.element .soap12
    let q := Element.qualified Xml.soap12
    e.child? "Code" = some ((q "Code").withChild ((q "Value").withText f.code)) ∧
      e.child? "Reason" = some ((q "Reason").withChild (reasonText.withText f.reason)) ∧
      e.child? "Role" = f.actor.map (q "Role").withText ∧
      e.child? "Detail" = f.foundDetail .soap12 := by
  obtain ⟨code, reason, actor, detail⟩ := f
  simp only [child?_element, parts, List.cons_append, List.nil_append, List.find?_cons,
    List.find?_append, Element.qualified, Element.withChild, Element.push, foundDetail, detailName]
  cases detail with
  | none => cases actor <;> simp [Element.name_withText]
  | some detail =>
    obtain ⟨version, hname⟩ := h detail rfl
    cases version <;> cases actor <;> simp [hname, detailName, Element.name_withText, Option.filter_some]

/-- The text in a frame inside another element is found by the name of the frame. -/
theorem childText?_withChild {tag inner : Element} (htag : tag.children = [])
    (hinner : inner.IsFrame) (s : String) :
    (tag.withChild (inner.withText s)).childText? inner.name = some s := by
  have hchild : (tag.withChild (inner.withText s)).child? inner.name =
      some (inner.withText s) := by
    rw [Element.child?, Element.elements, Element.withChild, Element.push, htag]
    simp [Node.element?, Element.name_withText]
  rw [Element.childText?, hchild, Option.map_some, hinner.text_withText]

/-- The fault that a payload reports is the one that was written, with the particulars that are
found. -/
theorem ofElement?_element {f : Fault} (h : f.IsNamed) (version : FaultVersion) :
    ofElement? (f.element version) = some { f with detail := f.foundDetail version } := by
  have hframe : ∀ {tag : Element}, tag ∈ frames → tag.IsFrame := fun htag =>
    isFrame_of_mem_frames _ htag
  have htexts : ∀ {tag : Element}, tag ∈ frames →
      (f.actor.map tag.withText).map Element.text = f.actor := by
    intro tag htag
    have hid : (Element.text ∘ tag.withText) = id := funext (hframe htag).text_withText
    rw [Option.map_map, hid, Option.map_id, id]
  have hfault : ((f.element version).name = "Fault" &&
      ((f.element version).ns = some Xml.soap11 || (f.element version).ns = some Xml.soap12)) =
        true := by
    rw [element_eq]
    cases version <;> rfl
  rw [ofElement?, if_pos hfault]
  cases version with
  | soap11 =>
    obtain ⟨hnone, hcode, hreason, hactor, hdetail⟩ := child?_element11 h
    rw [hnone]
    dsimp only
    rw [ofElement11, Element.childText?, Element.childText?, Element.childText?, hcode, hreason,
      hactor, hdetail, htexts (by simp [frames]), Option.map_some, Option.map_some,
      (hframe (by simp [frames])).text_withText, (hframe (by simp [frames])).text_withText]
    rfl
  | soap12 =>
    obtain ⟨hcode, hreason, hactor, hdetail⟩ := child?_element12 h
    have hvalue : ((Element.qualified Xml.soap12 "Code").withChild
        ((Element.qualified Xml.soap12 "Value").withText f.code)).childText? "Value" =
          some f.code :=
      childText?_withChild rfl (hframe (by simp [frames])) f.code
    have htext : ((Element.qualified Xml.soap12 "Reason").withChild
        (reasonText.withText f.reason)).childText? "Text" = some f.reason :=
      childText?_withChild rfl (hframe (by simp [frames])) f.reason
    have hrole : (f.element .soap12).childText? "Role" = f.actor := by
      rw [Element.childText?, hactor, htexts (by simp [frames])]
    rw [hcode]
    dsimp only
    rw [ofElement12, hvalue, hreason, Option.bind_some, htext, hrole, hdetail]
    rfl

/-! ## The whole document -/

/-- An envelope around a single payload describes that payload and no headers. -/
theorem ofRoot_envelopeElement (f : Fault) (version : FaultVersion) :
    Envelope.ofRoot (f.envelopeElement version) =
      .ok { headers := [], body := f.element version } := by
  cases version <;> rfl

/-- A fault that is written as a document is reported when the document is taken in, with the
particulars that a reader of that version finds. -/
theorem receivePlain_foundDetail {f : Fault} (hdetail : ∀ detail ∈ f.detail, detail.Returns)
    (hnamed : f.IsNamed) (version : FaultVersion) :
    Envelope.receivePlain (Utf8.encode (f.toDocument version)) =
      .error (.fault { f with detail := f.foundDetail version }) := by
  have hread := Xml.Document.read_of_returns (returns_envelopeElement hdetail version) .inlined
  have hplain : Envelope.ofPlain (Utf8.encode (f.toDocument version)) =
      .ok { headers := [], body := f.element version } :=
    bind_eq_ok.2 ⟨_, mapError_eq_ok.2 hread, mapError_eq_ok.2 (ofRoot_envelopeElement f version)⟩
  rw [Envelope.receivePlain, hplain]
  dsimp only
  rw [Envelope.checkFault, Envelope.fault?, ofElement?_element hnamed]

theorem Reportable.returns {f : Fault} {version : FaultVersion} (h : f.Reportable version) :
    ∀ detail ∈ f.detail, detail.Returns :=
  fun detail hdetail => (h detail hdetail).2

theorem Reportable.isNamed {f : Fault} {version : FaultVersion} (h : f.Reportable version) :
    f.IsNamed :=
  fun detail hdetail => ⟨version, (h detail hdetail).1⟩

/-- A reader of the version that names the particulars finds them. -/
theorem Reportable.foundDetail_eq {f : Fault} {version : FaultVersion} (h : f.Reportable version) :
    f.foundDetail version = f.detail := by
  rw [foundDetail]
  cases hdetail : f.detail with
  | none => rfl
  | some detail => rw [Option.filter_some, if_pos (decide_eq_true (h detail hdetail).1)]

/-- A reader of the other version does not. -/
theorem Reportable.foundDetail_of_ne {f : Fault} {version other : FaultVersion}
    (h : f.Reportable version) (hother : version ≠ other) : f.foundDetail other = none := by
  have hnames : detailName version ≠ detailName other := by
    revert hother
    cases version <;> cases other <;> decide
  rw [foundDetail]
  cases hdetail : f.detail with
  | none => rfl
  | some detail =>
    rw [Option.filter_some, if_neg]
    rw [(h detail hdetail).1]
    simpa using hnames

/-- A fault that is written as a document of its version is reported as it was when the document is
taken in. -/
theorem receivePlain_toDocument {f : Fault} {version : FaultVersion} (h : f.Reportable version) :
    Envelope.receivePlain (Utf8.encode (f.toDocument version)) = .error (.fault f) := by
  rw [receivePlain_foundDetail h.returns h.isNamed, h.foundDetail_eq]

/-- A fault that says little: no code, blanks for an explanation, an actor without a name, and
particulars with markup in their texts. -/
def refusal : Fault :=
  { code := ""
    reason := " \n"
    actor := some ""
    detail := some
      { ns := some "urn:orders", name := "Detail"
        children :=
          [.element
            { name := "Order", attributes := [{ ns := some "urn:ids", name := "id", value := "<7>" }]
              children := [.text "a & b"] },
            .element { ns := some Xml.soap11, name := "Note", children := [.text "\t"] }] } }

theorem receivePlain_refusal :
    refusal.Reportable .soap12 ∧
      Envelope.receivePlain (Utf8.encode (refusal.toDocument .soap12)) =
        .error (.fault refusal) := by
  have hreportable : refusal.Reportable .soap12 := by decide +kernel
  exact ⟨hreportable, receivePlain_toDocument hreportable⟩

/-! ## The same fault in both versions -/

/-- A fault whose particulars are an element called `detail` is reported as it was from its document
of SOAP 1.1, and without the particulars from that of SOAP 1.2: there they are written under the same
name and sought under another. So both report the same exactly if there are none. -/
theorem receivePlain_both_versions {f : Fault} (h : f.Reportable .soap11) :
    Envelope.receivePlain (Utf8.encode (f.toDocument .soap11)) = .error (.fault f) ∧
      Envelope.receivePlain (Utf8.encode (f.toDocument .soap12)) =
        .error (.fault { f with detail := none }) ∧
      (Envelope.receivePlain (Utf8.encode (f.toDocument .soap11)) =
        Envelope.receivePlain (Utf8.encode (f.toDocument .soap12)) ↔ f.detail = none) := by
  have h11 := receivePlain_foundDetail h.returns h.isNamed .soap11
  have h12 := receivePlain_foundDetail h.returns h.isNamed .soap12
  rw [h.foundDetail_eq] at h11
  rw [h.foundDetail_of_ne (by decide)] at h12
  refine ⟨h11, h12, ?_⟩
  rw [h11, h12]
  constructor
  · intro hsame
    exact congrArg Fault.detail (SoapError.fault.inj (Except.error.inj hsame))
  · intro hnone
    rw [← hnone]

/-- A fault with particulars in a namespace of their own, and texts with blanks and markup. -/
def shortage : Fault :=
  { code := "<&>"
    reason := "\n sold out "
    actor := some ""
    detail := some
      { ns := some "urn:stock", name := "detail"
        children := [.element { name := "left", children := [.text "0 < 1"] }] } }

theorem receivePlain_shortage :
    shortage.Reportable .soap11 ∧
      Envelope.receivePlain (Utf8.encode (shortage.toDocument .soap11)) =
        .error (.fault shortage) ∧
      Envelope.receivePlain (Utf8.encode (shortage.toDocument .soap12)) =
        .error (.fault { shortage with detail := none }) := by
  have hreportable : shortage.Reportable .soap11 := by decide +kernel
  obtain ⟨h11, h12, -⟩ := receivePlain_both_versions hreportable
  exact ⟨hreportable, h11, h12⟩

/-- Its particulars do not reach the reader of its document of SOAP 1.2. -/
theorem not_receivePlain_both_versions :
    ¬∀ f : Fault, f.Reportable .soap11 →
      Envelope.receivePlain (Utf8.encode (f.toDocument .soap11)) =
        Envelope.receivePlain (Utf8.encode (f.toDocument .soap12)) := by
  intro h
  have hreportable : shortage.Reportable .soap11 := by decide +kernel
  have hsame := h shortage hreportable
  rw [receivePlain_foundDetail hreportable.returns hreportable.isNamed,
    receivePlain_foundDetail hreportable.returns hreportable.isNamed] at hsame
  revert hsame
  decide

end Fault

end SoapMtom
