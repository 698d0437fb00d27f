import SoapMtom.Proofs.Xml.Declarations
import SoapMtom.Proofs.Xml.Reading

/-!
# Documents that are written again

The tree of a document can be written and read again. Texts that touch become one, and namespaces,
which are written with references but read as they are written, come back escaped; with clean
namespaces nothing else is different. Main statements:

> `Element.received_escaped`: a tree that was read is received as it is, apart from that.
>
> `Document.read_rewritten`.
-/

namespace SoapMtom.Xml

/-! ## Texts that are joined -/

namespace Node

/-- What holds of texts and of the text they make together holds of joined nodes. -/
theorem forall_mem_joinTexts {P : Node → Prop} {ns : List Node} (h : ∀ n ∈ ns, P n)
    (happend : ∀ s t, P (.text s) → P (.text t) → P (.text (s ++ t))) :
    ∀ n ∈ joinTexts ns, P n := by
  have hjoin : ∀ (n : Node) (before : List Node), P n → (∀ m ∈ before, P m) →
      ∀ m ∈ join before n, P m := by
    intro n before hn hbefore
    cases n with
    | text s =>
      by_cases hhead : ∃ t, before.head? = some (.text t)
      · obtain ⟨t, ht⟩ := hhead
        obtain ⟨earlier, rfl⟩ := List.head?_eq_some_iff.1 ht
        rw [List.forall_mem_cons] at hbefore
        exact List.forall_mem_cons.2 ⟨happend t s hbefore.1 hn, hbefore.2⟩
      · rw [join_text_of_head fun t ht => hhead ⟨t, ht⟩]
        split
        · exact hbefore
        · exact List.forall_mem_cons.2 ⟨hn, hbefore⟩
    | element e | attachment a | reference href => exact List.forall_mem_cons.2 ⟨hn, hbefore⟩
  have hfold : ∀ before : List Node, (∀ m ∈ before, P m) → ∀ m ∈ ns.foldl join before, P m := by
    induction ns with
    | nil => exact fun _ hbefore => hbefore
    | cons n ns ih =>
      intro before hbefore
      rw [List.forall_mem_cons] at h
      exact ih h.2 _ (hjoin n before h.1 hbefore)
  intro n hn
  exact hfold [] (by simp) n (List.mem_reverse.1 hn)

/-- There is no indentation in texts alone, and none where no text is blank. -/
theorem dropIndentation_eq_self {ns : List Node} :
    dropIndentation ns = ns ↔
      (∀ n ∈ ns, n.text?.isSome = true) ∨ ∀ n ∈ ns, n.text?.any Text.isBlankText = false := by
  unfold dropIndentation
  split
  · next hall =>
    rw [List.all_eq_true] at hall
    exact ⟨fun _ => .inl hall, fun _ => rfl⟩
  · next hall =>
    rw [List.all_eq_true] at hall
    rw [List.filter_eq_self]
    constructor
    · intro h
      refine .inr fun n hn => ?_
      have hkept := h n hn
      cases n with
      | text s => simpa [text?] using hkept
      | element e | attachment a | reference href => rfl
    · rintro (h | h) n hn
      · exact absurd h hall
      · have hkept := h n hn
        cases n with
        | text s => simpa [text?] using hkept
        | element e | attachment a | reference href => rfl

/-- Whether there is indentation depends only on the texts. -/
theorem dropIndentation_congr {ms ns : List Node} (htexts : ms.map text? = ns.map text?)
    (h : dropIndentation ns = ns) : dropIndentation ms = ms := by
  have hall : ∀ P : Option String → Prop, (∀ n ∈ ns, P n.text?) → ∀ m ∈ ms, P m.text? := by
    intro P hns m hm
    have hmem : m.text? ∈ ns.map text? := htexts ▸ List.mem_map_of_mem hm
    obtain ⟨n, hn, he⟩ := List.mem_map.1 hmem
    rw [← he]
    exact hns n hn
  rw [dropIndentation_eq_self] at h ⊢
  exact h.imp (hall (·.isSome = true)) (hall (·.any Text.isBlankText = false))

/-- Joining texts makes no indentation. -/
theorem dropIndentation_joinTexts {ns : List Node} (h : dropIndentation ns = ns) :
    dropIndentation (joinTexts ns) = joinTexts ns := by
  rw [dropIndentation_eq_self] at h ⊢
  refine h.imp (fun h => forall_mem_joinTexts h fun _ _ _ _ => rfl) fun h =>
    forall_mem_joinTexts h fun s t hs _ => ?_
  have hs : s.toList.all Text.isBlank = false := hs
  show (s ++ t).toList.all Text.isBlank = false
  rw [String.toList_append, List.all_append, hs, Bool.false_and]

end Node

mutual

/-- The tree with every run of texts in it as one text. -/
def Element.joined : Element → Element
  | ⟨ns, name, attributes, children⟩ =>
    { ns, name, attributes, children := Node.joinTexts (Node.joinedEach children) }

/-- Each of the nodes with every run of texts in it as one text. -/
def Node.joinedEach : List Node → List Node
  | [] => []
  | .element e :: rest => .element e.joined :: Node.joinedEach rest
  | .text s :: rest => .text s :: Node.joinedEach rest
  | .attachment a :: rest => .attachment a :: Node.joinedEach rest
  | .reference href :: rest => .reference href :: Node.joinedEach rest

end

namespace Node

theorem text?_joinedEach (ns : List Node) : (joinedEach ns).map text? = ns.map text? := by
  induction ns with
  | nil => rfl
  | cons n ns ih =>
    cases n with
    | element e | text s | attachment a | reference href => exact congrArg (_ :: ·) ih

theorem text?_escapedAll (ns : List Node) : (escapedAll ns).map text? = ns.map text? := by
  induction ns with
  | nil => rfl
  | cons n ns ih =>
    cases n with
    | element e | text s | attachment a | reference href => exact congrArg (_ :: ·) ih

end Node

/-! ## Trees that were read -/

mutual

/-- A normal tree without indentation is received as it is, its texts joined. -/
theorem Element.received_escaped (inherited : String) : ∀ e : Element,
    e.normalize inherited = e → (∀ x ∈ e.subtree, dropIndentation x.children = x.children) →
      e.escaped.received (escape inherited) = e.escaped.joined
  | ⟨ns, name, attributes, children⟩ => by
    intro hnormal hunindented
    obtain ⟨hns, hchildren⟩ := Element.normalize_eq_self hnormal
    have hself := hunindented _ (Element.mem_subtree_self _)
    have heach := Node.receivedEach_escapedAll (handedDown ns inherited) children hchildren
      fun x hx => hunindented x (Element.mem_subtree_of_below hx)
    have htexts : (Node.joinedEach (Node.escapedAll children)).map Node.text? =
        children.map Node.text? :=
      (Node.text?_joinedEach _).trans (Node.text?_escapedAll _)
    rw [Element.escaped, Element.received, Element.joined, ownNamespace_escape, hns,
      handedDown_escape, heach,
      Node.dropIndentation_joinTexts (Node.dropIndentation_congr htexts hself)]

theorem Node.receivedEach_escapedAll (inherited : String) : ∀ ns : List Node,
    Node.normalizeAll inherited ns = ns →
      (∀ x ∈ Node.subtrees ns, dropIndentation x.children = x.children) →
        Node.receivedEach (escape inherited) (Node.escapedAll ns) =
          Node.joinedEach (Node.escapedAll ns)
  | [] => fun _ _ => rfl
  | .element e :: rest => by
    intro hnormal hunindented
    rw [Node.subtrees] at hunindented
    have he : e.normalize inherited = e := Node.element.inj (List.cons.inj hnormal).1
    rw [Node.escapedAll, Node.receivedEach, Node.joinedEach,
      Element.received_escaped inherited e he fun x hx =>
        hunindented x (List.mem_append_left _ hx),
      Node.receivedEach_escapedAll inherited rest (Node.normalizeAll_of_cons hnormal) fun x hx =>
        hunindented x (List.mem_append_right _ hx)]
  | .text s :: rest => by
    intro hnormal hunindented
    rw [Node.escapedAll, Node.receivedEach, Node.joinedEach,
      Node.receivedEach_escapedAll inherited rest (Node.normalizeAll_of_cons hnormal) hunindented]
  | .attachment a :: rest => by
    intro hnormal hunindented
    rw [Node.escapedAll, Node.receivedEach, Node.joinedEach,
      Node.receivedEach_escapedAll inherited rest (Node.normalizeAll_of_cons hnormal) hunindented]
  | .reference href :: rest => by
    intro hnormal hunindented
    rw [Node.escapedAll, Node.receivedEach, Node.joinedEach,
      Node.receivedEach_escapedAll inherited rest (Node.normalizeAll_of_cons hnormal) hunindented]

end

/-! ## Whole documents -/

/-- An element as it should be in a document with namespaces: once prefixes are taken off, its names
have no colon and none of the other marks by which tags are read, and its attributes differ in
namespace or name. -/
structure Element.Regular (e : Element) : Prop where
  name : Plain e.name
  attribute_names : ∀ a ∈ e.attributes, Plain a.name
  distinct : (e.attributes.map fun a => (a.ns, a.name)).Nodup

instance (e : Element) : Decidable e.Regular :=
  decidable_of_iff (_ ∧ _ ∧ _) ⟨fun ⟨h₁, h₂, h₃⟩ => ⟨h₁, h₂, h₃⟩, fun ⟨h₁, h₂, h₃⟩ => ⟨h₁, h₂, h₃⟩⟩

theorem Element.Regular.writable {e : Element} (h : e.Regular)
    (ha : ∀ a ∈ e.attributes, a.Proper) : e.Writable where
  name := h.name
  attributes a hmem := ⟨h.attribute_names a hmem, (ha a hmem).no_declaration⟩
  distinct := h.distinct
  declarable a hmem := (ha a hmem).declarable

/-- A tree that was read can be written and read again. It comes back with texts that touch as one,
and with its namespaces escaped. -/
theorem Document.read_rewritten {bs : Bytes} {doc : Document} (h : read bs = .ok doc)
    (hregular : ∀ x ∈ doc.root.subtree, x.Regular) :
    ∃ again, read (Utf8.encode doc.root.toXml) = .ok again ∧
      again.root = doc.root.escaped.joined ∧
      ((∀ x ∈ doc.root.subtree, ∀ ns ∈ x.namespaces, IsClean ns) →
        again.root = doc.root.joined) := by
  have hroot := Document.settled h Event.proper_of_mem_attributes
  have hwritable : ∀ x ∈ doc.root.subtree, x.Writable := fun x hx =>
    (hregular x hx).writable (hroot.settled_of_mem hx).attributes
  have hreadable : doc.root.Readable :=
    ⟨hwritable _ (Element.mem_subtree_self _), hroot.settled.detached, fun x hx =>
      ⟨hwritable x (Element.mem_subtree_of_below hx), (hroot.below x hx).1.detached,
        (hroot.below x hx).2⟩⟩
  have hreceived : doc.root.escaped.received "" = doc.root.escaped.joined :=
    Element.received_escaped "" doc.root hroot.normal fun x hx =>
      (hroot.settled_of_mem hx).unindented
  refine ⟨_, Document.read_toXml hreadable, hreceived, fun hclean => ?_⟩
  rw [Element.escaped_of_isClean _ hclean] at hreceived ⊢
  exact hreceived

/-- A document whose namespace is written with a reference, as is the value of its attribute. -/
def query : Bytes := Utf8.encode "<r xmlns=\"urn:x?a=1&amp;b=2\" v=\"1&amp;2\"/>"

/-- The document as it is read: in the value there is no reference left. -/
def queryDocument : Document :=
  { root :=
      { ns := some "urn:x?a=1&amp;b=2", name := "r"
        attributes := [{ ns := none, name := "v", value := "1&2" }], children := [] }
    references := [] }

theorem read_query : Document.read query = .ok queryDocument := by decide +kernel

theorem Document.read_rewritten_query :
    read query = .ok queryDocument ∧ (∀ x ∈ queryDocument.root.subtree, x.Regular) ∧
      ∃ again, read (Utf8.encode queryDocument.root.toXml) = .ok again ∧
        again.root.ns = some "urn:x?a=1&amp;amp;b=2" := by
  have hregular : ∀ x ∈ queryDocument.root.subtree, x.Regular := by decide +kernel
  obtain ⟨again, hread, hroot, -⟩ := read_rewritten read_query hregular
  refine ⟨read_query, hregular, again, hread, ?_⟩
  rw [hroot]
  decide +kernel

/-- So not every document is the same when it is written and read again. -/
theorem Document.not_read_rewritten_joined :
    ¬∀ bs doc, read bs = .ok doc →
      ∃ again, read (Utf8.encode doc.root.toXml) = .ok again ∧ again.root = doc.root.joined := by
  intro h
  obtain ⟨again, hread, hroot⟩ := h query queryDocument read_query
  have hns : (read (Utf8.encode queryDocument.root.toXml)).map (·.root.ns) =
      .ok (some "urn:x?a=1&amp;amp;b=2") := by decide +kernel
  rw [hread] at hns
  have hjoined : queryDocument.root.joined.ns = some "urn:x?a=1&amp;b=2" := by decide +kernel
  have hagain : again.root.ns = some "urn:x?a=1&amp;amp;b=2" := Except.ok.inj hns
  rw [hroot, hjoined] at hagain
  exact absurd hagain (by decide)

end SoapMtom.Xml
