import SoapMtom.Proofs.Xml.Tree
import SoapMtom.Xml.Writing

/-!
# Normal trees as they are written

The writer takes the default namespace at a place for granted, and `normalize` leaves out no other
one. So both go through a tree with the same default namespaces, and a tree is written like its
normal form, up to empty texts: an element that holds nothing else is written with two tags.
Main statements:

> `Element.normal_of_mem_placed`: in a normal tree every element is normal at its place.
>
> `Element.write_normalize`: a tree without empty texts and its normal form have the same markup.
-/

namespace SoapMtom.Xml

/-! ## Default namespaces -/

mutual

/-- The elements of a tree in document order, each with the default namespace at its place.
`inherited` is the one at the place of the whole tree. -/
def Element.placed (inherited : String) : Element → List (String × Element)
  | ⟨ns, name, attributes, children⟩ =>
    (inherited, ⟨ns, name, attributes, children⟩) ::
      Node.placedAll (handedDown ns inherited) children

/-- The elements in nodes and below them, each with the default namespace at its place. -/
def Node.placedAll (inherited : String) : List Node → List (String × Element)
  | [] => []
  | .element e :: rest => e.placed inherited ++ Node.placedAll inherited rest
  | .text _ :: rest => Node.placedAll inherited rest
  | .attachment _ :: rest => Node.placedAll inherited rest
  | .reference _ :: rest => Node.placedAll inherited rest

end

mutual

/-- Every element of a tree has its place. -/
theorem Element.map_snd_placed (inherited : String) : ∀ e : Element,
    (e.placed inherited).map Prod.snd = e.subtree
  | ⟨ns, name, attributes, children⟩ => by
    rw [Element.placed, Element.subtree, List.map_cons, Node.map_snd_placedAll]

theorem Node.map_snd_placedAll (inherited : String) : ∀ ns : List Node,
    (Node.placedAll inherited ns).map Prod.snd = Node.subtrees ns
  | [] => rfl
  | .element e :: rest => by
    rw [Node.placedAll, Node.subtrees, List.map_append, Element.map_snd_placed,
      Node.map_snd_placedAll inherited rest]
  | .text _ :: rest => Node.map_snd_placedAll inherited rest
  | .attachment _ :: rest => Node.map_snd_placedAll inherited rest
  | .reference _ :: rest => Node.map_snd_placedAll inherited rest

end

mutual

/-- In a normal tree every element is normal at its place. -/
theorem Element.normal_of_mem_placed (inherited : String) : ∀ e : Element,
    e.normalize inherited = e → ∀ p ∈ e.placed inherited, p.2.normalize p.1 = p.2
  | ⟨ns, name, attributes, children⟩ => by
    intro hnormal p hp
    rw [Element.placed, List.mem_cons] at hp
    rcases hp with rfl | hp
    · exact hnormal
    · have hchildren : Node.normalizeAll (handedDown ns inherited) children = children := by
        rw [Element.normalize] at hnormal
        exact congrArg Element.children hnormal
      exact Node.normal_of_mem_placedAll _ children (Node.normalizeAll_eq_self.1 hchildren) p hp

theorem Node.normal_of_mem_placedAll (inherited : String) : ∀ ns : List Node,
    (∀ n ∈ ns, n.Normal inherited) → ∀ p ∈ Node.placedAll inherited ns, p.2.normalize p.1 = p.2
  | [] => fun _ _ hp => by cases hp
  | .element e :: rest => by
    intro hnormal p hp
    obtain ⟨he, hrest⟩ := List.forall_mem_cons.1 hnormal
    rcases List.mem_append.1 hp with hp | hp
    · exact Element.normal_of_mem_placed inherited e he p hp
    · exact Node.normal_of_mem_placedAll inherited rest hrest p hp
  | .text _ :: rest => fun hnormal =>
    Node.normal_of_mem_placedAll inherited rest (List.forall_mem_cons.1 hnormal).2
  | .attachment _ :: rest => fun hnormal =>
    Node.normal_of_mem_placedAll inherited rest (List.forall_mem_cons.1 hnormal).2
  | .reference _ :: rest => fun hnormal =>
    Node.normal_of_mem_placedAll inherited rest (List.forall_mem_cons.1 hnormal).2

end

/-- A namespace that is kept does not repeat the default namespace, unless it takes a prefix. -/
theorem ne_of_ownNamespace {ns inherited : String} (h : ownNamespace (some ns) inherited = some ns)
    (hns : isPrefixed ns = false) : ns ≠ inherited := by
  rintro rfl
  rw [ownNamespace, hns] at h
  simp at h

/-! ## What a tag makes the default namespace -/

namespace TagScope

theorem bindPrefix_defaultNamespace (t : TagScope) (ns : String) :
    (t.bindPrefix ns).2.scope.defaultNamespace = t.scope.defaultNamespace := by
  unfold bindPrefix
  split
  · rfl
  · split
    · rfl
    · split <;> rfl

theorem bindAttributes_defaultNamespace (t : TagScope) (attributes : List Attribute) :
    (t.bindAttributes attributes).2.scope.defaultNamespace = t.scope.defaultNamespace := by
  induction attributes generalizing t with
  | nil => rfl
  | cons a rest ih =>
    rw [bindAttributes]
    refine (ih _).trans ?_
    cases a.ns with
    | none => rfl
    | some ns => exact bindPrefix_defaultNamespace t ns

/-- An element is given the default namespace that it hands down. -/
theorem bindElement_defaultNamespace (t : TagScope) (ns : Option String) (name : String) :
    (t.bindElement ns name).2.scope.defaultNamespace = handedDown ns t.scope.defaultNamespace := by
  unfold bindElement handedDown
  cases ns with
  | none => rfl
  | some ns =>
    dsimp only
    split
    · exact bindPrefix_defaultNamespace t ns
    · split
      · next h => exact h.symm
      · rfl

/-- A namespace that is left out is bound like one that repeats the default namespace. -/
theorem bindElement_ownNamespace (t : TagScope) (ns : Option String) (name : String) :
    t.bindElement (ownNamespace ns t.scope.defaultNamespace) name = t.bindElement ns name := by
  cases ns with
  | none => rfl
  | some ns =>
    rw [ownNamespace]
    split
    · next h =>
      rw [Bool.and_eq_true, Bool.not_eq_true', decide_eq_true_eq] at h
      obtain ⟨hns, rfl⟩ := h
      simp [bindElement, hns]
    · rfl

end TagScope

theorem openTag_defaultNamespace (form : AttachmentForm) (scope : Scope) (generated : Nat)
    (ns : Option String) (name : String) (attributes : List Attribute) (children : List Node) :
    (openTag form scope generated ns name attributes children).scope.defaultNamespace =
      handedDown ns scope.defaultNamespace := by
  have hbound := (TagScope.bindAttributes_defaultNamespace
    (TagScope.bindElement { scope, declared := [], generated } ns name).2 attributes).trans
      (TagScope.bindElement_defaultNamespace { scope, declared := [], generated } ns name)
  unfold openTag
  cases contentTypeToNote form attributes children with
  | none => exact hbound
  | some contentType => exact (TagScope.bindPrefix_defaultNamespace _ xmime).trans hbound

/-! ## The markup stays the same -/

/-- Normalizing leaves attachments alone. -/
theorem Node.findSome?_normalizeAll (inherited : String) (ns : List Node) :
    (Node.normalizeAll inherited ns).findSome? Node.attachment? =
      ns.findSome? Node.attachment? := by
  induction ns with
  | nil => rfl
  | cons n ns ih =>
    cases n with
    | text s =>
      rw [Node.normalizeAll]
      split
      · exact ih
      · exact ih
    | element e | reference href => exact ih
    | attachment a => rfl

/-- An element has the same tag with its namespace left out. -/
theorem openTag_normalize (form : AttachmentForm) (scope : Scope) (generated : Nat)
    (ns : Option String) (name : String) (attributes : List Attribute) (inherited : String)
    (children : List Node) :
    openTag form scope generated (ownNamespace ns scope.defaultNamespace) name attributes
        (Node.normalizeAll inherited children) =
      openTag form scope generated ns name attributes children := by
  have hnote : contentTypeToNote form attributes (Node.normalizeAll inherited children) =
      contentTypeToNote form attributes children := by
    rw [contentTypeToNote, contentTypeToNote, Node.findSome?_normalizeAll]
  have helement := TagScope.bindElement_ownNamespace { scope, declared := [], generated } ns name
  rw [openTag, openTag, hnote, helement]

/-- Where no text is empty, the first one is not. -/
theorem Node.isEmpty_of_text {s : String} {ns : List Node} (h : .text "" ∉ .text s :: ns) :
    s.isEmpty = false := by
  rw [Bool.eq_false_iff, ne_eq, String.isEmpty_iff]
  rintro rfl
  exact h (List.mem_cons_self ..)

/-- If no text is empty, there are nodes left if there were any. -/
theorem Node.isEmpty_normalizeAll (inherited : String) {ns : List Node} (h : .text "" ∉ ns) :
    (Node.normalizeAll inherited ns).isEmpty = ns.isEmpty := by
  cases ns with
  | nil => rfl
  | cons n ns =>
    cases n with
    | text s =>
      rw [Node.normalizeAll, Node.isEmpty_of_text h]
      rfl
    | element e | attachment a | reference href => rfl

mutual

/-- A tree without empty texts is written like its normal form. -/
theorem Element.write_normalize (form : AttachmentForm) : ∀ (scope : Scope) (generated : Nat)
    (e : Element), (∀ x ∈ e.subtree, .text "" ∉ x.children) →
    (e.normalize scope.defaultNamespace).write form scope generated = e.write form scope generated
  | scope, generated, ⟨ns, name, attributes, children⟩ => by
    intro h
    have hchildren := h _ (Element.mem_subtree_self _)
    have hinside := openTag_defaultNamespace form scope generated ns name attributes children
    rw [Element.normalize, Element.write, Element.write, openTag_normalize,
      Node.isEmpty_normalizeAll _ hchildren, ← hinside,
      Node.writeAll_normalizeAll form _ _ children hchildren fun x hx =>
        h x (Element.mem_subtree_of_below hx)]

theorem Node.writeAll_normalizeAll (form : AttachmentForm) : ∀ (scope : Scope) (generated : Nat)
    (ns : List Node), .text "" ∉ ns → (∀ x ∈ Node.subtrees ns, .text "" ∉ x.children) →
    Node.writeAll form scope generated (Node.normalizeAll scope.defaultNamespace ns) =
      Node.writeAll form scope generated ns
  | scope, generated, [] => fun _ _ => rfl
  | scope, generated, .element e :: rest => by
    intro htext h
    rw [Node.subtrees, List.forall_mem_append] at h
    have hrest := fun n => Node.writeAll_normalizeAll form scope n rest
      (fun hmem => htext (List.mem_cons_of_mem _ hmem)) h.2
    rw [Node.normalizeAll, Node.writeAll, Node.writeAll, Element.write_normalize _ _ _ e h.1]
    simp only [hrest]
  | scope, generated, .text s :: rest => by
    intro htext h
    have hrest := Node.writeAll_normalizeAll form scope generated rest
      (fun hmem => htext (List.mem_cons_of_mem _ hmem)) h
    have hs : ¬s.isEmpty = true := Bool.eq_false_iff.1 (Node.isEmpty_of_text htext)
    rw [Node.normalizeAll, if_neg hs, Node.writeAll, Node.writeAll, hrest]
  | scope, generated, .attachment a :: rest => by
    intro htext h
    have hrest := fun n => Node.writeAll_normalizeAll form scope n rest
      (fun hmem => htext (List.mem_cons_of_mem _ hmem)) h
    cases form with
    | inlined => rw [Node.normalizeAll, Node.writeAll, Node.writeAll, hrest]
    | referenced =>
      rw [Node.normalizeAll, Node.writeAll, Node.writeAll]
      simp only [hrest]
  | scope, generated, .reference href :: rest => by
    intro htext h
    have hrest := fun n => Node.writeAll_normalizeAll form scope n rest
      (fun hmem => htext (List.mem_cons_of_mem _ hmem)) h
    rw [Node.normalizeAll, Node.writeAll, Node.writeAll]
    simp only [hrest]

end

end SoapMtom.Xml
