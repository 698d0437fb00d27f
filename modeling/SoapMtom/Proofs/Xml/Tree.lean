import SoapMtom.Xml.Element

/-!
# The elements of a tree

What a tree has to satisfy is said of each element in `Element.subtree`. Main statements:

> `Element.validate_eq_ok`: a tree passes `validate` exactly when the names of each of its elements
> pass `checkNames`.
>
> `Element.normalize_normalize`: normalizing again changes nothing.
-/

namespace SoapMtom.Xml

mutual

/-- The element itself and every element below it, in document order. -/
def Element.subtree : Element → List Element
  | ⟨ns, name, attributes, children⟩ =>
    ⟨ns, name, attributes, children⟩ :: Node.subtrees children

/-- Every element in the nodes and below them, in document order. -/
def Node.subtrees : List Node → List Element
  | [] => []
  | .element e :: rest => e.subtree ++ Node.subtrees rest
  | .text _ :: rest => Node.subtrees rest
  | .attachment _ :: rest => Node.subtrees rest
  | .reference _ :: rest => Node.subtrees rest

end

namespace Element

theorem subtree_eq (e : Element) : e.subtree = e :: Node.subtrees e.children := by
  obtain ⟨ns, name, attributes, children⟩ := e
  rw [subtree]

theorem mem_subtree_self (e : Element) : e ∈ e.subtree := by
  rw [subtree_eq]
  exact List.mem_cons_self ..

/-- The elements below an element are in its tree. -/
theorem mem_subtree_of_below {e x : Element} (hx : x ∈ Node.subtrees e.children) :
    x ∈ e.subtree := by
  rw [subtree_eq]
  exact List.mem_cons_of_mem _ hx

end Element

namespace Node

theorem mem_subtrees {x : Element} {ns : List Node} :
    x ∈ subtrees ns ↔ ∃ e, .element e ∈ ns ∧ x ∈ e.subtree := by
  induction ns with
  | nil => simp [subtrees]
  | cons n ns ih =>
    cases n with
    | element e =>
      rw [subtrees, List.mem_append, ih]
      constructor
      · rintro (h | ⟨f, hf, hx⟩)
        · exact ⟨e, List.mem_cons_self .., h⟩
        · exact ⟨f, List.mem_cons_of_mem _ hf, hx⟩
      · rintro ⟨f, hf, hx⟩
        rcases List.mem_cons.1 hf with hfe | hf
        · obtain rfl := Node.element.inj hfe
          exact .inl hx
        · exact .inr ⟨f, hf, hx⟩
    | text s | attachment a | reference href => simp [subtrees, ih]

end Node

/-- A child element lies in the tree with everything below it. -/
theorem Element.subtree_subset {e child : Element} (h : child ∈ e.elements) :
    child.subtree ⊆ e.subtree := by
  obtain ⟨n, hn, hne⟩ := List.mem_filterMap.1 h
  cases n with
  | element e' =>
    cases hne
    exact fun x hx => mem_subtree_of_below (Node.mem_subtrees.2 ⟨child, hn, hx⟩)
  | text s | attachment a | reference href => cases hne

mutual

/-- The attachments of a tree are those that its elements hold. -/
theorem Element.mem_attachments {a : Attachment} : ∀ e : Element,
    a ∈ e.attachments ↔ ∃ x ∈ e.subtree, .attachment a ∈ x.children
  | ⟨ns, name, attributes, children⟩ => by
    rw [Element.attachments, Node.mem_attachmentsOf children, Element.subtree]
    simp

theorem Node.mem_attachmentsOf {a : Attachment} : ∀ ns : List Node,
    a ∈ Node.attachmentsOf ns ↔
      .attachment a ∈ ns ∨ ∃ x ∈ Node.subtrees ns, .attachment a ∈ x.children
  | [] => by simp [Node.attachmentsOf, Node.subtrees]
  | .element e :: rest => by
    rw [Node.attachmentsOf, Node.subtrees, List.mem_append, Element.mem_attachments e,
      Node.mem_attachmentsOf rest]
    simp only [List.mem_cons, reduceCtorEq, false_or, List.mem_append, or_and_right, exists_or]
    exact or_left_comm
  | .text s :: rest => by
    rw [Node.attachmentsOf, Node.subtrees, Node.mem_attachmentsOf rest]
    simp
  | .attachment b :: rest => by
    rw [Node.attachmentsOf, Node.subtrees, List.mem_cons, Node.mem_attachmentsOf rest]
    simp [or_assoc]
  | .reference href :: rest => by
    rw [Node.attachmentsOf, Node.subtrees, Node.mem_attachmentsOf rest]
    simp

end

/-! ## Valid names -/

theorem checkNames_eq_ok {name : String} {attributes : List Attribute} :
    checkNames name attributes = .ok () ↔
      isName name = true ∧ ∀ a ∈ attributes, isName a.name = true := by
  unfold checkNames
  split
  · next hname =>
    split
    · next a ha =>
      have hbad := List.find?_some ha
      constructor
      · intro h
        cases h
      · rintro ⟨-, h⟩
        rw [h a (List.mem_of_find?_eq_some ha)] at hbad
        cases hbad
    · next hnone =>
      rw [List.find?_eq_none] at hnone
      refine ⟨fun _ => ⟨hname, fun a ha => ?_⟩, fun _ => rfl⟩
      simpa using hnone a ha
  · next hname =>
    constructor
    · intro h
      cases h
    · rintro ⟨h, -⟩
      exact absurd h hname

mutual

theorem Element.validate_eq_ok : ∀ e : Element,
    e.validate = .ok () ↔ ∀ x ∈ e.subtree, checkNames x.name x.attributes = .ok ()
  | ⟨ns, name, attributes, children⟩ => by
    rw [Element.validate, Element.subtree, List.forall_mem_cons, ← Node.validateAll_eq_ok children]
    split
    · next h => simp [h]
    · next h => simp [h]

theorem Node.validateAll_eq_ok : ∀ ns : List Node,
    Node.validateAll ns = .ok () ↔
      ∀ x ∈ Node.subtrees ns, checkNames x.name x.attributes = .ok ()
  | [] => by simp [Node.validateAll, Node.subtrees]
  | .element e :: rest => by
    rw [Node.validateAll, Node.subtrees, List.forall_mem_append, ← Element.validate_eq_ok e,
      ← Node.validateAll_eq_ok rest]
    split
    · next h => simp [h]
    · next h => simp [h]
  | .text _ :: rest => by rw [Node.validateAll, Node.subtrees, Node.validateAll_eq_ok rest]
  | .attachment _ :: rest => by rw [Node.validateAll, Node.subtrees, Node.validateAll_eq_ok rest]
  | .reference _ :: rest => by rw [Node.validateAll, Node.subtrees, Node.validateAll_eq_ok rest]

end

/-! ## The normal form -/

theorem ownNamespace_ownNamespace (ns : Option String) (inherited : String) :
    ownNamespace (ownNamespace ns inherited) inherited = ownNamespace ns inherited := by
  cases ns with
  | none => rfl
  | some ns =>
    rw [ownNamespace]
    split
    · rfl
    · next h => rw [ownNamespace, if_neg h]

/-- A namespace that is left out is handed down all the same. -/
theorem handedDown_ownNamespace (ns : Option String) (inherited : String) :
    handedDown (ownNamespace ns inherited) inherited = handedDown ns inherited := by
  cases ns with
  | none => rfl
  | some ns =>
    rw [ownNamespace]
    split
    · next h =>
      rw [Bool.and_eq_true, Bool.not_eq_true', decide_eq_true_eq] at h
      rw [handedDown, handedDown, h.1, h.2]
      rfl
    · rfl

mutual

theorem Element.normalize_normalize (inherited : String) : ∀ e : Element,
    (e.normalize inherited).normalize inherited = e.normalize inherited
  | ⟨ns, name, attributes, children⟩ => by
    rw [Element.normalize, Element.normalize, ownNamespace_ownNamespace, handedDown_ownNamespace,
      Node.normalizeAll_normalizeAll]

theorem Node.normalizeAll_normalizeAll (inherited : String) : ∀ ns : List Node,
    Node.normalizeAll inherited (Node.normalizeAll inherited ns) = Node.normalizeAll inherited ns
  | [] => rfl
  | .element e :: rest => by
    rw [Node.normalizeAll, Node.normalizeAll, Element.normalize_normalize,
      Node.normalizeAll_normalizeAll inherited rest]
  | .text s :: rest => by
    rw [Node.normalizeAll]
    split
    · exact Node.normalizeAll_normalizeAll inherited rest
    · next h =>
      rw [Node.normalizeAll, if_neg h, Node.normalizeAll_normalizeAll inherited rest]
  | .attachment _ :: rest => by
    rw [Node.normalizeAll, Node.normalizeAll, Node.normalizeAll_normalizeAll inherited rest]
  | .reference _ :: rest => by
    rw [Node.normalizeAll, Node.normalizeAll, Node.normalizeAll_normalizeAll inherited rest]

end

/-- What is normal in a node where `inherited` is the default namespace. -/
def Node.Normal (inherited : String) : Node → Prop
  | .element e => e.normalize inherited = e
  | .text s => s ≠ ""
  | .attachment _ | .reference _ => True

/-- Nodes keep their number only if none of them is dropped. -/
private theorem length_normalizeAll_le (inherited : String) (ns : List Node) :
    (Node.normalizeAll inherited ns).length ≤ ns.length := by
  induction ns with
  | nil => exact Nat.le_refl _
  | cons n ns ih =>
    cases n with
    | text s =>
      rw [Node.normalizeAll]
      split
      · exact Nat.le_succ_of_le ih
      · exact Nat.succ_le_succ ih
    | element e | attachment a | reference href => exact Nat.succ_le_succ ih

/-- Nodes are normal when each of them is. -/
theorem Node.normalizeAll_eq_self {inherited : String} {ns : List Node} :
    normalizeAll inherited ns = ns ↔ ∀ n ∈ ns, n.Normal inherited := by
  induction ns with
  | nil => simp [normalizeAll]
  | cons n ns ih =>
    rw [List.forall_mem_cons, ← ih]
    cases n with
    | element e =>
      rw [normalizeAll, List.cons.injEq, Node.element.injEq]
      rfl
    | text s =>
      rw [normalizeAll, Normal, Ne, ← String.isEmpty_iff]
      split
      · next hs =>
        -- an empty text would be dropped, and one node would be missing
        have hle := length_normalizeAll_le inherited ns
        constructor
        · intro h
          rw [h] at hle
          exact absurd hle (Nat.not_succ_le_self _)
        · rintro ⟨hne, -⟩
          exact absurd hs hne
      · next hs => simp [hs]
    | attachment a | reference href =>
      rw [normalizeAll, List.cons.injEq]
      simp [Normal]

mutual

/-- Normalizing changes no name. -/
theorem Element.validate_normalize (inherited : String) : ∀ e : Element,
    (e.normalize inherited).validate = e.validate
  | ⟨ns, name, attributes, children⟩ => by
    rw [Element.normalize, Element.validate, Element.validate, Node.validateAll_normalizeAll]

theorem Node.validateAll_normalizeAll (inherited : String) : ∀ ns : List Node,
    Node.validateAll (Node.normalizeAll inherited ns) = Node.validateAll ns
  | [] => rfl
  | .element e :: rest => by
    rw [Node.normalizeAll, Node.validateAll, Node.validateAll, Element.validate_normalize,
      Node.validateAll_normalizeAll inherited rest]
  | .text s :: rest => by
    rw [Node.normalizeAll, Node.validateAll]
    split
    · exact Node.validateAll_normalizeAll inherited rest
    · rw [Node.validateAll, Node.validateAll_normalizeAll inherited rest]
  | .attachment _ :: rest => by
    rw [Node.normalizeAll, Node.validateAll, Node.validateAll,
      Node.validateAll_normalizeAll inherited rest]
  | .reference _ :: rest => by
    rw [Node.normalizeAll, Node.validateAll, Node.validateAll,
      Node.validateAll_normalizeAll inherited rest]

end

mutual

/-- Every element of a normal form is the normal form of an element of the tree. -/
theorem Element.exists_of_mem_normalize (inherited : String) : ∀ e : Element,
    ∀ y ∈ (e.normalize inherited).subtree, ∃ x ∈ e.subtree, ∃ outer, y = x.normalize outer
  | ⟨ns, name, attributes, children⟩ => by
    intro y hy
    rw [Element.subtree_eq, List.mem_cons] at hy
    rcases hy with rfl | hy
    · exact ⟨_, Element.mem_subtree_self _, _, rfl⟩
    · rw [Element.normalize] at hy
      obtain ⟨x, hx, outer, rfl⟩ := Node.exists_of_mem_normalizeAll _ children y hy
      exact ⟨x, Element.mem_subtree_of_below hx, outer, rfl⟩

theorem Node.exists_of_mem_normalizeAll (inherited : String) : ∀ ns : List Node,
    ∀ y ∈ Node.subtrees (Node.normalizeAll inherited ns),
      ∃ x ∈ Node.subtrees ns, ∃ outer, y = x.normalize outer
  | [] => fun _ hy => by cases hy
  | .element e :: rest => by
    intro y hy
    rw [Node.normalizeAll, Node.subtrees, List.mem_append] at hy
    rw [Node.subtrees]
    rcases hy with hy | hy
    · obtain ⟨x, hx, hnormal⟩ := Element.exists_of_mem_normalize inherited e y hy
      exact ⟨x, List.mem_append_left _ hx, hnormal⟩
    · obtain ⟨x, hx, hnormal⟩ := Node.exists_of_mem_normalizeAll inherited rest y hy
      exact ⟨x, List.mem_append_right _ hx, hnormal⟩
  | .text s :: rest => by
    intro y hy
    rw [Node.normalizeAll] at hy
    split at hy
    · exact Node.exists_of_mem_normalizeAll inherited rest y hy
    · exact Node.exists_of_mem_normalizeAll inherited rest y hy
  | .attachment _ :: rest => Node.exists_of_mem_normalizeAll inherited rest
  | .reference _ :: rest => Node.exists_of_mem_normalizeAll inherited rest

end

end SoapMtom.Xml
