import Mathlib.Data.List.Chain
import SoapMtom.Proofs.Xml.Tree
import SoapMtom.Xml.Document

/-!
# Trees as they are received

A tree is not always read back as it was written: a namespace that repeats the one handed down is
left out, texts that touch become one, a text without characters and indentation go away.
`Element.received` is what remains. Main statement:

> `Element.received_of_tidy`: a normal tree whose texts are tidy is received as it is.
-/

namespace SoapMtom.Xml

namespace Node

/-! ## Joining texts -/

/-- Puts a node after those that were read before it, last one first: a text goes on with the text
before it, and an empty one is no node. -/
def join (before : List Node) : Node → List Node
  | .text s =>
    match before with
    | .text t :: earlier => .text (t ++ s) :: earlier
    | _ => if s = "" then before else .text s :: before
  | n => n :: before

/-- A text that has none to go on with is a node of its own, unless it is empty. -/
theorem join_text_of_head {before : List Node} (h : ∀ t, before.head? ≠ some (.text t))
    (s : String) : join before (.text s) = if s = "" then before else .text s :: before := by
  cases before with
  | nil => rfl
  | cons n before =>
    cases n with
    | text t => exact absurd rfl (h t)
    | element e | attachment a | reference href => rfl

/-- A text can be joined in two parts. -/
theorem join_join (before : List Node) (s t : String) :
    join (join before (.text s)) (.text t) = join before (.text (s ++ t)) := by
  by_cases h : ∃ u, before.head? = some (.text u)
  · obtain ⟨u, hu⟩ := h
    obtain ⟨earlier, rfl⟩ := List.head?_eq_some_iff.1 hu
    show Node.text (u ++ s ++ t) :: earlier = .text (u ++ (s ++ t)) :: earlier
    rw [String.append_assoc]
  · have hhead : ∀ u, before.head? ≠ some (.text u) := fun u hu => h ⟨u, hu⟩
    rw [join_text_of_head hhead, join_text_of_head hhead]
    by_cases hs : s = ""
    · rw [if_pos hs, hs, String.empty_append, join_text_of_head hhead]
    · have hst : s ++ t ≠ "" := by
        intro he
        have := congrArg String.toList he
        rw [String.toList_append] at this
        exact hs (String.toList_inj.1 (List.append_eq_nil_iff.1 this).1)
      rw [if_neg hs, if_neg hst]
      rfl

theorem join_empty (before : List Node) : join before (.text "") = before := by
  cases before with
  | nil => rfl
  | cons n before =>
    cases n with
    | text t =>
      show Node.text (t ++ "") :: before = .text t :: before
      rw [String.append_empty]
    | element e | attachment a | reference href => rfl

/-- The nodes with every run of texts as one text, and without texts that are empty. -/
def joinTexts (ns : List Node) : List Node := (ns.foldl join []).reverse

/-- No text is empty, and none follows another. -/
def Separated : List Node → Prop
  | [] => True
  | .text s :: rest => s ≠ "" ∧ (∀ t, rest.head? ≠ some (.text t)) ∧ Separated rest
  | _ :: rest => Separated rest

/-- Separated nodes are put after one another as they are, unless a text meets a text. -/
private theorem foldl_join {ns : List Node} (h : Separated ns) {before : List Node}
    (hbefore : ∀ s, ns.head? = some (.text s) → ∀ t, before.head? ≠ some (.text t)) :
    ns.foldl join before = ns.reverse ++ before := by
  induction ns generalizing before with
  | nil => rfl
  | cons n ns ih =>
    rw [List.foldl_cons, List.reverse_cons, List.append_assoc]
    cases n with
    | text s =>
      obtain ⟨hne, hhead, hns⟩ := h
      rw [join_text_of_head (hbefore s rfl), if_neg hne, ih hns fun t ht => absurd ht (hhead t)]
      rfl
    | element e | attachment a | reference href =>
      exact ih h fun _ _ _ => by simp [join]

theorem joinTexts_of_separated {ns : List Node} (h : Separated ns) : joinTexts ns = ns := by
  rw [joinTexts, foldl_join h (by simp)]
  simp

end Node

/-! ## The tree that is read -/

mutual

/-- The tree that is read where a tree without attachments was written. `inherited` is the default
namespace at the place of the element. -/
def Element.received (inherited : String) : Element → Element
  | ⟨ns, name, attributes, children⟩ =>
    { ns := ownNamespace ns inherited
      name
      attributes
      children :=
        dropIndentation (Node.joinTexts (Node.receivedEach (handedDown ns inherited) children)) }

/-- Each of the nodes as it is read. -/
def Node.receivedEach (inherited : String) : List Node → List Node
  | [] => []
  | .element e :: rest => .element (e.received inherited) :: Node.receivedEach inherited rest
  | .text s :: rest => .text s :: Node.receivedEach inherited rest
  | .attachment a :: rest => .attachment a :: Node.receivedEach inherited rest
  | .reference href :: rest => .reference href :: Node.receivedEach inherited rest

end

mutual

/-- The references in a tree, in document order. `outer` holds the names of the elements around the
tree, innermost first. -/
def Element.references (outer : List String) : Element → List Reference
  | ⟨_, name, _, children⟩ => Node.references (name :: outer) children

/-- The references in nodes and below them, in document order. -/
def Node.references (outer : List String) : List Node → List Reference
  | [] => []
  | .element e :: rest => e.references outer ++ Node.references outer rest
  | .text _ :: rest => Node.references outer rest
  | .attachment _ :: rest => Node.references outer rest
  | .reference href :: rest =>
    { href, path := String.intercalate "/" outer.reverse } :: Node.references outer rest

end

mutual

/-- The references in a tree are those that its elements hold. -/
theorem Element.exists_mem_references {href : String} : ∀ (outer : List String) (e : Element),
    (∃ r ∈ e.references outer, r.href = href) ↔ ∃ x ∈ e.subtree, .reference href ∈ x.children
  | outer, ⟨ns, name, attributes, children⟩ => by
    rw [Element.references, Node.exists_mem_references (name :: outer) children, Element.subtree]
    simp

theorem Node.exists_mem_references {href : String} : ∀ (outer : List String) (ns : List Node),
    (∃ r ∈ Node.references outer ns, r.href = href) ↔
      .reference href ∈ ns ∨ ∃ x ∈ Node.subtrees ns, .reference href ∈ x.children
  | outer, [] => by simp [Node.references, Node.subtrees]
  | outer, .element e :: rest => by
    rw [Node.references, Node.subtrees]
    simp only [List.mem_append, or_and_right, exists_or,
      Element.exists_mem_references outer e, Node.exists_mem_references outer rest,
      List.mem_cons, reduceCtorEq, false_or]
    exact or_left_comm
  | outer, .text s :: rest => by
    rw [Node.references, Node.subtrees, Node.exists_mem_references outer rest]
    simp
  | outer, .attachment a :: rest => by
    rw [Node.references, Node.subtrees, Node.exists_mem_references outer rest]
    simp
  | outer, .reference href' :: rest => by
    rw [Node.references, Node.subtrees, List.exists_mem_cons_iff,
      Node.exists_mem_references outer rest, List.mem_cons, Node.reference.injEq, or_assoc]
    exact or_congr_left eq_comm

end

/-- Where no element holds a reference, there are none. -/
theorem Element.references_eq_nil {e : Element} (outer : List String)
    (h : ∀ x ∈ e.subtree, ∀ n ∈ x.children, n.isReference = false) : e.references outer = [] := by
  rw [List.eq_nil_iff_forall_not_mem]
  intro r hr
  obtain ⟨x, hx, hn⟩ := (Element.exists_mem_references outer e).1 ⟨r, hr, rfl⟩
  exact absurd (h x hx _ hn) (by simp [Node.isReference])

/-! ## Trees that are received as they are -/

/-- The texts of an element are tidy: none follows another, and one without anything but blanks
stands alone. -/
structure Element.Tidy (e : Element) : Prop where
  apart : e.children.IsChain fun m n => ¬(m.isText = true ∧ n.isText = true)
  alone : ∀ n ∈ e.children, n.text?.any Text.isBlankText = true → e.children = [n]

instance (e : Element) : Decidable e.Tidy :=
  decidable_of_iff (_ ∧ _) ⟨fun h => ⟨h.1, h.2⟩, fun h => ⟨h.apart, h.alone⟩⟩

theorem Node.text?_eq_some {n : Node} {s : String} : n.text? = some s ↔ n = .text s := by
  cases n <;> simp [Node.text?]

/-- Where there is no text, texts are tidy. -/
theorem Element.tidy_of_no_text {e : Element} (h : ∀ n ∈ e.children, n.text? = none) : e.Tidy := by
  refine ⟨?_, fun n hn hblank => ?_⟩
  · refine List.Pairwise.isChain (List.pairwise_of_forall_mem_list fun m hm n _ htexts => ?_)
    rw [Node.isText, h m hm] at htexts
    exact absurd htexts.1 (by simp)
  · rw [h n hn] at hblank
    cases hblank

/-- Whether texts are tidy depends only on where they stand. -/
theorem Element.Tidy.congr {e e' : Element} (h : e.Tidy)
    (htexts : e'.children.map Node.text? = e.children.map Node.text?) : e'.Tidy := by
  have hchain : ∀ ns : List Node, (ns.IsChain fun m n => ¬(m.isText = true ∧ n.isText = true)) ↔
      (ns.map Node.text?).IsChain fun s t => ¬(s.isSome = true ∧ t.isSome = true) := by
    intro ns
    rw [List.isChain_map]
    rfl
  refine ⟨?_, fun n hn hblank => ?_⟩
  · rw [hchain, htexts, ← hchain]
    exact h.apart
  · obtain ⟨s, hs, -⟩ := (Option.any_eq_true ..).1 hblank
    -- the same text stands alone in the other element
    obtain ⟨m, hm, hms⟩ := List.mem_map.1 (htexts ▸ List.mem_map_of_mem (f := Node.text?) hn)
    rw [h.alone m hm (by rw [hms]; exact hblank), List.map_singleton, hms] at htexts
    obtain ⟨n', hn', hs'⟩ := List.map_eq_singleton_iff.1 htexts
    rw [hs, Node.text?_eq_some] at hs'
    rw [hn', hs', Node.text?_eq_some.1 hs]

/-- The texts of a normal tree are not empty. -/
theorem Node.text_ne_empty {inherited : String} {ns : List Node}
    (h : normalizeAll inherited ns = ns) {s : String} (hs : .text s ∈ ns) : s ≠ "" :=
  normalizeAll_eq_self.1 h _ hs

/-- No element of a normal tree holds an empty text. -/
theorem Element.text_ne_empty {e x : Element} {inherited : String}
    (h : e.normalize inherited = e) (hx : x ∈ e.subtree) {s : String} (hs : .text s ∈ x.children) :
    s ≠ "" := by
  rw [← h] at hx
  obtain ⟨⟨ns, name, attributes, children⟩, -, outer, rfl⟩ :=
    Element.exists_of_mem_normalize inherited e x hx
  rw [Element.normalize] at hs
  exact Node.text_ne_empty (Node.normalizeAll_normalizeAll (handedDown ns outer) children) hs

/-- What is left of normal nodes without the first is normal. -/
theorem Node.normalizeAll_of_cons {inherited : String} {n : Node} {ns : List Node}
    (h : normalizeAll inherited (n :: ns) = n :: ns) : normalizeAll inherited ns = ns :=
  normalizeAll_eq_self.2 (List.forall_mem_cons.1 (normalizeAll_eq_self.1 h)).2

theorem Node.separated_of {ns : List Node} (hne : ∀ s, .text s ∈ ns → s ≠ "")
    (apart : ns.IsChain fun m n => ¬(m.isText = true ∧ n.isText = true)) : Separated ns := by
  induction ns with
  | nil => trivial
  | cons n ns ih =>
    obtain ⟨hhead, htail⟩ := List.isChain_cons.1 apart
    have hrest := ih (fun s hs => hne s (List.mem_cons_of_mem _ hs)) htail
    cases n with
    | text s =>
      exact ⟨hne s (List.mem_cons_self ..), fun t ht => hhead _ ht ⟨rfl, rfl⟩, hrest⟩
    | element e | attachment a | reference href => exact hrest

/-- Where blank text stands alone, there is no indentation. -/
theorem dropIndentation_of_alone {ns : List Node}
    (alone : ∀ n ∈ ns, n.text?.any Text.isBlankText = true → ns = [n]) :
    dropIndentation ns = ns := by
  unfold dropIndentation
  split
  · rfl
  · next hall =>
    refine List.filter_eq_self.2 fun n hn => ?_
    split
    · next s =>
      rw [Bool.not_eq_true', Bool.eq_false_iff]
      intro hblank
      rw [alone _ hn hblank] at hall
      exact hall rfl
    · rfl

/-- The parts of a tree that is normal. -/
theorem Element.normalize_eq_self {inherited : String} {ns : Option String} {name : String}
    {attributes : List Attribute} {children : List Node}
    (h : (⟨ns, name, attributes, children⟩ : Element).normalize inherited =
      ⟨ns, name, attributes, children⟩) :
    ownNamespace ns inherited = ns ∧
      Node.normalizeAll (handedDown ns inherited) children = children := by
  rw [Element.normalize] at h
  exact ⟨congrArg Element.ns h, congrArg Element.children h⟩

mutual

/-- A normal tree with tidy texts is received as it is. -/
theorem Element.received_of_tidy (inherited : String) : ∀ e : Element,
    e.normalize inherited = e → (∀ x ∈ e.subtree, x.Tidy) → e.received inherited = e
  | ⟨ns, name, attributes, children⟩ => by
    intro hnormal htidy
    obtain ⟨hns, hchildren⟩ := Element.normalize_eq_self hnormal
    obtain ⟨apart, alone⟩ := htidy _ (Element.mem_subtree_self _)
    -- children as they are, then no texts to join, then no indentation to drop
    have heach := Node.receivedEach_of_tidy (handedDown ns inherited) children hchildren
      fun x hx => htidy x (Element.mem_subtree_of_below hx)
    have hseparated := Node.separated_of (fun s => Node.text_ne_empty hchildren) apart
    rw [Element.received, hns, heach, Node.joinTexts_of_separated hseparated,
      dropIndentation_of_alone alone]

theorem Node.receivedEach_of_tidy (inherited : String) : ∀ ns : List Node,
    Node.normalizeAll inherited ns = ns → (∀ x ∈ Node.subtrees ns, x.Tidy) →
      Node.receivedEach inherited ns = ns
  | [] => fun _ _ => rfl
  | .element e :: rest => by
    intro hnormal htidy
    rw [Node.subtrees] at htidy
    have he : e.normalize inherited = e := Node.element.inj (List.cons.inj hnormal).1
    rw [Node.receivedEach,
      Element.received_of_tidy inherited e he fun x hx => htidy x (List.mem_append_left _ hx),
      Node.receivedEach_of_tidy inherited rest (Node.normalizeAll_of_cons hnormal) fun x hx =>
        htidy x (List.mem_append_right _ hx)]
  | .text s :: rest => by
    intro hnormal htidy
    rw [Node.receivedEach,
      Node.receivedEach_of_tidy inherited rest (Node.normalizeAll_of_cons hnormal) htidy]
  | .attachment a :: rest => by
    intro hnormal htidy
    rw [Node.receivedEach,
      Node.receivedEach_of_tidy inherited rest (Node.normalizeAll_of_cons hnormal) htidy]
  | .reference href :: rest => by
    intro hnormal htidy
    rw [Node.receivedEach,
      Node.receivedEach_of_tidy inherited rest (Node.normalizeAll_of_cons hnormal) htidy]

end

end SoapMtom.Xml
