import SoapMtom.Proofs.Xml.Represented
import SoapMtom.Xml.Entity

/-!
# Namespaces as they are written

A namespace is written with references for the characters that need them, and is read as it is
written. So a tree comes back with its namespaces escaped, in every other respect as it was; with
none of these characters in its namespaces nothing is different. Main statements:

> `ownNamespace_escape`, `handedDown_escape`: which namespaces repeat the one handed down does not
> depend on how they are spelled.
>
> `Element.escaped_of_isClean`.
-/

namespace SoapMtom.Xml

/-! ## Clean texts -/

/-- A text without the five characters that are written as references. -/
def IsClean (s : String) : Prop := ∀ c ∈ s.toList, c ∉ ['&', '<', '>', '\x27', '\x22']

instance : DecidablePred IsClean :=
  fun s => List.decidableBAll (· ∉ ['&', '<', '>', '\x27', '\x22']) s.toList

/-- A clean text is written as it is. -/
theorem escape_of_isClean {s : String} (h : IsClean s) : escape s = s := by
  have hall : ∀ cs : List Char, (∀ c ∈ cs, c ∉ ['&', '<', '>', '\x27', '\x22']) →
      cs.flatMap escapeChar = cs := by
    intro cs hcs
    induction cs with
    | nil => rfl
    | cons c cs ih =>
      have hc := hcs c (List.mem_cons_self ..)
      simp only [List.mem_cons, List.not_mem_nil, or_false, not_or] at hc
      rw [List.flatMap_cons, ih fun d hd => hcs d (List.mem_cons_of_mem _ hd), escapeChar,
        if_neg hc.2.1, if_neg hc.2.2.1, if_neg hc.1, if_neg hc.2.2.2.1, if_neg hc.2.2.2.2]
      rfl
  rw [escape, hall _ h, String.ofList_toList]

theorem escape_inj {s t : String} : escape s = escape t ↔ s = t := by
  refine ⟨fun h => ?_, congrArg escape⟩
  have hs := resolve_escape s
  rw [h, resolve_escape] at hs
  exact (Except.ok.inj hs).symm

theorem escape_eq_iff_of_isClean {s t : String} (ht : IsClean t) : escape s = t ↔ s = t := by
  rw [← escape_inj (s := s), escape_of_isClean ht]

/-- The namespaces that mean something to readers and writers. -/
theorem isClean_reserved :
    ∀ u ∈ ["", soap11, soap12, xop, xmime, xmlNamespace, xmlnsNamespace], IsClean u := by
  decide

theorem escape_eq_reserved {s u : String}
    (hu : u ∈ ["", soap11, soap12, xop, xmime, xmlNamespace, xmlnsNamespace]) :
    escape s = u ↔ s = u :=
  escape_eq_iff_of_isClean (isClean_reserved u hu)

/-! ## The default namespace -/

theorem isPrefixed_escape (ns : String) : isPrefixed (escape ns) = isPrefixed ns := by
  rw [isPrefixed, isPrefixed]
  simp only [escape_eq_reserved (u := soap11) (by simp), escape_eq_reserved (u := soap12) (by simp),
    escape_eq_reserved (u := xop) (by simp)]

theorem ownNamespace_escape (ns : Option String) (inherited : String) :
    ownNamespace (ns.map escape) (escape inherited) = (ownNamespace ns inherited).map escape := by
  cases ns with
  | none => rfl
  | some u =>
    rw [Option.map_some, ownNamespace, ownNamespace, isPrefixed_escape]
    simp only [escape_inj]
    split <;> rfl

theorem handedDown_escape (ns : Option String) (inherited : String) :
    handedDown (ns.map escape) (escape inherited) = escape (handedDown ns inherited) := by
  cases ns with
  | none => rfl
  | some u =>
    rw [Option.map_some, handedDown, handedDown, isPrefixed_escape]
    split <;> rfl

/-! ## Trees -/

/-- The attribute with its namespace as it is written. -/
def Attribute.escaped (a : Attribute) : Attribute := { a with ns := a.ns.map escape }

mutual

/-- The tree with every namespace as it is written. -/
def Element.escaped : Element → Element
  | ⟨ns, name, attributes, children⟩ =>
    { ns := ns.map escape
      name
      attributes := attributes.map Attribute.escaped
      children := Node.escapedAll children }

/-- The nodes with every namespace as it is written. -/
def Node.escapedAll : List Node → List Node
  | [] => []
  | .element e :: rest => .element e.escaped :: Node.escapedAll rest
  | .text s :: rest => .text s :: Node.escapedAll rest
  | .attachment a :: rest => .attachment a :: Node.escapedAll rest
  | .reference href :: rest => .reference href :: Node.escapedAll rest

end

/-- The namespaces that an element names, for itself and for its attributes. -/
def Element.namespaces (e : Element) : List String :=
  e.ns.toList ++ e.attributes.filterMap (·.ns)

theorem Element.escaped_eq (e : Element) :
    e.escaped =
      { ns := e.ns.map escape, name := e.name, attributes := e.attributes.map Attribute.escaped
        children := Node.escapedAll e.children } := by
  obtain ⟨ns, name, attributes, children⟩ := e
  rw [Element.escaped]

theorem Element.escaped_name (e : Element) : e.escaped.name = e.name := by rw [escaped_eq]

theorem Element.escaped_children (e : Element) :
    e.escaped.children = Node.escapedAll e.children := by rw [escaped_eq]

theorem Attribute.escaped_of_isClean {a : Attribute} (h : ∀ ns, a.ns = some ns → IsClean ns) :
    a.escaped = a := by
  obtain ⟨ns, name, value⟩ := a
  cases ns with
  | none => rfl
  | some u => rw [escaped, Option.map_some, escape_of_isClean (h u rfl)]

mutual

/-- With clean namespaces a tree is written as it is. -/
theorem Element.escaped_of_isClean : ∀ e : Element,
    (∀ x ∈ e.subtree, ∀ ns ∈ x.namespaces, IsClean ns) → e.escaped = e
  | ⟨ns, name, attributes, children⟩ => by
    intro h
    have hself := h _ (Element.mem_subtree_self _)
    have hns : ns.map escape = ns := by
      cases ns with
      | none => rfl
      | some u => exact congrArg some (escape_of_isClean (hself u (List.mem_append_left _ (by simp))))
    have hattributes : attributes.map Attribute.escaped = attributes := by
      refine (List.map_congr_left fun a ha => ?_).trans (List.map_id _)
      exact Attribute.escaped_of_isClean fun u hu =>
        hself u (List.mem_append_right _ (List.mem_filterMap.2 ⟨a, ha, hu⟩))
    rw [Element.escaped, hns, hattributes,
      Node.escapedAll_of_isClean children fun x hx => h x (Element.mem_subtree_of_below hx)]

theorem Node.escapedAll_of_isClean : ∀ ns : List Node,
    (∀ x ∈ Node.subtrees ns, ∀ u ∈ x.namespaces, IsClean u) → Node.escapedAll ns = ns
  | [] => fun _ => rfl
  | .element e :: rest => by
    intro h
    rw [Node.subtrees] at h
    rw [Node.escapedAll, Element.escaped_of_isClean e fun x hx => h x (List.mem_append_left _ hx),
      Node.escapedAll_of_isClean rest fun x hx => h x (List.mem_append_right _ hx)]
  | .text s :: rest => by
    intro h
    rw [Node.escapedAll, Node.escapedAll_of_isClean rest h]
  | .attachment a :: rest => by
    intro h
    rw [Node.escapedAll, Node.escapedAll_of_isClean rest h]
  | .reference href :: rest => by
    intro h
    rw [Node.escapedAll, Node.escapedAll_of_isClean rest h]

end

/-- What a tree is represented by names no other namespaces, apart from that of media types. -/
theorem Element.isClean_represented {e : Element} (form : AttachmentForm)
    (h : ∀ ns ∈ e.namespaces, IsClean ns) : ∀ ns ∈ (e.represented form).namespaces, IsClean ns := by
  intro ns hns
  rw [Element.represented_eq, namespaces, List.filterMap_append, ← List.append_assoc,
    List.mem_append] at hns
  rcases hns with hns | hns
  · exact h ns hns
  · obtain ⟨a, ha, hns⟩ := List.mem_filterMap.1 hns
    rw [(spec_of_mem_contentTypeNote ha).1] at hns
    obtain rfl := Option.some.inj hns
    exact isClean_reserved xmime (by simp)

end SoapMtom.Xml
