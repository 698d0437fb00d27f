import SoapMtom.Proofs.Xml.Namespaces
import SoapMtom.Proofs.Xml.Normal
import SoapMtom.Proofs.Xml.Scope

/-!
# References that are listed

The end of an element that stands for an attachment lists a reference and leaves a node in the tree.
Only one way leads such a node out of the tree again: the element around it stands for an attachment
itself. In a document without such nesting the list is that of the tree, and elements end in the
order in which they start. Main statement:

> `Document.references_of_apart`: the references that are listed are those of the document and those
> of the tree, and below the root no element is left that stands for an attachment.
-/

namespace SoapMtom.Xml

/-! ## Elements that stand for attachments, apart from each other -/

namespace Event

/-- Whether an element of that name stands for an attachment. -/
def isInclude (ns name : String) : Bool := name = "Include" && ns = xop

/-- Whether from here on no element that stands for an attachment lies inside of another one. The
root is none of them, whatever its name. `around` says of each open element, innermost first, whether
it has that name. -/
def apartFrom (around : List Bool) : List Event → Bool
  | [] => true
  | .start ns name _ :: rest =>
    !(isInclude ns name && around.dropLast.any id) && apartFrom (isInclude ns name :: around) rest
  | .stop :: rest => apartFrom around.tail rest
  | .text _ :: rest => apartFrom around rest

/-- Whether no element of a document that stands for an attachment lies inside of another one. -/
def apart (events : List Event) : Bool := apartFrom [] events

/-- The reference that an element stands for, if it stands for an attachment, is not the root and
has an address. `around` holds the names of the elements around it, innermost first. -/
def reference? (around : List String) (ns name : String) (attributes : List Attribute) :
    Option Reference :=
  if isInclude ns name && !around.isEmpty then
    (attributes.find? (·.name = "href")).map fun a =>
      { href := a.value, path := String.intercalate "/" around.reverse }
  else none

/-- The references of the elements that start from here on. -/
def referencesFrom (around : List String) : List Event → List Reference
  | [] => []
  | .start ns name attributes :: rest =>
    (reference? around ns name attributes).toList ++ referencesFrom (name :: around) rest
  | .stop :: rest => referencesFrom around.tail rest
  | .text _ :: rest => referencesFrom around rest

/-- The references of a document, in the order of their start tags. -/
def references (events : List Event) : List Reference := referencesFrom [] events

end Event

namespace Frame

/-- Which of the open elements have the name of one that stands for an attachment. -/
def around (frames : List Frame) : List Bool := frames.map fun f => Builder.isInclude f.element

/-- An element stays in the tree if none of the open ones but the root stands for an attachment. -/
theorem isShown_eq (frames : List Frame) : isShown frames = !(around frames).dropLast.any id := by
  induction frames with
  | nil => rfl
  | cons f outer ih =>
    cases outer with
    | nil => rfl
    | cons g outer =>
      rw [isShown, ih]
      simp [around, Bool.and_comm]

theorem around_begin (ns name : String) (attributes : List Attribute) (inherited : String)
    (outer : List Frame) :
    around (begin ns name attributes inherited :: outer) =
      Event.isInclude ns name :: around outer := by
  rw [around, List.map_cons, isInclude_begin]
  rfl

/-- The reference that the element of a frame stands for. -/
def reference? (f : Frame) (outer : List Frame) : Option Reference :=
  if Builder.isInclude f.element && !outer.isEmpty then
    (f.attributes.find? (·.name = "href")).map fun a =>
      { href := a.value, path := String.intercalate "/" (outer.reverse.map (·.name)) }
  else none

/-- The references of the open elements, outermost first. -/
def pending : List Frame → List Reference
  | [] => []
  | f :: outer => pending outer ++ (f.reference? outer).toList

/-- A frame stands for the reference of its tag. -/
theorem reference?_begin (ns name : String) (attributes : List Attribute) (inherited : String)
    (outer : List Frame) :
    (begin ns name attributes inherited).reference? outer =
      Event.reference? (outer.map (·.name)) ns name attributes := by
  rw [reference?, Event.reference?, isInclude_begin, List.isEmpty_map, List.map_reverse]
  rfl

theorem pending_push (f : Frame) (outer : List Frame) (n : Node) :
    pending (f.push n :: outer) = pending (f :: outer) := rfl

/-- The end tag of an element lists the reference that its frame stands for. -/
theorem pending_of_isInclude {f : Frame} (h : Builder.isInclude f.element = true) {href : String}
    (hhref : f.element.attribute? "href" = some href) (g : Frame) (outer : List Frame) :
    pending (f :: g :: outer) = pending (g :: outer) ++
      [{ href, path := String.intercalate "/" ((g :: outer).reverse.map (·.name)) }] := by
  obtain ⟨a, ha, rfl⟩ := Option.map_eq_some_iff.1 hhref
  have hfind : f.attributes.find? (·.name = "href") = some a := ha
  rw [pending, reference?, h, hfind]
  rfl

/-- Where an element stays in the tree, none of the open ones stands for a reference. -/
theorem pending_of_isShown : ∀ {frames : List Frame}, isShown frames = true → pending frames = []
  | [], _ => rfl
  | [f], _ => by
    rw [pending, reference?, List.isEmpty_nil, Bool.not_true, Bool.and_false]
    rfl
  | f :: g :: outer, h => by
    rw [isShown, Bool.and_eq_true, Bool.not_eq_true'] at h
    rw [pending, pending_of_isShown h.1, reference?, h.2]
    rfl

/-- If the frame stands for an attachment, it is not inside of another one that does. If it goes out
of the tree, there are no references in it. -/
structure Lone (f : Frame) (outer : List Frame) : Prop where
  include_shown : Builder.isInclude f.element = true → isShown outer = true
  hidden_empty : isShown (f :: outer) = false →
    Node.references (f.name :: outer.map (·.name)) f.children.reverse = []

/-- The same for each of the frames. -/
def Apart : List Frame → Prop
  | [] => True
  | f :: outer => f.Lone outer ∧ Apart outer

/-- A node may be added to any frame if it has no references, and to one that stays in any case. -/
theorem Lone.push {f : Frame} {outer : List Frame} (h : f.Lone outer) {n : Node}
    (hn : isShown (f :: outer) = false →
      Node.references (f.name :: outer.map (·.name)) [n] = []) : (f.push n).Lone outer := by
  refine ⟨h.include_shown, fun hhidden => ?_⟩
  rw [isShown_push] at hhidden
  rw [Frame.push, List.reverse_cons, Node.references_append, h.hidden_empty hhidden, hn hhidden]
  rfl

end Frame

/-! ## Nothing listed goes out of the tree -/

/-- What the builder has listed is in its tree, and it has come to no element that stands for an
attachment inside of another one, nor will it. -/
structure Builder.Listed (rest : List Event) (b : Builder) : Prop where
  apart : Event.apartFrom (Frame.around b.frames) rest = true
  frames : Frame.Apart b.frames
  listed : b.left = b.references.reverse

namespace Builder

/-- A start tag in such a place opens a frame in which there are no references yet. -/
theorem Listed.lone_begin {ns name : String} {attributes : List Attribute} {rest : List Event}
    {b : Builder} (h : b.Listed (.start ns name attributes :: rest)) :
    (Frame.begin ns name attributes b.inherited).Lone b.frames := by
  refine ⟨fun hinclude => ?_, fun _ => rfl⟩
  have hapart := h.apart
  rw [Frame.isInclude_begin] at hinclude
  rw [Event.apartFrom, Event.isInclude, hinclude, Bool.true_and, Bool.and_eq_true,
    ← Frame.isShown_eq] at hapart
  exact hapart.1

/-- An event keeps the frames as they should be. -/
theorem Moves.apart {event : Event} {rest : List Event} {b b' : Builder} (h : b.Moves event b')
    (hb : b.Listed (event :: rest)) :
    Event.apartFrom (Frame.around b'.frames) rest = true ∧ Frame.Apart b'.frames := by
  have hapart := hb.apart
  have hframes := hb.frames
  cases h with
  | opened ns name attributes =>
    rw [Event.apartFrom, Bool.and_eq_true] at hapart
    rw [Frame.around_begin]
    exact ⟨hapart.2, hb.lone_begin, hframes⟩
  | added heq hs =>
    rw [heq] at hapart hframes
    exact ⟨hapart, hframes.1.push fun _ => rfl, hframes.2⟩
  | unopened heq =>
    rw [heq] at hapart ⊢
    exact ⟨hapart, trivial⟩
  | passed => exact ⟨hapart, hframes⟩
  | rooted heq hroot =>
    rw [heq] at hapart
    exact ⟨hapart, trivial⟩
  | @nested f g outer heq hinclude =>
    rw [heq] at hapart hframes
    obtain ⟨hf, hg, houter⟩ := hframes
    refine ⟨hapart, hg.push fun hhidden => ?_, houter⟩
    -- the element is hidden with the one around it
    have hnone := hf.hidden_empty (by rw [Frame.isShown_of_not_isInclude hinclude, hhidden])
    rw [Node.references, Frame.references_element]
    simpa [Node.references] using hnone
  | @referred f g outer heq hinclude href hhref =>
    rw [heq] at hapart hframes
    obtain ⟨hf, hg, houter⟩ := hframes
    refine ⟨hapart, hg.push fun hhidden => ?_, houter⟩
    rw [hf.include_shown hinclude] at hhidden
    cases hhidden

/-- An event keeps what is listed in the tree: no reference is in an element that goes out of it. -/
theorem Moves.listed {event : Event} {rest : List Event} {b b' : Builder} (h : b.Moves event b')
    (hb : b.Listed (event :: rest)) : b'.Listed rest := by
  obtain ⟨hapart, hframes⟩ := h.apart hb
  refine ⟨hapart, hframes, ?_⟩
  have hlisted := hb.listed
  rcases h.left_cases with ⟨hleft, hreferences⟩ |
    ⟨f, outer, before, r, heq, hinclude, houter, hleft, hleft', hreferences⟩
  · rw [hleft, hreferences, hlisted]
  · have hf := hb.frames
    rw [heq] at hf
    obtain ⟨g, outer, rfl⟩ := List.exists_cons_of_ne_nil houter
    have hhidden := Frame.isShown_of_isInclude hinclude g outer
    rw [hf.1.hidden_empty hhidden, List.append_nil] at hleft
    rw [hleft', hreferences, List.reverse_cons, ← hlisted, hleft]

/-- What is listed, what the open elements stand for and what is still to come are the references of
the document, before and after an event. -/
theorem Moves.references_eq {event : Event} {rest : List Event} {b b' : Builder}
    (h : b.Moves event b') (hb : b.Listed (event :: rest)) :
    b'.references.reverse ++ Frame.pending b'.frames ++
        Event.referencesFrom (b'.frames.map (·.name)) rest =
      b.references.reverse ++ Frame.pending b.frames ++
        Event.referencesFrom (b.frames.map (·.name)) (event :: rest) := by
  cases h with
  | opened ns name attributes =>
    rw [Frame.pending, Frame.reference?_begin, Event.referencesFrom]
    simp [Frame.begin]
  | added heq hs =>
    rw [heq, Frame.pending_push, Event.referencesFrom]
    rfl
  | unopened heq =>
    rw [heq]
    rfl
  | passed => rfl
  | @rooted f heq hroot =>
    have hshown : Frame.isShown [f] = true := rfl
    rw [heq, Frame.pending_of_isShown hshown]
    rfl
  | @nested f g outer heq hinclude =>
    have hnone : f.reference? (g :: outer) = none := by
      rw [Frame.reference?, hinclude]
      rfl
    have hpending : Frame.pending (f :: g :: outer) = Frame.pending (g :: outer) := by
      rw [Frame.pending, hnone, Option.toList_none, List.append_nil]
    rw [heq, Frame.pending_push, hpending]
    rfl
  | @referred f g outer heq hinclude href hhref =>
    -- no open element comes before this one, so that it may be listed first
    have hf := hb.frames
    rw [heq] at hf
    have houter := Frame.pending_of_isShown (hf.1.include_shown hinclude)
    have hpending := Frame.pending_of_isInclude hinclude hhref g outer
    rw [heq, Frame.pending_push, hpending, houter, List.reverse_cons, List.nil_append,
      List.append_nil]
    rfl

end Builder

/-! ## Documents -/

mutual

/-- No default namespace is one that is written with a prefix. -/
theorem Element.isPrefixed_of_mem_placed {inherited : String}
    (h : isPrefixed inherited = false) : ∀ (e : Element),
    ∀ p ∈ e.placed inherited, isPrefixed p.1 = false
  | ⟨ns, name, attributes, children⟩ => by
    intro p hp
    rw [Element.placed, List.mem_cons] at hp
    rcases hp with rfl | hp
    · exact h
    · exact Node.isPrefixed_of_mem_placedAll (isPrefixed_handedDown ns h) children p hp

theorem Node.isPrefixed_of_mem_placedAll {inherited : String}
    (h : isPrefixed inherited = false) : ∀ (ns : List Node),
    ∀ p ∈ Node.placedAll inherited ns, isPrefixed p.1 = false
  | [] => fun _ hp => by cases hp
  | .element e :: rest => fun p hp => by
    rcases List.mem_append.1 hp with hp | hp
    · exact Element.isPrefixed_of_mem_placed h e p hp
    · exact Node.isPrefixed_of_mem_placedAll h rest p hp
  | .text _ :: rest => Node.isPrefixed_of_mem_placedAll h rest
  | .attachment _ :: rest => Node.isPrefixed_of_mem_placedAll h rest
  | .reference _ :: rest => Node.isPrefixed_of_mem_placedAll h rest

end

namespace Document

/-- Where no element that stands for an attachment lies inside of another one, the references that
are listed are those of the document, one for each such element, and those of the tree: each node
with its address and with the path to the element that holds it, in document order. None of those
elements is left below the root. -/
theorem references_of_apart {bs : Bytes} {doc : Document} (h : read bs = .ok doc)
    (hapart : Event.apart (events bs) = true) :
    doc.references = Event.references (events bs) ∧
      doc.references = doc.root.references [] ∧
      ∀ p ∈ Node.placedAll (handedDown doc.root.ns "") doc.root.children,
        ¬(p.2.name = "Include" ∧ p.2.ns.getD p.1 = xop) := by
  obtain ⟨b, ⟨hb, hall⟩, hframes, hroot, hreferences⟩ := exists_of_invariant_rest h
    (P := fun rest b => b.Listed rest ∧
      b.references.reverse ++ Frame.pending b.frames ++
        Event.referencesFrom (b.frames.map (·.name)) rest = Event.references (events bs))
    ⟨⟨hapart, trivial, rfl⟩, rfl⟩
    fun event rest b b' ⟨hb, hall⟩ hmove =>
      ⟨hmove.listed hb, (hmove.references_eq hb).trans hall⟩
  refine ⟨?_, ?_, ?_⟩
  · rw [hreferences, ← hall, hframes]
    simp [Frame.pending, Event.referencesFrom]
  · have hlisted := hb.listed
    rw [hreferences, ← hlisted]
    simp [Builder.left, hframes, hroot, Frame.references]
  · rintro ⟨inherited, x⟩ hp ⟨hname, hns⟩
    dsimp only at hname hns
    have hbelow := (settled h (P := fun _ => True) fun _ _ _ _ => trivial).below
    have hx : x ∈ Node.subtrees doc.root.children := by
      rw [← Node.map_snd_placedAll (handedDown doc.root.ns "")]
      exact List.mem_map_of_mem hp
    have hinherited : isPrefixed inherited = false :=
      Node.isPrefixed_of_mem_placedAll (isPrefixed_handedDown _ (by decide +kernel)) _ _ hp
    -- such an element has its namespace itself, since the default namespace is another one
    have hown : x.ns = some xop := by
      cases hx : x.ns with
      | some ns =>
        rw [hx] at hns
        exact congrArg some hns
      | none =>
        rw [hx] at hns
        obtain rfl : inherited = xop := hns
        simp [isPrefixed] at hinherited
    have hinclude := (hbelow x hx).2
    simp [Builder.isInclude, hname, hown] at hinclude

/-- Two references to one attachment and one to another, at several depths. One has an end tag, and
one holds an element. -/
def scatteredReferences : Bytes := Utf8.encode <|
  "<a xmlns:x=\"http://www.w3.org/2004/08/xop/include\"><x:Include href=\"1\"/>" ++
  "<b>t<x:Include href=\"2\"></x:Include><x:Include href=\"1\"><c/></x:Include></b></a>"

/-- The document as it is read. -/
def scatteredDocument : Document :=
  { root :=
      { name := "a"
        children :=
          [.reference "1",
            .element { name := "b", children := [.text "t", .reference "2", .reference "1"] }] }
    references :=
      [{ href := "1", path := "a" }, { href := "2", path := "a/b" },
        { href := "1", path := "a/b" }] }

theorem references_of_apart_scattered :
    read scatteredReferences = .ok scatteredDocument ∧
      Event.apart (events scatteredReferences) = true ∧
        scatteredDocument.references = Event.references (events scatteredReferences) ∧
          scatteredDocument.references = scatteredDocument.root.references [] := by
  have hread : read scatteredReferences = .ok scatteredDocument := by decide +kernel
  have hapart : Event.apart (events scatteredReferences) = true := by decide +kernel
  obtain ⟨hdocument, htree, -⟩ := references_of_apart hread hapart
  exact ⟨hread, hapart, hdocument, htree⟩

end Document

end SoapMtom.Xml
