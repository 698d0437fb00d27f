import SoapMtom.Proofs.Outcome
import SoapMtom.Proofs.Xml.Received
import SoapMtom.Proofs.Xml.Represented

/-!
# Trees in the making

A builder takes in one event after another. What a single event can do to it is listed once, in
`Builder.Moves`, and what every event keeps holds of the document in the end. Main statements:

> `Document.references_sublist`: every reference that is left in the tree is listed, in the order
> of the tree.
>
> `Document.settled`: the tree is normal, no element has indentation or holds an attachment, and
> none below the root stands for one.
-/

namespace SoapMtom.Xml

/-! ## What an event does -/

/-- What one event makes of a builder. -/
inductive Builder.Moves (b : Builder) : Event → Builder → Prop
  /-- A start tag opens a frame. -/
  | opened (ns name : String) (attributes : List Attribute) :
    Moves b (.start ns name attributes)
      { b with frames := Frame.begin ns name attributes b.inherited :: b.frames }
  /-- A text is added to the open element. -/
  | added {f : Frame} {outer : List Frame} (hframes : b.frames = f :: outer) {s : String}
    (hs : s ≠ "") : Moves b (.text s) { b with frames := f.push (.text s) :: outer }
  /-- An end tag ends nothing where no element is open. -/
  | unopened (hframes : b.frames = []) : Moves b .stop b
  /-- The empty text adds nothing, and no text does outside the root. -/
  | passed {s : String} (hs : s = "" ∨ b.frames = []) : Moves b (.text s) b
  /-- The outermost element is complete. -/
  | rooted {f : Frame} (hframes : b.frames = [f]) (hroot : b.root = none) :
    Moves b .stop { b with frames := [], root := some f.element }
  /-- An element is complete and becomes a child of the one around it. -/
  | nested {f g : Frame} {outer : List Frame} (hframes : b.frames = f :: g :: outer)
    (hinclude : isInclude f.element = false) :
    Moves b .stop { b with frames := g.push (.element f.element) :: outer }
  /-- An element that stands for an attachment is complete, and a reference takes its place. -/
  | referred {f g : Frame} {outer : List Frame} (hframes : b.frames = f :: g :: outer)
    (hinclude : isInclude f.element = true) {href : String}
    (hhref : f.element.attribute? "href" = some href) :
    Moves b .stop
      { b with
        frames := g.push (.reference href) :: outer
        references :=
          { href, path := String.intercalate "/" ((g :: outer).reverse.map (·.name)) } ::
            b.references }

theorem Builder.moves_of_step {b b' : Builder} {event : Event} (h : b.step event = .ok b') :
    b.Moves event b' := by
  cases event with
  | start ns name attributes =>
    cases h
    exact .opened ns name attributes
  | text s =>
    rw [step] at h
    split at h
    · next hs =>
      cases h
      exact .passed (.inl (String.isEmpty_iff.1 hs))
    · next hs =>
      split at h
      · next f outer hframes =>
        cases h
        exact .added hframes fun he => hs (String.isEmpty_iff.2 he)
      · next hframes =>
        split at h
        · cases h
          exact .passed (.inr hframes)
        · cases h
  | stop =>
    rw [step] at h
    split at h
    · next hframes =>
      cases h
      exact .unopened hframes
    · next f outer hframes =>
      unfold complete at h
      split at h
      · split at h
        · cases h
        · next hroot =>
          cases h
          exact .rooted hframes hroot
      · next g outer =>
        unfold nodeOf at h
        split at h
        · cases h
        · next n references hnode =>
          cases h
          split at hnode
          · next hinclude =>
            split at hnode
            · cases hnode
            · next href hhref =>
              cases hnode
              exact .referred hframes hinclude hhref
          · next hinclude =>
            cases hnode
            exact .nested hframes (Bool.eq_false_iff.2 hinclude)

/-- A document is what its builder holds once no element is open. -/
theorem Builder.of_finish {b : Builder} {doc : Document} (h : b.finish = .ok doc) :
    b.frames = [] ∧ b.root = some doc.root ∧ doc.references = b.references.reverse := by
  unfold finish at h
  split at h
  · cases h
  · next hframes =>
    split at h
    · cases h
    · next root hroot =>
      cases h
      exact ⟨hframes, hroot, rfl⟩

/-- A document is read by taking in all events of its bytes. -/
theorem Document.exists_of_read {bs : Bytes} {doc : Document} (h : read bs = .ok doc) :
    ∃ b : Builder,
      (Event.ofTokens (dropMark bs).length (Token.scan (dropMark bs))).events.foldlM
        Builder.step {} = .ok b ∧
      b.frames = [] ∧ b.root = some doc.root ∧ doc.references = b.references.reverse := by
  rw [read, ofEvents] at h
  obtain ⟨b, hb, h⟩ := bind_eq_ok.1 h
  refine ⟨b, hb, ?_⟩
  split at h
  · cases h
  · exact Builder.of_finish h

/-- What every event keeps, and may depend on the events still to come, holds of the builder whose
root is the document's. -/
theorem Document.exists_of_invariant_rest {P : List Event → Builder → Prop} {bs : Bytes}
    {doc : Document} (h : read bs = .ok doc)
    (hinitial : P (Event.ofTokens (dropMark bs).length (Token.scan (dropMark bs))).events {})
    (hmove : ∀ event rest b b', P (event :: rest) b → b.Moves event b' → P rest b') :
    ∃ b, P [] b ∧ b.frames = [] ∧ b.root = some doc.root ∧
      doc.references = b.references.reverse := by
  obtain ⟨b, hb, hrest⟩ := exists_of_read h
  refine ⟨b, foldlM_invariant_rest (fun event rest b b' hP hstep => ?_) hinitial hb, hrest⟩
  exact hmove event rest b b' hP (Builder.moves_of_step hstep)

/-- What every event of the bytes keeps holds of the builder whose root is the document's. -/
theorem Document.exists_of_invariant {P : Builder → Prop} {bs : Bytes} {doc : Document}
    (h : read bs = .ok doc) (hinitial : P {})
    (hmove : ∀ event ∈ (Event.ofTokens (dropMark bs).length (Token.scan (dropMark bs))).events,
      ∀ b b', P b → b.Moves event b' → P b') :
    ∃ b, P b ∧ b.frames = [] ∧ b.root = some doc.root ∧ doc.references = b.references.reverse := by
  obtain ⟨b, hb, hrest⟩ := exists_of_read h
  refine ⟨b, foldlM_invariant (fun event hevent b b' hP hstep => ?_) hinitial hb, hrest⟩
  exact hmove event hevent b b' hP (Builder.moves_of_step hstep)

/-! ## References are listed -/

/-- Dropping indentation drops texts only. -/
theorem exists_dropIndentation_eq_filter (ns : List Node) :
    ∃ p : Node → Bool, (∀ n, n.text? = none → p n = true) ∧ dropIndentation ns = ns.filter p := by
  unfold dropIndentation
  split
  · exact ⟨fun _ => true, fun _ _ => rfl, by simp⟩
  · refine ⟨_, fun n hn => ?_, rfl⟩
    cases n with
    | text s => cases hn
    | element e | attachment a | reference href => rfl

/-- Dropping indentation changes nothing that is listed node by node, if nothing is listed for a
text. -/
theorem listed_dropIndentation {α : Type} {list : List Node → List α}
    (hcons : ∀ n ns, list (n :: ns) = list [n] ++ list ns) (htext : ∀ s, list [.text s] = [])
    (ns : List Node) : list (dropIndentation ns) = list ns := by
  obtain ⟨p, hp, hfilter⟩ := exists_dropIndentation_eq_filter ns
  rw [hfilter]
  clear hfilter
  induction ns with
  | nil => rfl
  | cons n ns ih =>
    cases n with
    | text s =>
      rw [List.filter_cons, hcons _ ns, htext, List.nil_append]
      split
      · rw [hcons, htext, List.nil_append, ih]
      · exact ih
    | element e | attachment a | reference href =>
      rw [List.filter_cons_of_pos (hp _ rfl), hcons, ih, ← hcons]

namespace Node

theorem references_append (outer : List String) (ms ns : List Node) :
    references outer (ms ++ ns) = references outer ms ++ references outer ns := by
  induction ms with
  | nil => rfl
  | cons m ms ih =>
    cases m with
    | element e => rw [List.cons_append, references, references, ih, List.append_assoc]
    | text s | attachment a => exact ih
    | reference href => rw [List.cons_append, references, references, ih]; rfl

/-- There are no references in indentation. -/
theorem references_dropIndentation (outer : List String) (ns : List Node) :
    references outer (dropIndentation ns) = references outer ns :=
  listed_dropIndentation (fun n ns => references_append outer [n] ns) (fun _ => rfl) ns

end Node

/-- The references in frames, in the order of the document. -/
def Frame.references : List Frame → List Reference
  | [] => []
  | f :: outer =>
    references outer ++
      Node.references (f.name :: outer.map (·.name)) f.children.reverse

/-- The references that are left in the tree so far. -/
def Builder.left (b : Builder) : List Reference :=
  (b.root.map (·.references [])).getD [] ++ Frame.references b.frames

namespace Frame

/-- What is added to a frame comes last. -/
theorem references_push (f : Frame) (outer : List Frame) (n : Node) :
    references (f.push n :: outer) =
      references (f :: outer) ++ Node.references (f.name :: outer.map (·.name)) [n] := by
  rw [references, push, List.reverse_cons, Node.references_append, references, List.append_assoc]

theorem references_element (f : Frame) (outer : List String) :
    f.element.references outer = Node.references (f.name :: outer) f.children.reverse := by
  rw [element, Element.references, Node.references_dropIndentation]

end Frame

/-- Most events leave the references alone. Only the end of an element that stands for an attachment
lists one more, and this one takes the place of those inside of the element. -/
theorem Builder.Moves.left_cases {b b' : Builder} {event : Event} (h : b.Moves event b') :
    (b'.left = b.left ∧ b'.references = b.references) ∨
      ∃ f outer before r, b.frames = f :: outer ∧ isInclude f.element = true ∧ outer ≠ [] ∧
        b.left = before ++ Node.references (f.name :: outer.map (·.name)) f.children.reverse ∧
        b'.left = before ++ [r] ∧ b'.references = r :: b.references := by
  cases h with
  | opened ns name attributes =>
    exact .inl ⟨by simp [left, Frame.references, Frame.begin, Node.references], rfl⟩
  | added hframes hs =>
    refine .inl ⟨?_, rfl⟩
    rw [left, left, Frame.references_push, hframes]
    simp [Node.references]
  | unopened | passed => exact .inl ⟨rfl, rfl⟩
  | rooted hframes hroot =>
    refine .inl ⟨?_, rfl⟩
    rw [left, left, hframes, hroot]
    simp [Frame.references, Frame.references_element]
  | @nested f g outer hframes hinclude =>
    refine .inl ⟨?_, rfl⟩
    rw [left, left, Frame.references_push, hframes]
    simp [Node.references, Frame.references_element, Frame.references]
  | @referred f g outer hframes hinclude href hhref =>
    refine .inr ⟨f, g :: outer, (b.root.map (·.references [])).getD [] ++
      Frame.references (g :: outer), _, hframes, hinclude, by simp, ?_, ?_, rfl⟩
    · rw [left, hframes, Frame.references, List.append_assoc]
    · rw [left, Frame.references_push, ← List.append_assoc]
      simp [Node.references]

/-- An event leaves nothing in the tree that is not listed. -/
theorem Builder.Moves.left_sublist {b b' : Builder} {event : Event} (h : b.Moves event b')
    (hb : b.left.Sublist b.references.reverse) : b'.left.Sublist b'.references.reverse := by
  rcases h.left_cases with ⟨hleft, hlisted⟩ | ⟨f, outer, before, r, -, -, -, hleft, hleft', hlisted⟩
  · rw [hleft, hlisted]
    exact hb
  · -- the references inside are listed, but go out of the tree with the element
    rw [hleft] at hb
    rw [hleft', hlisted, List.reverse_cons]
    exact ((List.sublist_append_left _ _).trans hb).append (List.Sublist.refl _)

/-- Every reference that is left in the tree is listed, in the order of the tree. -/
theorem Document.references_sublist {bs : Bytes} {doc : Document} (h : read bs = .ok doc) :
    (doc.root.references []).Sublist doc.references := by
  obtain ⟨b, hb, hframes, hroot, hreferences⟩ := exists_of_invariant h
    (P := fun b => b.left.Sublist b.references.reverse) (List.Sublist.refl _)
    fun event _ b b' hb hmove => hmove.left_sublist hb
  rw [hreferences]
  simpa [Builder.left, hframes, hroot, Frame.references] using hb

/-! ## The tree is settled -/

theorem mem_of_mem_dropIndentation {n : Node} {ns : List Node} (h : n ∈ dropIndentation ns) :
    n ∈ ns := by
  obtain ⟨p, -, hfilter⟩ := exists_dropIndentation_eq_filter ns
  rw [hfilter] at h
  exact List.mem_of_mem_filter h

/-- Indentation is dropped once and for all. -/
theorem dropIndentation_dropIndentation (ns : List Node) :
    dropIndentation (dropIndentation ns) = dropIndentation ns := by
  by_cases hall : ns.all Node.isText = true
  · have hkept : dropIndentation ns = ns := if_pos hall
    rw [hkept, hkept]
  · have hfilter : dropIndentation ns = ns.filter _ := if_neg hall
    rw [hfilter, dropIndentation]
    split
    · rfl
    · rw [List.filter_filter]
      simp only [Bool.and_self]

/-- The attributes that an event brings. -/
def Event.attributes : Event → List Attribute
  | .start _ _ attributes => attributes
  | .stop | .text _ => []

/-- An element as frames complete it, with attributes that satisfy `P`. -/
structure Element.Settled (P : Attribute → Prop) (e : Element) : Prop where
  unindented : dropIndentation e.children = e.children
  detached : Node.Detached e.children
  attributes : ∀ a ∈ e.attributes, P a

/-- Everything below is settled, and stands for no attachment. -/
def Node.Settled (P : Attribute → Prop) (ns : List Node) : Prop :=
  ∀ x ∈ subtrees ns, x.Settled P ∧ Builder.isInclude x = false

/-- A frame whose children so far are normal and settled. -/
structure Frame.Sound (P : Attribute → Prop) (inherited : String) (f : Frame) : Prop where
  own : ownNamespace f.ns inherited = f.ns
  inner : handedDown f.ns inherited = f.inner
  normal : ∀ n ∈ f.children, n.Normal f.inner
  detached : Node.Detached f.children
  attributes : ∀ a ∈ f.attributes, P a
  below : Node.Settled P f.children

/-- Frames that are sound, each under the default namespace of the one around it. -/
def Frame.Stacked (P : Attribute → Prop) : List Frame → Prop
  | [] => True
  | f :: outer => f.Sound P (Builder.inherited { frames := outer }) ∧ Stacked P outer

/-- A root that is normal and settled. -/
structure Element.Rooted (P : Attribute → Prop) (e : Element) : Prop where
  normal : e.normalize "" = e
  settled : e.Settled P
  below : Node.Settled P e.children

theorem Element.Rooted.settled_of_mem {P : Attribute → Prop} {e x : Element} (h : e.Rooted P)
    (hx : x ∈ e.subtree) : x.Settled P := by
  rw [Element.subtree_eq, List.mem_cons] at hx
  rcases hx with rfl | hx
  · exact h.settled
  · exact (h.below x hx).1

/-- A builder with sound frames and a settled root. -/
structure Builder.Sound (P : Attribute → Prop) (b : Builder) : Prop where
  frames : Frame.Stacked P b.frames
  root : ∀ root, b.root = some root → root.Rooted P

section Settled

variable {P : Attribute → Prop} {inherited : String} {f : Frame}

theorem Frame.sound_begin {attributes : List Attribute} (ha : ∀ a ∈ attributes, P a)
    (ns name inherited : String) : (begin ns name attributes inherited).Sound P inherited := by
  have hns : ownNamespace (begin ns name attributes inherited).ns inherited =
      (begin ns name attributes inherited).ns ∧
      handedDown (begin ns name attributes inherited).ns inherited =
        (begin ns name attributes inherited).inner := by
    have hbegin : (begin ns name attributes inherited).ns = ownNamespace (some ns) inherited ∧
        (begin ns name attributes inherited).inner = handedDown (some ns) inherited := ⟨rfl, rfl⟩
    rw [hbegin.1, hbegin.2]
    exact ⟨ownNamespace_ownNamespace .., handedDown_ownNamespace ..⟩
  exact ⟨hns.1, hns.2, by simp [begin], by simp [begin, Node.Detached], ha,
    by simp [begin, Node.Settled, Node.subtrees]⟩

/-- A node that is normal and settled fits into a frame. -/
theorem Frame.Sound.push (h : f.Sound P inherited) {n : Node} (hn : n.Normal f.inner)
    (hd : n.attachment? = none) (hbelow : Node.Settled P [n]) :
    (f.push n).Sound P inherited := by
  refine ⟨h.own, h.inner, List.forall_mem_cons.2 ⟨hn, h.normal⟩,
    List.forall_mem_cons.2 ⟨hd, h.detached⟩, h.attributes, fun x hx => ?_⟩
  obtain ⟨e, he, hx⟩ := Node.mem_subtrees.1 hx
  rcases List.mem_cons.1 he with he | he
  · exact hbelow x (Node.mem_subtrees.2 ⟨e, List.mem_singleton.2 he, hx⟩)
  · exact h.below x (Node.mem_subtrees.2 ⟨e, he, hx⟩)

/-- A complete element is normal and settled, and so is everything in it. -/
theorem Frame.Sound.element (h : f.Sound P inherited) :
    f.element.normalize inherited = f.element ∧ f.element.Settled P ∧
      Node.Settled P f.element.children := by
  have hmem : ∀ n ∈ f.element.children, n ∈ f.children := fun n hn =>
    List.mem_reverse.1 (mem_of_mem_dropIndentation hn)
  refine ⟨?_, ⟨dropIndentation_dropIndentation _, fun n hn => h.detached n (hmem n hn),
    h.attributes⟩, fun x hx => ?_⟩
  · have hchildren : Node.normalizeAll f.inner (dropIndentation f.children.reverse) =
        dropIndentation f.children.reverse :=
      Node.normalizeAll_eq_self.2 fun n hn => h.normal n (hmem n hn)
    rw [Frame.element, Element.normalize, h.own, h.inner, hchildren]
  · obtain ⟨e, he, hx⟩ := Node.mem_subtrees.1 hx
    exact h.below x (Node.mem_subtrees.2 ⟨e, hmem _ he, hx⟩)

theorem Builder.sound_initial : Builder.Sound P {} := ⟨trivial, fun root hroot => by cases hroot⟩

/-- An event whose attributes satisfy `P` keeps a builder sound. -/
theorem Builder.Moves.sound {b b' : Builder} {event : Event} (h : b.Moves event b')
    (ha : ∀ a ∈ event.attributes, P a) (hb : b.Sound P) : b'.Sound P := by
  have hframes := hb.frames
  cases h with
  | opened ns name attributes => exact ⟨⟨Frame.sound_begin ha .., hb.frames⟩, hb.root⟩
  | added heq hs =>
    rw [heq] at hframes
    exact ⟨⟨hframes.1.push hs rfl (by simp [Node.Settled, Node.subtrees]), hframes.2⟩, hb.root⟩
  | unopened | passed => exact hb
  | rooted heq hroot =>
    rw [heq] at hframes
    obtain ⟨hnormal, hsettled, hbelow⟩ := hframes.1.element
    refine ⟨trivial, fun root hroot => ?_⟩
    cases hroot
    exact ⟨hnormal, hsettled, hbelow⟩
  | nested heq hinclude =>
    rw [heq] at hframes
    obtain ⟨hf, hg, houter⟩ := hframes
    obtain ⟨hnormal, hsettled, hbelow⟩ := hf.element
    refine ⟨⟨hg.push hnormal rfl fun x hx => ?_, houter⟩, hb.root⟩
    -- the new child is what its frame completes, or lies below that
    rw [Node.subtrees, Node.subtrees, List.append_nil, Element.subtree_eq] at hx
    rcases List.mem_cons.1 hx with rfl | hx
    · exact ⟨hsettled, hinclude⟩
    · exact hbelow x hx
  | referred heq hinclude hhref =>
    rw [heq] at hframes
    exact ⟨⟨hframes.2.1.push trivial rfl (by simp [Node.Settled, Node.subtrees]), hframes.2.2⟩,
      hb.root⟩

/-- The tree is normal, no element has indentation or holds an attachment, and none below the root
stands for one. -/
theorem Document.settled {bs : Bytes} {doc : Document} (h : read bs = .ok doc)
    (ha : ∀ event ∈ (Event.ofTokens (dropMark bs).length (Token.scan (dropMark bs))).events,
      ∀ a ∈ event.attributes, P a) : doc.root.Rooted P := by
  obtain ⟨b, hb, -, hroot, -⟩ := exists_of_invariant h (P := Builder.Sound P) Builder.sound_initial
    fun event hevent b b' hb hmove => hmove.sound (ha event hevent) hb
  exact hb.root _ hroot

end Settled

end SoapMtom.Xml
