import SoapMtom.Proofs.Xml.Building

/-!
# What the presentation of a document leaves alone

The events of a document hold no prefixes, declarations, comments or empty-element tags any more;
`Event.significant` takes away the indentation as well. The tree and its references depend on nothing
but what is left, so two documents that differ in presentation only are read as the same. Main
statements:

> `Document.ofEvents_significant`: the significant events alone describe the document.
>
> `Document.eq_of_significant_eq`: documents with the same significant events are the same.
-/

namespace SoapMtom.Xml

/-! ## Indentation among events -/

namespace Event

/-- How many elements are open after the events, the last of which stands in front. -/
def depth : List Event → Nat
  | [] => 0
  | .start .. :: before => depth before + 1
  | .stop :: before => depth before - 1
  | .text _ :: before => depth before

/-- Whether the last tag ends an element: then the element around the place has a child before it.
The last event stands in front. -/
def childBefore : List Event → Bool
  | [] => false
  | .start .. :: _ => false
  | .stop :: _ => true
  | .text _ :: before => childBefore before

/-- Whether the next tag starts an element: then the element around the place has a child after
it. -/
def childAfter : List Event → Bool
  | [] => false
  | .start .. :: _ => true
  | .stop :: _ => false
  | .text _ :: after => childAfter after

/-- Whether a text between these events is blank and stands outside the root, or directly inside an
element that has a child element. -/
def isIndentation (before : List Event) (s : String) (after : List Event) : Bool :=
  Text.isBlankText s && (depth before = 0 || childBefore before || childAfter after)

/-- Whether an event between others says something: every tag does, and every text that is neither
empty nor indentation. -/
def isSignificant (before : List Event) (event : Event) (after : List Event) : Bool :=
  match event with
  | .text s => !s.isEmpty && !isIndentation before s after
  | .start .. | .stop => true

/-- The significant events among those that follow `before`. -/
def significantFrom (before : List Event) : List Event → List Event
  | [] => []
  | event :: after =>
    if isSignificant before event after then event :: significantFrom (event :: before) after
    else significantFrom (event :: before) after

/-- The events without empty texts and without indentation. -/
def significant (events : List Event) : List Event := significantFrom [] events

end Event

/-- The events of the bytes of a document. -/
def Document.events (bs : Bytes) : List Event :=
  (Event.ofTokens (dropMark bs).length (Token.scan (dropMark bs))).events

/-! ## Two builders side by side -/

/-- Whether a node stays where indentation is dropped. -/
def Node.isKept : Node → Bool
  | .text s => !Text.isBlankText s
  | _ => true

theorem dropIndentation_of_not_all {ns : List Node} (h : ns.all Node.isText = false) :
    dropIndentation ns = ns.filter Node.isKept := by
  rw [dropIndentation, if_neg (by simp [h])]
  refine List.filter_congr fun n _ => ?_
  cases n <;> rfl

/-- What is no text is kept. -/
theorem Node.isKept_of_isText_eq_false {n : Node} (h : n.isText = false) : n.isKept = true := by
  cases n with
  | text s => cases h
  | element e | attachment a | reference href => rfl

/-- Two frames of the same element, whose children differ in blank texts at most. -/
structure Frame.Alike (f g : Frame) : Prop where
  ns : f.ns = g.ns
  name : f.name = g.name
  attributes : f.attributes = g.attributes
  inner : f.inner = g.inner
  kept : f.children.filter Node.isKept = g.children.filter Node.isKept

namespace Frame.Alike

variable {f g : Frame}

theorem push (h : Alike f g) (n : Node) : Alike (f.push n) (g.push n) := by
  refine ⟨h.ns, h.name, h.attributes, h.inner, ?_⟩
  rw [Frame.push, Frame.push, List.filter_cons, List.filter_cons, h.kept]

/-- A blank text on one side makes no difference. -/
theorem push_blank (h : Alike f g) {s : String} (hs : Text.isBlankText s = true) :
    Alike (f.push (.text s)) g := by
  have hdropped : (Node.text s).isKept = false := by
    rw [Node.isKept, hs]
    rfl
  refine ⟨h.ns, h.name, h.attributes, h.inner, ?_⟩
  rw [Frame.push, List.filter_cons, hdropped, ← h.kept]
  rfl

/-- If there is anything but text among the children, the complete elements are the same. -/
theorem element_of_child (h : Alike f g) (hf : f.children.all Node.isText = false) :
    f.element = g.element := by
  have hg : g.children.all Node.isText = false := by
    rw [List.all_eq_false] at hf ⊢
    obtain ⟨n, hn, htext⟩ := hf
    rw [Bool.not_eq_true] at htext
    -- the child is kept, so it is on the other side too
    have hmem : n ∈ g.children.filter Node.isKept := by
      rw [← h.kept]
      exact List.mem_filter.2 ⟨hn, Node.isKept_of_isText_eq_false htext⟩
    exact ⟨n, (List.mem_filter.1 hmem).1, by simp [htext]⟩
  have hchildren : dropIndentation f.children.reverse = dropIndentation g.children.reverse := by
    rw [dropIndentation_of_not_all (by rw [List.all_reverse]; exact hf),
      dropIndentation_of_not_all (by rw [List.all_reverse]; exact hg), List.filter_reverse,
      List.filter_reverse, h.kept]
  rw [Frame.element, Frame.element, hchildren, h.ns, h.name, h.attributes]

/-- If the children are the same, so are the complete elements. -/
theorem element_of_children (h : Alike f g) (hchildren : f.children = g.children) :
    f.element = g.element := by
  rw [Frame.element, Frame.element, hchildren, h.ns, h.name, h.attributes]

end Frame.Alike

/-- The innermost frame of a builder that takes in all events and that of one which takes in the
significant ones only. As long as the element has no child element its texts are at stake: if one
follows, the blank ones are missing on the right, otherwise none is. -/
structure Frame.Level (before after : List Event) (f g : Frame) : Prop where
  child : Event.childBefore before = true → f.children.all Node.isText = false
  leaf : Event.childBefore before = false → Event.childAfter after = false →
    f.children = g.children

/-- A builder that has taken in all events before a place, and one that has taken in only the
significant ones. -/
structure Builder.Follows (before after : List Event) (b c : Builder) : Prop where
  frames : List.Forall₂ Frame.Alike b.frames c.frames
  innermost : ∀ f outer g outer', b.frames = f :: outer → c.frames = g :: outer' →
    Frame.Level before after f g
  depth : Event.depth before = b.frames.length
  root : b.root = c.root
  references : b.references = c.references

namespace Builder.Follows

variable {before after : List Event} {b b' c : Builder}

theorem inherited_eq (h : Follows before after b c) : b.inherited = c.inherited := by
  have hframes := h.frames
  unfold Builder.inherited
  cases hb : b.frames with
  | nil =>
    rw [hb, List.forall₂_nil_left_iff] at hframes
    rw [hframes]
  | cons f outer =>
    rw [hb] at hframes
    obtain ⟨g, outer', halike, -, hc⟩ := List.forall₂_cons_left_iff.1 hframes
    rw [hc]
    exact halike.inner

/-- A start tag opens the same frame on both sides. -/
theorem start {ns name : String} {attributes : List Attribute}
    (h : Follows before (.start ns name attributes :: after) b c) :
    ∃ c', c.step (.start ns name attributes) = .ok c' ∧
      Follows (.start ns name attributes :: before) after
        { b with frames := Frame.begin ns name attributes b.inherited :: b.frames } c' := by
  refine ⟨_, rfl, ?_⟩
  rw [← h.inherited_eq]
  refine ⟨.cons ⟨rfl, rfl, rfl, rfl, rfl⟩ h.frames, ?_, ?_, h.root, h.references⟩
  · intro f outer g outer' hf hg
    obtain ⟨rfl, -⟩ := List.cons.inj hf
    obtain ⟨rfl, -⟩ := List.cons.inj hg
    exact ⟨fun hchild => absurd hchild (by simp [Event.childBefore]), fun _ _ => rfl⟩
  · rw [Event.depth, h.depth]
    rfl

/-- A significant text is added on both sides. -/
theorem text {s : String} {f : Frame} {outer : List Frame}
    (h : Follows before (.text s :: after) b c) (hs : s.isEmpty = false)
    (hb : b.frames = f :: outer) :
    ∃ c', c.step (.text s) = .ok c' ∧
      Follows (.text s :: before) after { b with frames := f.push (.text s) :: outer } c' := by
  have hframes := h.frames
  rw [hb] at hframes
  obtain ⟨g, outer', halike, houter, hc⟩ := List.forall₂_cons_left_iff.1 hframes
  obtain ⟨hchild, hleaf⟩ := h.innermost f outer g outer' hb hc
  refine ⟨{ c with frames := g.push (.text s) :: outer' }, ?_, ?_⟩
  · rw [Builder.step, hs, if_neg (by simp), hc]
  refine ⟨.cons (halike.push _) houter, ?_, ?_, h.root, h.references⟩
  · intro f' _ g' _ hf hg
    obtain ⟨rfl, -⟩ := List.cons.inj hf
    obtain ⟨rfl, -⟩ := List.cons.inj hg
    refine ⟨fun hbefore => ?_, fun hbefore hafter => ?_⟩
    · rw [Frame.push, List.all_cons, hchild hbefore, Bool.and_false]
    · rw [Frame.push, Frame.push, hleaf hbefore hafter]
  · rw [Event.depth, h.depth, hb]
    rfl

/-- Indentation inside an element is taken in on the left only. -/
theorem indentation {s : String} {f : Frame} {outer : List Frame}
    (h : Follows before (.text s :: after) b c)
    (hs : Event.isIndentation before s after = true) (hb : b.frames = f :: outer) :
    Follows (.text s :: before) after { b with frames := f.push (.text s) :: outer } c := by
  have hframes := h.frames
  rw [hb] at hframes
  obtain ⟨g, outer', halike, houter, hc⟩ := List.forall₂_cons_left_iff.1 hframes
  obtain ⟨hchild, hleaf⟩ := h.innermost f outer g outer' hb hc
  rw [Event.isIndentation, Bool.and_eq_true] at hs
  obtain ⟨hblank, hplace⟩ := hs
  refine ⟨?_, ?_, ?_, h.root, h.references⟩
  · rw [hc]
    exact .cons (halike.push_blank hblank) houter
  · intro f' _ g' _ hf hg
    obtain ⟨rfl, -⟩ := List.cons.inj hf
    refine ⟨fun hbefore => ?_, fun hbefore hafter => ?_⟩
    · rw [Frame.push, List.all_cons, hchild hbefore, Bool.and_false]
    · -- neither outside the root nor beside a child element
      have hbefore : Event.childBefore before = false := hbefore
      rw [hbefore, hafter, h.depth, hb] at hplace
      simp at hplace
  · rw [Event.depth, h.depth, hb]
    rfl

/-- A text that adds nothing is passed over on the left. -/
theorem pass {s : String} (h : Follows before (.text s :: after) b c) :
    Follows (.text s :: before) after b c := by
  refine ⟨h.frames, fun f outer g outer' hf hg => ?_, h.depth, h.root, h.references⟩
  obtain ⟨hchild, hleaf⟩ := h.innermost f outer g outer' hf hg
  exact ⟨hchild, hleaf⟩

end Builder.Follows

/-- A complete element becomes the same node among frames of the same names. -/
theorem Builder.nodeOf_congr {frames frames' : List Frame}
    (h : List.Forall₂ Frame.Alike frames frames') (references : List Reference) (e : Element) :
    nodeOf frames references e = nodeOf frames' references e := by
  have hnames : frames.map (·.name) = frames'.map (·.name) := by
    induction h with
    | nil => rfl
    | cons halike _ ih => rw [List.map_cons, List.map_cons, ih, halike.name]
  rw [nodeOf, nodeOf, List.map_reverse, List.map_reverse, hnames]

/-- What a complete element becomes is no text. -/
theorem Builder.isText_of_nodeOf {frames : List Frame} {references references' : List Reference}
    {e : Element} {n : Node} (h : nodeOf frames references e = .ok (n, references')) :
    n.isText = false := by
  unfold nodeOf at h
  split at h
  · split at h
    · cases h
    · cases h
      rfl
  · cases h
    rfl

namespace Builder.Follows

variable {before after : List Event} {b b' c : Builder}

/-- A complete element is put into the same place on both sides. -/
theorem complete {f g : Frame} {outer outer' : List Frame}
    (h : Follows before (.stop :: after) b c) (hf : b.frames = f :: outer)
    (hg : c.frames = g :: outer') {e : Element} (hb : b.complete outer e = .ok b') :
    ∃ c', c.complete outer' e = .ok c' ∧ Follows (.stop :: before) after b' c' := by
  have hframes := h.frames
  have hdepth := h.depth
  rw [hf, hg, List.forall₂_cons] at hframes
  rw [hf] at hdepth
  obtain ⟨-, houter⟩ := hframes
  unfold Builder.complete at hb ⊢
  cases houter with
  | nil =>
    rw [← h.root]
    dsimp only at hb ⊢
    split at hb
    · cases hb
    · next hroot =>
      cases hb
      refine ⟨_, rfl, .nil, ?_, ?_, rfl, h.references⟩
      · intro f outer g outer' hf
        cases hf
      · rw [Event.depth, hdepth]
        rfl
  | @cons f₂ g₂ outer₂ outer₂' halike houter =>
    rw [← h.references, ← nodeOf_congr (.cons halike houter)]
    dsimp only at hb ⊢
    split at hb
    · cases hb
    · next n references hnode =>
      cases hb
      refine ⟨_, rfl, .cons (halike.push n) houter, ?_, ?_, h.root, rfl⟩
      · intro f _ g _ hf hg
        obtain ⟨rfl, -⟩ := List.cons.inj hf
        obtain ⟨rfl, -⟩ := List.cons.inj hg
        refine ⟨fun _ => ?_, fun hbefore => absurd hbefore (by simp [Event.childBefore])⟩
        rw [Frame.push, List.all_cons, isText_of_nodeOf hnode, Bool.false_and]
      · rw [Event.depth, hdepth]
        rfl

/-- An end tag completes the same element on both sides. -/
theorem stop (h : Follows before (.stop :: after) b c) (hb : b.step .stop = .ok b') :
    ∃ c', c.step .stop = .ok c' ∧ Follows (.stop :: before) after b' c' := by
  have hframes := h.frames
  cases hf : b.frames with
  | nil =>
    rw [hf, List.forall₂_nil_left_iff] at hframes
    rw [Builder.step, hf] at hb
    obtain rfl := Except.ok.inj hb
    refine ⟨c, by rw [Builder.step, hframes], h.frames, ?_, ?_, h.root, h.references⟩
    · intro f outer g outer' hb
      rw [hf] at hb
      cases hb
    · rw [Event.depth, h.depth, hf]
      rfl
  | cons f outer =>
    rw [hf] at hframes
    obtain ⟨g, outer', halike, -, hg⟩ := List.forall₂_cons_left_iff.1 hframes
    obtain ⟨hchild, hleaf⟩ := h.innermost f outer g outer' hf hg
    -- beside a child element blank texts go, and without one they are there on both sides
    have helement : f.element = g.element := by
      by_cases hbefore : Event.childBefore before = true
      · exact halike.element_of_child (hchild hbefore)
      · exact halike.element_of_children (hleaf (by simpa using hbefore) rfl)
    rw [Builder.step, hf] at hb
    rw [Builder.step, hg]
    dsimp only
    rw [← helement]
    exact h.complete hf hg hb

/-- One event: the builder on the right takes it in if it is significant. -/
theorem step {event : Event} (h : Follows before (event :: after) b c)
    (hb : b.step event = .ok b') :
    ∃ c', (if Event.isSignificant before event after then [event] else []).foldlM Builder.step c =
        .ok c' ∧
      Follows (event :: before) after b' c' := by
  have hone : ∀ {c' : Builder}, c.step event = .ok c' →
      [event].foldlM Builder.step c = .ok c' := by
    intro c' hc
    rw [List.foldlM_cons, hc]
    rfl
  cases event with
  | start ns name attributes =>
    obtain rfl := Except.ok.inj hb
    obtain ⟨c', hc, hfollows⟩ := h.start
    exact ⟨c', hone hc, hfollows⟩
  | stop =>
    obtain ⟨c', hc, hfollows⟩ := h.stop hb
    exact ⟨c', hone hc, hfollows⟩
  | text s =>
    rw [Builder.step] at hb
    rw [Event.isSignificant]
    cases hs : s.isEmpty with
    | true =>
      rw [if_pos hs] at hb
      obtain rfl := Except.ok.inj hb
      exact ⟨c, rfl, h.pass⟩
    | false =>
      rw [hs, if_neg (by simp)] at hb
      cases hf : b.frames with
      | nil =>
        rw [hf] at hb
        dsimp only at hb
        split at hb
        · next hblank =>
          obtain rfl := Except.ok.inj hb
          have hdepth := h.depth
          rw [hf] at hdepth
          have houtside : Event.isIndentation before s after = true := by
            rw [Event.isIndentation, hblank, hdepth]
            rfl
          rw [houtside]
          exact ⟨c, rfl, h.pass⟩
        · cases hb
      | cons f outer =>
        rw [hf] at hb
        obtain rfl := Except.ok.inj hb
        cases hplace : Event.isIndentation before s after with
        | true => exact ⟨c, rfl, h.indentation hplace hf⟩
        | false =>
          obtain ⟨c', hc, hfollows⟩ := h.text hs hf
          exact ⟨c', hone hc, hfollows⟩

/-- All events: the builder on the right takes in those that are significant. -/
theorem run {events : List Event} (h : Follows before events b c)
    (hb : events.foldlM Builder.step b = .ok b') :
    ∃ c', (Event.significantFrom before events).foldlM Builder.step c = .ok c' ∧
      Follows (events.reverse ++ before) [] b' c' := by
  induction events generalizing before b c with
  | nil =>
    obtain rfl := Except.ok.inj hb
    exact ⟨c, rfl, h⟩
  | cons event after ih =>
    rw [List.foldlM_cons] at hb
    obtain ⟨middle, hstep, hb⟩ := bind_eq_ok.1 hb
    obtain ⟨middle', hstep', hmiddle⟩ := h.step hstep
    obtain ⟨c', hrun, hfollows⟩ := ih hmiddle hb
    refine ⟨c', ?_, ?_⟩
    · have hsplit : Event.significantFrom before (event :: after) =
          (if Event.isSignificant before event after then [event] else []) ++
            Event.significantFrom (event :: before) after := by
        rw [Event.significantFrom]
        split <;> rfl
      rw [hsplit, List.foldlM_append, hstep']
      exact hrun
    · rw [List.reverse_cons, List.append_assoc]
      exact hfollows

end Builder.Follows

/-! ## Documents -/

namespace Document

/-- The significant events of a document describe it. -/
theorem ofEvents_significant {bs : Bytes} {doc : Document} (h : read bs = .ok doc) :
    ofEvents { events := Event.significant (events bs), failure := none } = .ok doc := by
  obtain ⟨b, hb, hframes, hroot, hreferences⟩ := exists_of_read h
  have hinitial : Builder.Follows [] (events bs) {} {} :=
    ⟨.nil, fun _ _ _ _ hf => (nomatch hf), rfl, rfl, rfl⟩
  obtain ⟨c, hc, hfollows⟩ := hinitial.run hb
  have hc_frames := hfollows.frames
  rw [hframes, List.forall₂_nil_left_iff] at hc_frames
  refine bind_eq_ok.2 ⟨c, hc, ?_⟩
  show c.finish = .ok doc
  rw [Builder.finish, hc_frames, ← hfollows.root, hroot, ← hfollows.references, ← hreferences]

/-- Documents with the same significant events are the same: neither prefixes and the places of
their declarations nor empty-element tags, comments and indentation make a difference to the tree or
to its references. -/
theorem eq_of_significant_eq {bs bs' : Bytes} {doc doc' : Document} (h : read bs = .ok doc)
    (h' : read bs' = .ok doc')
    (hevents : Event.significant (events bs) = Event.significant (events bs')) : doc = doc' := by
  have hdoc := ofEvents_significant h
  rw [hevents, ofEvents_significant h'] at hdoc
  exact (Except.ok.inj hdoc).symm

/-- A list in which names have prefixes, with indentation and a comment. -/
def prefixedList : Bytes := Utf8.encode
  "<l:r xmlns:l=\"u\">\n  <l:i n=\"&amp;\"></l:i>\n  <!-- --><b xmlns=\"v\"> </b>\n</l:r>"

/-- The same list with a default namespace, on one line. -/
def shortList : Bytes := Utf8.encode "<r xmlns=\"u\"><i n='&#38;'/><x:b xmlns:x=\"v\"> </x:b></r>"

/-- The list as it is read. The blank in its last element is no indentation. -/
def listDocument : Document :=
  { root :=
      { ns := some "u", name := "r"
        children :=
          [.element { name := "i", attributes := [{ name := "n", value := "&" }] },
            .element { ns := some "v", name := "b", children := [.text " "] }] }
    references := [] }

theorem eq_of_significant_eq_list :
    read prefixedList = .ok listDocument ∧
      Event.significant (events shortList) = Event.significant (events prefixedList) ∧
        ∃ doc, read shortList = .ok doc ∧ doc = listDocument := by
  have hread : read prefixedList = .ok listDocument := by decide +kernel
  have hevents : Event.significant (events shortList) =
      Event.significant (events prefixedList) := by decide +kernel
  have haccepted : (read shortList).toOption.isSome = true := by decide +kernel
  cases hshort : read shortList with
  | error cause =>
    rw [hshort] at haccepted
    cases haccepted
  | ok doc => exact ⟨hread, hevents, doc, rfl, eq_of_significant_eq hshort hread hevents⟩

end Document

end SoapMtom.Xml
