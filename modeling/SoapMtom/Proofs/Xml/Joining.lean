import SoapMtom.Proofs.Xml.Content

/-!
# Two texts as one

Whether two texts that touch are taken in one after the other or as one makes no difference to the
elements of a tree, their attributes and its references. It makes a difference to a text: beside a
child element a blank text is dropped, but blanks at the end of a longer text are kept. Main
statements:

> `Builder.Matches.step`: builders that differ in texts at most do so after an event, too.
>
> `Document.ofEvents_joined`: the element around two texts has another text once they are joined
> exactly if one of them is indentation and the other is not.
-/

namespace SoapMtom.Xml

/-! ## Trees without their texts -/

mutual

/-- The tree without its texts: what is left are elements with their attributes, and references. -/
def Element.withoutTexts : Element → Element
  | ⟨ns, name, attributes, children⟩ =>
    { ns, name, attributes, children := Node.withoutTextsEach children }

/-- The nodes that are no texts, without the texts below them. -/
def Node.withoutTextsEach : List Node → List Node
  | [] => []
  | .element e :: rest => .element e.withoutTexts :: Node.withoutTextsEach rest
  | .text _ :: rest => Node.withoutTextsEach rest
  | .attachment a :: rest => .attachment a :: Node.withoutTextsEach rest
  | .reference href :: rest => .reference href :: Node.withoutTextsEach rest

end

namespace Node

theorem withoutTextsEach_append (ms ns : List Node) :
    withoutTextsEach (ms ++ ns) = withoutTextsEach ms ++ withoutTextsEach ns := by
  induction ms with
  | nil => rfl
  | cons m ms ih =>
    cases m with
    | text s => exact ih
    | element e | attachment a | reference href => exact congrArg (_ :: ·) ih

/-- There is nothing but texts in indentation. -/
theorem withoutTextsEach_dropIndentation (ns : List Node) :
    withoutTextsEach (dropIndentation ns) = withoutTextsEach ns :=
  listed_dropIndentation (fun n ns => withoutTextsEach_append [n] ns) (fun _ => rfl) ns

end Node

theorem Element.withoutTexts_eq (e : Element) :
    e.withoutTexts = { e with children := Node.withoutTextsEach e.children } := by
  obtain ⟨ns, name, attributes, children⟩ := e
  rw [withoutTexts]

/-- Two frames of the same element, whose children differ in texts at most. -/
structure Frame.Matches (f g : Frame) : Prop where
  ns : f.ns = g.ns
  name : f.name = g.name
  attributes : f.attributes = g.attributes
  inner : f.inner = g.inner
  children : Node.withoutTextsEach f.children.reverse = Node.withoutTextsEach g.children.reverse

namespace Frame.Matches

variable {f g : Frame}

theorem refl (f : Frame) : Matches f f := ⟨rfl, rfl, rfl, rfl, rfl⟩

theorem symm (h : Matches f g) : Matches g f :=
  ⟨h.ns.symm, h.name.symm, h.attributes.symm, h.inner.symm, h.children.symm⟩

theorem trans {k : Frame} (h : Matches f g) (h' : Matches g k) : Matches f k :=
  ⟨h.ns.trans h'.ns, h.name.trans h'.name, h.attributes.trans h'.attributes,
    h.inner.trans h'.inner, h.children.trans h'.children⟩

theorem push (h : Matches f g) {m n : Node}
    (hmn : Node.withoutTextsEach [m] = Node.withoutTextsEach [n]) :
    Matches (f.push m) (g.push n) := by
  refine ⟨h.ns, h.name, h.attributes, h.inner, ?_⟩
  rw [Frame.push, Frame.push, List.reverse_cons, List.reverse_cons, Node.withoutTextsEach_append,
    Node.withoutTextsEach_append, h.children, hmn]

theorem element (h : Matches f g) : f.element.withoutTexts = g.element.withoutTexts := by
  rw [Element.withoutTexts_eq, Element.withoutTexts_eq, Frame.element, Frame.element,
    Node.withoutTextsEach_dropIndentation, Node.withoutTextsEach_dropIndentation, h.children, h.ns,
    h.name, h.attributes]

end Frame.Matches

/-- Two builders that differ in texts at most. -/
structure Builder.Matches (b c : Builder) : Prop where
  frames : List.Forall₂ Frame.Matches b.frames c.frames
  root : b.root.map Element.withoutTexts = c.root.map Element.withoutTexts
  references : b.references = c.references

/-- A complete element becomes the same node, apart from texts, and the same reference. -/
theorem Builder.nodeOf_matches {frames frames' : List Frame}
    (h : List.Forall₂ Frame.Matches frames frames') (references : List Reference) {e e' : Element}
    (he : e.withoutTexts = e'.withoutTexts) :
    SameOutcome
      (fun x y => Node.withoutTextsEach [x.1] = Node.withoutTextsEach [y.1] ∧ x.2 = y.2)
      (nodeOf frames references e) (nodeOf frames' references e') := by
  have hnames : frames.map (·.name) = frames'.map (·.name) := by
    induction h with
    | nil => rfl
    | cons hmatch _ ih => rw [List.map_cons, List.map_cons, ih, hmatch.name]
  have hnode : Node.withoutTextsEach [.element e] = Node.withoutTextsEach [.element e'] := by
    rw [Node.withoutTextsEach, he]
    rfl
  rw [Element.withoutTexts_eq, Element.withoutTexts_eq, Element.mk.injEq] at he
  obtain ⟨hns, hname, hattributes, -⟩ := he
  have hinclude : isInclude e = isInclude e' := by rw [isInclude, isInclude, hns, hname]
  have hhref : e.attribute? "href" = e'.attribute? "href" := by
    rw [Element.attribute?, Element.attribute?, hattributes]
  rw [nodeOf, nodeOf, hinclude, hhref, List.map_reverse, List.map_reverse, hnames]
  split
  · split
    · exact .error _
    · exact .ok ⟨rfl, rfl⟩
  · exact .ok ⟨hnode, rfl⟩

namespace Builder.Matches

variable {b c : Builder}

theorem inherited_eq (h : Matches b c) : b.inherited = c.inherited := by
  obtain ⟨frames, root, references⟩ := b
  obtain ⟨frames', root', references'⟩ := c
  cases h.frames with
  | nil => rfl
  | cons hmatch _ => exact hmatch.inner

/-- A complete element is put into the same place on both sides. -/
theorem complete (h : Matches b c) {outer outer' : List Frame}
    (houter : List.Forall₂ Frame.Matches outer outer') {e e' : Element}
    (he : e.withoutTexts = e'.withoutTexts) :
    SameOutcome Matches (b.complete outer e) (c.complete outer' e') := by
  obtain ⟨frames, root, references⟩ := b
  obtain ⟨frames', root', references'⟩ := c
  obtain ⟨-, hroot, rfl⟩ := h
  cases houter with
  | nil =>
    cases root with
    | none =>
      cases root' with
      | none => exact .ok ⟨.nil, congrArg some he, rfl⟩
      | some root' => cases hroot
    | some root =>
      cases root' with
      | none => cases hroot
      | some root' => exact .error _
  | @cons f g outer outer' hmatch houter =>
    have hnode := nodeOf_matches (.cons hmatch houter) references he
    unfold Builder.complete
    dsimp only
    generalize nodeOf (f :: outer) references e = x at hnode ⊢
    generalize nodeOf (g :: outer') references e' = y at hnode ⊢
    cases hnode with
    | error cause => exact .error cause
    | @ok m n hnode =>
      obtain ⟨hnode, hlisted⟩ := hnode
      exact .ok ⟨.cons (hmatch.push hnode) houter, hroot, hlisted⟩

/-- An event is taken in on both sides, or fails for the same cause on both. -/
theorem step (h : Matches b c) (event : Event) :
    SameOutcome Matches (b.step event) (c.step event) := by
  cases event with
  | start ns name attributes =>
    refine .ok ⟨.cons ?_ h.frames, h.root, h.references⟩
    rw [h.inherited_eq]
    exact .refl _
  | text s =>
    rw [Builder.step, Builder.step]
    split
    · exact .ok h
    · obtain ⟨frames, root, references⟩ := b
      obtain ⟨frames', root', references'⟩ := c
      obtain ⟨hframes, hroot, hreferences⟩ := h
      cases hframes with
      | nil =>
        dsimp only
        split
        · exact .ok ⟨.nil, hroot, hreferences⟩
        · exact .error _
      | cons hmatch houter => exact .ok ⟨.cons (hmatch.push rfl) houter, hroot, hreferences⟩
  | stop =>
    obtain ⟨frames, root, references⟩ := b
    obtain ⟨frames', root', references'⟩ := c
    have hframes := h.frames
    cases hframes with
    | nil => exact .ok h
    | cons hmatch houter => exact h.complete houter hmatch.element

/-- All events are taken in on both sides, or fail for the same cause on both. -/
theorem run (h : Matches b c) (events : List Event) :
    SameOutcome Matches (events.foldlM Builder.step b) (events.foldlM Builder.step c) := by
  induction events generalizing b c with
  | nil => exact .ok h
  | cons event events ih =>
    rw [List.foldlM_cons, List.foldlM_cons]
    exact (h.step event).bind fun _ _ hmatch => ih hmatch

/-- If one side is complete then so is the other. -/
theorem exists_finish (h : Matches b c) {doc : Document} (hdoc : b.finish = .ok doc) :
    ∃ doc', c.finish = .ok doc' ∧ doc'.root.withoutTexts = doc.root.withoutTexts ∧
      doc'.references = doc.references := by
  obtain ⟨frames, root, references⟩ := b
  obtain ⟨frames', root', references'⟩ := c
  obtain ⟨hframes, hroot, rfl⟩ := h
  cases hframes with
  | nil =>
    cases root with
    | none => cases hdoc
    | some root =>
      cases hdoc
      obtain ⟨root', rfl, hsame⟩ := Option.map_eq_some_iff.1 hroot.symm
      exact ⟨_, rfl, hsame, rfl⟩
  | cons _ _ => cases hdoc

end Builder.Matches

/-! ## The place of a builder -/

namespace Event

/-- Which of the open elements stay elements of the tree, innermost first. The last event stands in
front. -/
def shownAt : List Event → List Bool
  | [] => []
  | .start ns name _ :: before => isShown (shownAt before) ns name :: shownAt before
  | .stop :: before => (shownAt before).tail
  | .text _ :: before => shownAt before

end Event

/-- A builder that has taken in the events, the last of which stands in front. -/
structure Builder.At (before : List Event) (b : Builder) : Prop where
  depth : b.frames.length = Event.depth before
  shown : Frame.shown b.frames = Event.shownAt before
  child : ∀ f outer, b.frames = f :: outer →
    f.children.any (!·.isText) = Event.childBefore before

theorem Builder.at_initial : Builder.At [] {} := ⟨rfl, rfl, fun _ _ hf => nomatch hf⟩

namespace Builder.At

variable {before : List Event} {b b' : Builder}

/-- The place after one more event. -/
theorem next (h : At before b) {event : Event} (hmove : b.Moves event b') :
    At (event :: before) b' := by
  obtain ⟨hdepth, hshown, hchild⟩ := h
  cases hmove with
  | opened ns name attributes =>
    refine ⟨congrArg (· + 1) hdepth, ?_, ?_⟩
    · rw [Event.shownAt, ← hshown, ← Frame.isShown_begin, Frame.shown]
    · rintro f outer hf
      obtain ⟨rfl, -⟩ := List.cons.inj hf
      rfl
  | @added f outer hframes s hs =>
    rw [hframes] at hdepth hshown
    refine ⟨hdepth, ?_, ?_⟩
    · rw [Event.shownAt, ← hshown, Frame.shown, Frame.shown, Frame.isShown_push]
    · rintro g outer' hg
      obtain ⟨rfl, -⟩ := List.cons.inj hg
      exact hchild f outer hframes
  | unopened hframes =>
    rw [hframes] at hdepth hshown
    refine ⟨?_, ?_, ?_⟩
    · rw [Event.depth, ← hdepth, hframes]
      rfl
    · rw [Event.shownAt, ← hshown, hframes]
      rfl
    · intro f outer hf
      rw [hframes] at hf
      cases hf
  | passed => exact ⟨hdepth, hshown, hchild⟩
  | rooted hframes hroot =>
    rw [hframes] at hdepth hshown
    refine ⟨?_, ?_, ?_⟩
    · rw [Event.depth, ← hdepth]
      rfl
    · rw [Event.shownAt, ← hshown]
      rfl
    · intro f outer hf
      cases hf
  | nested hframes | referred hframes =>
    rw [hframes] at hdepth hshown
    refine ⟨?_, ?_, ?_⟩
    · rw [Event.depth, ← hdepth]
      rfl
    · rw [Event.shownAt, ← hshown, Frame.shown, Frame.shown, Frame.shown, Frame.isShown_push]
      rfl
    · rintro f outer hf
      obtain ⟨rfl, -⟩ := List.cons.inj hf
      rfl

/-- The place after a run. -/
theorem run (h : At before b) {events : List Event}
    (hrun : events.foldlM Builder.step b = .ok b') : At (events.reverse ++ before) b' := by
  induction events generalizing before b with
  | nil =>
    cases hrun
    exact h
  | cons event events ih =>
    rw [List.foldlM_cons] at hrun
    obtain ⟨middle, hstep, hrun⟩ := bind_eq_ok.1 hrun
    rw [List.reverse_cons, List.append_assoc]
    exact ih (h.next (moves_of_step hstep)) hrun

end Builder.At

/-! ## Texts that are joined -/

namespace Event

/-- What is left of a text in an element, which is a parent or not. -/
def keptText (isParent : Bool) (s : String) : String :=
  if isParent && Text.isBlankText s then "" else s

theorem Content.kept_eq (c : Content) :
    c.kept = String.join (c.pieces.map (keptText c.isParent)) := by
  unfold kept
  generalize c.pieces = pieces
  cases c.isParent with
  | false =>
    have hall : keptText false = id := funext fun s => rfl
    rw [hall, List.map_id]
    rfl
  | true =>
    rw [if_pos rfl]
    induction pieces with
    | nil => rfl
    | cons s pieces ih =>
      rw [List.filter_cons, List.map_cons, String.join_cons, ← ih, keptText]
      cases Text.isBlankText s <;> simp [String.join_cons]

/-- Two texts can be joined exactly if both are dropped or neither is, or one of them is empty. -/
theorem keptText_append_eq_iff (isParent : Bool) (s t : String) :
    keptText isParent s ++ keptText isParent t = keptText isParent (s ++ t) ↔
      ¬(s ≠ "" ∧ t ≠ "" ∧
        (isParent && Text.isBlankText s) ≠ (isParent && Text.isBlankText t)) := by
  have hleft : t = s ++ t ↔ s = "" := by
    rw [← String.toList_inj, String.toList_append, List.self_eq_append_left, String.toList_eq_nil_iff]
  have hright : s = s ++ t ↔ t = "" := by
    rw [← String.toList_inj, String.toList_append, List.self_eq_append_right, String.toList_eq_nil_iff]
  have hempty : Text.isBlankText "" = true := rfl
  unfold keptText
  rw [Text.isBlankText_append]
  cases isParent with
  | false => simp
  | true =>
    cases hs : Text.isBlankText s with
    | true =>
      cases ht : Text.isBlankText t with
      | true => simp
      | false =>
        have hne : t ≠ "" := by
          rintro rfl
          rw [hempty] at ht
          cases ht
        simp [hleft, hne]
    | false =>
      have hne : s ≠ "" := by
        rintro rfl
        rw [hempty] at hs
        cases hs
      cases ht : Text.isBlankText t with
      | true => simp [hright, hne]
      | false => simp

/-- Whether two texts between these events are torn apart: one of them is indentation, and so is
dropped, and the other is not, and both stand in an element that stays an element of the tree. The
last event before them stands in front. -/
def AreTorn (before : List Event) (s t : String) (after : List Event) : Prop :=
  s ≠ "" ∧ t ≠ "" ∧ isIndentation before s after ≠ isIndentation before t after ∧
    (shownAt before).head? = some true

/-- Inside the root a blank text is indentation beside a child element. -/
theorem isIndentation_of_inside {before : List Event} (h : 0 < depth before) (s : String)
    (after : List Event) :
    isIndentation before s after =
      ((childBefore before || childAfter after) && Text.isBlankText s) := by
  rw [isIndentation, decide_eq_false (Nat.ne_of_gt h), Bool.false_or, Bool.and_comm]

instance (before : List Event) (s t : String) (after : List Event) :
    Decidable (AreTorn before s t after) :=
  inferInstanceAs (Decidable (_ ∧ _ ∧ _ ∧ _))

end Event

namespace Frame

/-- Texts to come are pieces of their element, and make no parent of it. -/
theorem content_texts (f : Frame) (texts : List String) (rest : List Event) :
    f.content 0 (texts.map Event.text ++ rest) =
      { f.content 0 rest with
        pieces := f.children.reverse.filterMap Node.text? ++ (texts ++ Event.piecesFrom 0 rest) } := by
  induction texts with
  | nil => rfl
  | cons s texts ih =>
    rw [content, Event.Content.mk.injEq] at ih
    obtain ⟨-, -, hpieces, hparent⟩ := ih
    rw [List.map_cons, List.cons_append, content, Event.piecesFrom, Event.childAfter, hparent,
      List.append_cancel_left hpieces]
    rfl

/-- Whether two texts are taken in one after the other or as one makes a difference to the text of
their element exactly if it makes a difference to what is left of them. -/
theorem kept_content_joined (f : Frame) (s t : String) (rest : List Event) :
    (f.content 0 (.text s :: .text t :: rest)).kept = (f.content 0 (.text (s ++ t) :: rest)).kept ↔
      Event.keptText (f.content 0 rest).isParent s ++ Event.keptText (f.content 0 rest).isParent t =
        Event.keptText (f.content 0 rest).isParent (s ++ t) := by
  have hcancel : ∀ a b c d : String, a ++ (b ++ d) = a ++ (c ++ d) ↔ b = c := by
    intro a b c d
    rw [← String.toList_inj, ← String.toList_inj]
    simp
  have htwo := f.content_texts [s, t] rest
  have hone := f.content_texts [s ++ t] rest
  rw [List.map_cons, List.map_singleton, List.cons_append, List.singleton_append] at htwo
  rw [List.map_singleton, List.singleton_append] at hone
  rw [htwo, hone, Event.Content.kept_eq, Event.Content.kept_eq]
  simp only [List.map_append, List.map_cons, List.map_nil, String.join_append, String.join_cons,
    String.join_nil, String.append_empty]
  exact hcancel ..

/-- Around a text an element is a parent if there is a tag of a child before it or after it. -/
theorem isParent_content {before : List Event} {b : Builder} (hat : b.At before) {f : Frame}
    {outer : List Frame} (hframes : b.frames = f :: outer) (rest : List Event) :
    (f.content 0 rest).isParent = (Event.childBefore before || Event.childAfter rest) := by
  rw [← hat.child f outer hframes]
  exact congrArg (· || _) (Bool.or_false _)

end Frame

namespace Builder

/-- The elements of the tree after a run, with the texts that they have then. -/
theorem labels_of_run {events : List Event} {b b' : Builder}
    (h : events.foldlM step b = .ok b') (hframes : b'.frames = []) {root : Element}
    (hroot : b'.root = some root) :
    root.subtree.map Element.label =
      b.labels events ++
        (Event.contentsFrom (Frame.shown b.frames) events).map Event.Content.label := by
  have hrest := foldlM_invariant_rest
    (P := fun rest b' => b'.labels rest ++
        (Event.contentsFrom (Frame.shown b'.frames) rest).map Event.Content.label =
      b.labels events ++
        (Event.contentsFrom (Frame.shown b.frames) events).map Event.Content.label)
    (fun event rest b b' hb hstep => ((moves_of_step hstep).labels_eq rest).trans hb) rfl h
  rw [← hrest]
  simp [labels, hframes, hroot, Frame.labels, Event.contentsFrom]

/-- Texts that are taken in make a difference to the text of the innermost element only, and only if
that element stays one. -/
theorem exists_texts_of_run {b : Builder} {f : Frame} {outer : List Frame}
    (hframes : b.frames = f :: outer) (rest : List Event) :
    ∃ front back : List String, ∀ (texts : List String) {b' : Builder} {root : Element},
      (texts.map Event.text ++ rest).foldlM step b = .ok b' → b'.frames = [] → b'.root = some root →
        root.subtree.map Element.text =
          front ++ ((if Frame.isShown (f :: outer) then
            [(f.content 0 (texts.map Event.text ++ rest)).kept] else []) ++ back) := by
  -- around the innermost element and after it nothing depends on the texts
  have houter : ∀ texts : List String,
      Frame.labels 1 (texts.map Event.text ++ rest) outer = Frame.labels 1 rest outer := by
    intro texts
    induction texts with
    | nil => rfl
    | cons s texts ih => rw [List.map_cons, List.cons_append, Frame.labels_text, ih]
  have hcontents : ∀ (texts : List String) (shown : List Bool),
      Event.contentsFrom shown (texts.map Event.text ++ rest) = Event.contentsFrom shown rest := by
    intro texts shown
    induction texts with
    | nil => rfl
    | cons s texts ih => rw [List.map_cons, List.cons_append, Event.contentsFrom, ih]
  refine ⟨((b.root.map fun root => root.subtree.map Element.label).getD [] ++
      Frame.labels 1 rest outer).map Label.text,
    ((if Frame.isShown (f :: outer) then (Node.subtrees f.children.reverse).map Element.label
      else []) ++
        (Event.contentsFrom (Frame.shown b.frames) rest).map Event.Content.label).map Label.text,
    fun texts b' root hrun hdone hroot => ?_⟩
  have hlabels := congrArg (List.map Label.text) (labels_of_run hrun hdone hroot)
  rw [hcontents, labels, hframes, Frame.labels, houter, List.map_map] at hlabels
  refine hlabels.trans ?_
  rw [hframes]
  split
  · simp [Event.Content.label]
  · simp

theorem foldlM_cons_of_step {b b' : Builder} {event : Event} (h : b.step event = .ok b')
    (events : List Event) : (event :: events).foldlM step b = events.foldlM step b' := by
  rw [List.foldlM_cons, h]
  rfl

/-- A text inside the root can always be taken in. -/
theorem exists_step_text {b : Builder} {f : Frame} {outer : List Frame}
    (hframes : b.frames = f :: outer) (s : String) :
    ∃ g, b.step (.text s) = .ok { b with frames := g :: outer } ∧ g.Matches f := by
  rw [step]
  split
  · exact ⟨f, by rw [← hframes], .refl f⟩
  · rw [hframes]
    exact ⟨f.push (.text s), rfl, ⟨rfl, rfl, rfl, rfl, by
      rw [Frame.push, List.reverse_cons, Node.withoutTextsEach_append]
      simp [Node.withoutTextsEach]⟩⟩

/-- Inside the root two texts lead to the same frames as the joined one, apart from texts. -/
theorem exists_joined {b : Builder} {f : Frame} {outer : List Frame}
    (hframes : b.frames = f :: outer) (s t : String) :
    ∃ two one : Builder, Matches two one ∧ ∀ events : List Event,
      (.text s :: .text t :: events).foldlM step b = events.foldlM step two ∧
        (.text (s ++ t) :: events).foldlM step b = events.foldlM step one := by
  obtain ⟨g, hg, hgf⟩ := exists_step_text hframes s
  obtain ⟨k, hk, hkg⟩ := exists_step_text (b := { b with frames := g :: outer }) rfl t
  obtain ⟨j, hj, hjf⟩ := exists_step_text hframes (s ++ t)
  have houter : List.Forall₂ Frame.Matches outer outer := List.forall₂_same.2 fun f _ => .refl f
  refine ⟨{ b with frames := k :: outer }, { b with frames := j :: outer },
    ⟨.cons ((hkg.trans hgf).trans hjf.symm) houter, rfl, rfl⟩,
    fun events => ⟨?_, foldlM_cons_of_step hj events⟩⟩
  exact (foldlM_cons_of_step hg (.text t :: events)).trans (foldlM_cons_of_step hk events)

end Builder

namespace Document

/-- Two texts inside the root can be taken in as one. -/
theorem ofEvents_joined {before after : List Event} {s t : String} {doc : Document}
    (h : ofEvents
      { events := before.reverse ++ .text s :: .text t :: after, failure := none } = .ok doc)
    (hinside : 0 < Event.depth before) :
    ∃ doc', ofEvents { events := before.reverse ++ .text (s ++ t) :: after, failure := none } =
        .ok doc' ∧
      doc'.root.withoutTexts = doc.root.withoutTexts ∧ doc'.references = doc.references ∧
        (List.Forall₂ (fun x y => x.text = y.text) doc.root.subtree doc'.root.subtree ↔
          ¬Event.AreTorn before s t after) := by
  obtain ⟨last, hlast, hfinish⟩ := bind_eq_ok.1 h
  rw [List.foldlM_append] at hlast
  obtain ⟨b, hb, hrest⟩ := bind_eq_ok.1 hlast
  have hat := Builder.at_initial.run hb
  rw [List.reverse_reverse, List.append_nil] at hat
  obtain ⟨f, outer, hframes⟩ : ∃ f outer, b.frames = f :: outer := by
    refine List.exists_cons_of_ne_nil fun hnil => ?_
    rw [← hat.depth, hnil] at hinside
    exact absurd hinside (by simp)
  obtain ⟨two, one, hmatch, hboth⟩ := Builder.exists_joined hframes s t
  obtain ⟨htwo, hone⟩ := hboth after
  have hrun := hmatch.run after
  rw [← htwo, ← hone, hrest] at hrun
  generalize hrest' : (Event.text (s ++ t) :: after).foldlM Builder.step b = x at hrun
  cases hrun with
  | @ok _ last' hdone =>
    obtain ⟨doc', hfinish', hroot, hreferences⟩ := hdone.exists_finish hfinish
    refine ⟨doc', bind_eq_ok.2 ⟨last', ?_, hfinish'⟩, hroot, hreferences, ?_⟩
    · rw [List.foldlM_append, hb]
      exact hrest'
    · obtain ⟨front, back, htexts⟩ := Builder.exists_texts_of_run hframes after
      obtain ⟨hdone, hroot, -⟩ := Builder.of_finish hfinish
      obtain ⟨hdone', hroot', -⟩ := Builder.of_finish hfinish'
      have hold := htexts [s, t] hrest hdone hroot
      have hnew := htexts [s ++ t] hrest' hdone' hroot'
      have hsame : List.Forall₂ (fun x y => x.text = y.text) doc.root.subtree doc'.root.subtree ↔
          doc.root.subtree.map Element.text = doc'.root.subtree.map Element.text := by
        rw [← List.forall₂_eq_eq_eq, List.forall₂_map_left_iff, List.forall₂_map_right_iff]
      have hkept := f.kept_content_joined s t after
      rw [Event.keptText_append_eq_iff, Frame.isParent_content hat hframes] at hkept
      rw [hsame, hold, hnew, Event.AreTorn, ← hat.shown, hframes, Frame.shown,
        Event.isIndentation_of_inside hinside, Event.isIndentation_of_inside hinside,
        List.append_cancel_left_eq]
      cases Frame.isShown (f :: outer) with
      | false => simp
      | true =>
        rw [List.append_cancel_right_eq]
        simpa using hkept

end Document

end SoapMtom.Xml
