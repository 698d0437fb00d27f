import SoapMtom.Proofs.Xml.Presentation

/-!
# Namespaces that are left out

An element of a tree leaves out its namespace where it is the default that its parent hands down.
Nothing is lost by that: from the tree alone each element gets the namespace back that its tag has in
the document, and the tree has no other namespaces to leave out. Main statements:

> `Builder.tags_of_run`: what the events of a run add to the tags of the tree are their own tags.
>
> `Document.canonical_of_read`: a document is read into a normal tree without empty texts, and the
> tags of that tree are those of the document.
-/

namespace SoapMtom.Xml

/-! ## Tags of a tree -/

mutual

/-- The tags of a tree, with every namespace in full. `inherited` is the default namespace at the
place of the element. -/
def Element.tags (inherited : String) : Element → List Event
  | ⟨ns, name, attributes, children⟩ =>
    .start (ns.getD inherited) name attributes ::
      (Node.tagsOf (handedDown ns inherited) children ++ [.stop])

/-- The tags of nodes; a text and a reference have none. -/
def Node.tagsOf (inherited : String) : List Node → List Event
  | [] => []
  | .element e :: rest => e.tags inherited ++ Node.tagsOf inherited rest
  | .text _ :: rest => Node.tagsOf inherited rest
  | .attachment _ :: rest => Node.tagsOf inherited rest
  | .reference _ :: rest => Node.tagsOf inherited rest

end

namespace Node

theorem tagsOf_append (inherited : String) (ms ns : List Node) :
    tagsOf inherited (ms ++ ns) = tagsOf inherited ms ++ tagsOf inherited ns := by
  induction ms with
  | nil => rfl
  | cons m ms ih =>
    cases m with
    | element e => rw [List.cons_append, tagsOf, tagsOf, ih, List.append_assoc]
    | text s | attachment a | reference href => exact ih

/-- There are no tags in indentation. -/
theorem tagsOf_dropIndentation (inherited : String) (ns : List Node) :
    tagsOf inherited (dropIndentation ns) = tagsOf inherited ns :=
  listed_dropIndentation (fun n ns => tagsOf_append inherited [n] ns) (fun _ => rfl) ns

end Node

/-! ## Tags of a document -/

namespace Event

/-- Whether an element of that name stays an element of the tree. One that stands for an attachment
does not, unless it is the root, and neither does any element inside of one. `shown` says it of the
elements around, innermost first. -/
def isShown (shown : List Bool) (ns name : String) : Bool :=
  match shown with
  | [] => true
  | outer :: _ => outer && !(name = "Include" && ns = xop)

/-- The tags of those elements that stay elements of the tree. -/
def tagsFrom (shown : List Bool) : List Event → List Event
  | [] => []
  | .start ns name attributes :: rest =>
    if isShown shown ns name then .start ns name attributes :: tagsFrom (true :: shown) rest
    else tagsFrom (false :: shown) rest
  | .stop :: rest =>
    match shown with
    | [] => tagsFrom [] rest
    | true :: outer => .stop :: tagsFrom outer rest
    | false :: outer => tagsFrom outer rest
  | .text _ :: rest => tagsFrom shown rest

/-- The tags of the elements of a document, without those that stand for attachments and what is
inside of them. -/
def tags (events : List Event) : List Event := tagsFrom [] events

end Event

/-! ## Tags of a tree in the making -/

namespace Frame

/-- Whether the element of the innermost frame will stay an element of the tree. -/
def isShown : List Frame → Bool
  | [] => true
  | [_] => true
  | f :: g :: outer => isShown (g :: outer) && !Builder.isInclude f.element

/-- The same for each of the frames. -/
def shown : List Frame → List Bool
  | [] => []
  | f :: outer => isShown (f :: outer) :: shown outer

/-- The tags in frames, in the order of the document. -/
def tags : List Frame → List Event
  | [] => []
  | f :: outer =>
    if isShown (f :: outer) then
      tags outer ++ .start (f.ns.getD (Builder.inherited { frames := outer })) f.name f.attributes ::
        Node.tagsOf f.inner f.children.reverse
    else tags outer

/-- One more child makes no difference to what a frame stands for. -/
theorem isShown_push (f : Frame) (outer : List Frame) (n : Node) :
    isShown (f.push n :: outer) = isShown (f :: outer) := by
  cases outer <;> rfl

/-- An element that stands for an attachment does not stay, unless it is the root. -/
theorem isShown_of_isInclude {f : Frame} (h : Builder.isInclude f.element = true) (g : Frame)
    (outer : List Frame) : isShown (f :: g :: outer) = false := by
  rw [isShown, h, Bool.not_true, Bool.and_false]

/-- Any other element stays with the one around it. -/
theorem isShown_of_not_isInclude {f : Frame} (h : Builder.isInclude f.element = false) (g : Frame)
    (outer : List Frame) : isShown (f :: g :: outer) = isShown (g :: outer) := by
  rw [isShown, h, Bool.not_false, Bool.and_true]

/-- A child adds its tags, if those of its parent are there. -/
theorem tags_push (f : Frame) (outer : List Frame) (n : Node) :
    tags (f.push n :: outer) =
      tags (f :: outer) ++
        if isShown (f :: outer) then Node.tagsOf f.inner [n] else [] := by
  rw [tags, tags, isShown_push]
  split
  · rw [push, List.reverse_cons, Node.tagsOf_append]
    simp
  · rw [List.append_nil]

/-- A frame for an element that stands for an attachment is known by its tag. -/
theorem isInclude_begin (ns name : String) (attributes : List Attribute) (inherited : String) :
    Builder.isInclude (begin ns name attributes inherited).element =
      (decide (name = "Include") && decide (ns = xop)) := by
  have hown : (begin ns name attributes inherited).ns = some xop ↔ ns = xop := by
    by_cases hns : ns = xop
    · subst hns
      have hprefixed : isPrefixed xop = true := by simp [isPrefixed]
      simp [begin, hprefixed]
    · unfold begin
      simp only [hns, iff_false]
      split <;> simp [hns]
  rw [Builder.isInclude, element]
  simp only [hown]
  rfl

/-- A start tag opens a frame that is shown if the tag is. -/
theorem isShown_begin (ns name : String) (attributes : List Attribute) (inherited : String)
    (outer : List Frame) :
    isShown (begin ns name attributes inherited :: outer) = Event.isShown (shown outer) ns name := by
  cases outer with
  | nil => rfl
  | cons f outer => rw [isShown, isInclude_begin, shown, Event.isShown]

/-- The full namespace of a frame is the one of its tag. -/
theorem getD_begin (ns name : String) (attributes : List Attribute) (inherited : String) :
    (begin ns name attributes inherited).ns.getD inherited = ns := by
  unfold begin
  dsimp only
  split
  · next h =>
    rw [Bool.and_eq_true, decide_eq_true_eq] at h
    exact h.2.symm
  · rfl

/-- The tags of a complete element are those of its frame. -/
theorem Sound.tags_element {P : Attribute → Prop} {inherited : String} {f : Frame}
    (h : f.Sound P inherited) :
    f.element.tags inherited =
      .start (f.ns.getD inherited) f.name f.attributes ::
        (Node.tagsOf f.inner f.children.reverse ++ [.stop]) := by
  rw [Frame.element, Element.tags, h.inner, Node.tagsOf_dropIndentation]

/-- The tags in frames, where the innermost element is shown. -/
theorem tags_of_shown {f : Frame} {outer : List Frame} (h : isShown (f :: outer) = true) :
    tags (f :: outer) =
      tags outer ++
        .start (f.ns.getD (Builder.inherited { frames := outer })) f.name f.attributes ::
          Node.tagsOf f.inner f.children.reverse :=
  if_pos h

/-- The tags in frames, where the innermost element is not shown. -/
theorem tags_of_hidden {f : Frame} {outer : List Frame} (h : isShown (f :: outer) = false) :
    tags (f :: outer) = tags outer :=
  if_neg (by simp [h])

end Frame

/-- The tags of the tree so far. -/
def Builder.tags (b : Builder) : List Event :=
  (b.root.map (Element.tags "")).getD [] ++ Frame.tags b.frames

/-- What an event adds to the tags of the tree is what it adds to the tags of the document. -/
theorem Builder.Moves.tags_eq {P : Attribute → Prop} {b b' : Builder} {event : Event}
    (h : b.Moves event b') (hb : b.Sound P) (rest : List Event) :
    b'.tags ++ Event.tagsFrom (Frame.shown b'.frames) rest =
      b.tags ++ Event.tagsFrom (Frame.shown b.frames) (event :: rest) := by
  have hframes := hb.frames
  cases h with
  | opened ns name attributes =>
    have hinherited : Builder.inherited { frames := b.frames } = b.inherited := rfl
    rw [Event.tagsFrom, Builder.tags, Builder.tags]
    dsimp only
    rw [Frame.shown, Frame.tags, Frame.isShown_begin, hinherited, Frame.getD_begin]
    split
    · next hshown => simp [hshown, Frame.begin, Node.tagsOf]
    · next hshown =>
      rw [Bool.not_eq_true] at hshown
      rw [hshown]
  | @added f outer heq s hs =>
    rw [Event.tagsFrom, Builder.tags, Builder.tags, heq]
    dsimp only
    rw [Frame.tags_push, Frame.shown, Frame.shown, Frame.isShown_push]
    simp [Node.tagsOf]
  | unopened heq =>
    rw [heq]
    rfl
  | passed => rfl
  | @rooted f heq hroot =>
    rw [heq] at hframes
    have hshown : Frame.isShown [f] = true := rfl
    have htags : f.element.tags "" = _ := hframes.1.tags_element
    rw [Builder.tags, Builder.tags, heq, hroot, Frame.tags_of_shown hshown]
    simp [htags, Builder.inherited, Frame.tags, Frame.shown, hshown, Event.tagsFrom]
  | @nested f g outer heq hinclude =>
    rw [heq] at hframes
    have htags : f.element.tags g.inner = _ := hframes.1.tags_element
    have hshown := Frame.isShown_of_not_isInclude hinclude g outer
    rw [Builder.tags, Builder.tags, heq]
    dsimp only
    rw [Frame.tags_push, Frame.shown, Frame.shown, Frame.isShown_push, hshown]
    cases hg : Frame.isShown (g :: outer) with
    | false =>
      rw [hg] at hshown
      rw [Frame.tags_of_hidden hshown]
      simp [Event.tagsFrom, Frame.shown, hg]
    | true =>
      rw [hg] at hshown
      rw [Frame.tags_of_shown hshown]
      simp [Event.tagsFrom, Frame.shown, hg, Node.tagsOf, htags, Builder.inherited]
  | @referred f g outer heq hinclude href hhref =>
    have hhidden := Frame.isShown_of_isInclude hinclude g outer
    rw [Builder.tags, Builder.tags, heq]
    dsimp only
    rw [Frame.tags_push, Frame.shown, Frame.shown, Frame.isShown_push, hhidden,
      Frame.tags_of_hidden hhidden]
    simp [Event.tagsFrom, Frame.shown, Node.tagsOf]

/-- What the events of a run add to the tags of the tree are their own tags. -/
theorem Builder.tags_of_run {P : Attribute → Prop} {events : List Event}
    (ha : ∀ event ∈ events, ∀ a ∈ event.attributes, P a) {b b' : Builder} (hb : b.Sound P)
    (h : events.foldlM step b = .ok b') :
    b'.tags = b.tags ++ Event.tagsFrom (Frame.shown b.frames) events := by
  induction events generalizing b with
  | nil =>
    obtain rfl := Except.ok.inj h
    rw [Event.tagsFrom, List.append_nil]
  | cons event events ih =>
    obtain ⟨hevent, hevents⟩ := List.forall_mem_cons.1 ha
    rw [List.foldlM_cons] at h
    obtain ⟨middle, hstep, h⟩ := bind_eq_ok.1 h
    have hmove := moves_of_step hstep
    rw [ih hevents (hmove.sound hevent hb) h, hmove.tags_eq hb]

/-! ## Documents -/

namespace Document

/-- A document is read into a normal tree without empty texts. From the tree alone its elements get
back the namespaces that their names stand for in the document. -/
theorem canonical_of_read {bs : Bytes} {doc : Document} (h : read bs = .ok doc) :
    doc.root.normalize "" = doc.root ∧
      (∀ x ∈ doc.root.subtree, .text "" ∉ x.children) ∧
      doc.root.tags "" = Event.tags (events bs) := by
  have hnormal := (settled h (P := fun _ => True) fun _ _ _ _ => trivial).normal
  obtain ⟨b, hb, hframes, hroot, -⟩ := exists_of_read h
  refine ⟨hnormal, fun x hx ht => Element.text_ne_empty hnormal hx ht rfl, ?_⟩
  have htags := Builder.tags_of_run (P := fun _ => True) (fun _ _ _ _ => trivial)
    Builder.sound_initial hb
  simpa [Builder.tags, hframes, hroot, Frame.tags, Frame.shown, Event.tags, events] using htags

/-- A default namespace that is handed down through an element with a prefix, taken back and
declared again, beside an element that stands for an attachment. -/
def layeredNamespaces : Bytes := Utf8.encode <|
  "<a xmlns=\"u\" xmlns:x=\"http://www.w3.org/2004/08/xop/include\"><x:w><b/><c xmlns=\"\">" ++
  "<d xmlns=\"u\"/></c></x:w><x:Include href=\"cid:1\"/></a>"

/-- The document as it is read: no namespace is left where it is the one handed down. -/
def layeredDocument : Document :=
  { root :=
      { ns := some "u", name := "a"
        children :=
          [.element
            { ns := some xop, name := "w"
              children :=
                [.element { name := "b" },
                  .element
                    { ns := some "", name := "c"
                      children := [.element { ns := some "u", name := "d" }] }] },
            .reference "cid:1"] }
    references := [{ href := "cid:1", path := "a" }] }

theorem canonical_of_read_layered :
    read layeredNamespaces = .ok layeredDocument ∧
      layeredDocument.root.normalize "" = layeredDocument.root ∧
        layeredDocument.root.tags "" =
          [.start "u" "a" [], .start xop "w" [], .start "u" "b" [], .stop, .start "" "c" [],
            .start "u" "d" [], .stop, .stop, .stop, .stop] := by
  have hread : read layeredNamespaces = .ok layeredDocument := by decide +kernel
  have htags : Event.tags (events layeredNamespaces) =
      [.start "u" "a" [], .start xop "w" [], .start "u" "b" [], .stop, .start "" "c" [],
        .start "u" "d" [], .stop, .stop, .stop, .stop] := by decide +kernel
  obtain ⟨hnormal, -, hcanonical⟩ := canonical_of_read hread
  exact ⟨hread, hnormal, hcanonical.trans htags⟩

end Document

end SoapMtom.Xml
