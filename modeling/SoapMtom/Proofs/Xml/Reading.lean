import SoapMtom.Proofs.Xml.Reader
import SoapMtom.Proofs.Xml.Represented

/-!
# Reading what was written

A tag leads from a reader that fits the scope around it to one that fits the scope inside it. From
this follows by induction on the tree what its whole markup leads to: the element as it is received,
put where the reader stands. Main statement:

> `Document.read_toDocument`: the document written for a tree is read as the tree as it is
> received, its namespaces escaped, with the references that it holds.
>
> `Document.read_toXml`: so is a tree that is written without a declaration.
-/

namespace SoapMtom.Xml

/-- The bindings and the default namespace of the reader are those of the writer. -/
structure Reader.Fits (r : Reader) (scope : Scope) : Prop where
  agrees : r.scopes.bindings.Agrees scope
  inherited : r.builder.inherited = escape scope.defaultNamespace

/-! ## One element -/

/-- What the tag of an element says where `inherited` is the default namespace. -/
def Element.startEvent (e : Element) (inherited : String) : Event :=
  .start (expandedNamespace e.ns (handedDown e.ns inherited)) e.name e.attributes

theorem Element.startEvent_escaped (e : Element) (inherited : String) :
    e.escaped.startEvent (escape inherited) =
      .start (escape (expandedNamespace e.ns (handedDown e.ns inherited))) e.name
        (e.attributes.map Attribute.escaped) := by
  rw [startEvent, Element.escaped_eq, handedDown_escape, expandedNamespace_escape]

/-- The frame of an element without its children. -/
def Element.frame (e : Element) (inherited : String) : Frame :=
  { ns := ownNamespace e.ns inherited, name := e.name, attributes := e.attributes
    inner := handedDown e.ns inherited, children := [] }

/-- A tag opens a frame with the namespaces of the tree. -/
theorem step_startEvent {b : Builder} (e : Element) {inherited : String}
    (hb : b.inherited = inherited) (h : isPrefixed inherited = false) :
    b.step (e.startEvent inherited) =
      .ok { b with frames := e.frame inherited :: b.frames } := by
  have hframe : Frame.begin (expandedNamespace e.ns (handedDown e.ns inherited)) e.name
      e.attributes inherited = e.frame inherited := by
    unfold expandedNamespace Element.frame handedDown ownNamespace
    cases e.ns with
    | none => simp [Frame.begin, h]
    | some u =>
      by_cases hu : isPrefixed u = true
      · simp [Frame.begin, Option.filter_some, hu]
      · simp [Frame.begin, Option.filter_some, hu]
  rw [Element.startEvent, Builder.step, hb, hframe]

theorem endTagName_of_isKey {name : String} (h : IsKey name) :
    endTagName (Utf8.encode name) = Utf8.encode name := by
  have hne : Utf8.encode name ≠ [] := fun he => h.1 (Utf8.encode_eq_nil.1 he)
  have hlast : (Utf8.encode name).reverse.dropWhile isSpace = (Utf8.encode name).reverse := by
    cases hrev : (Utf8.encode name).reverse with
    | nil => rfl
    | cons b bs =>
      have hb : b ∈ Utf8.encode name := by
        rw [← List.mem_reverse, hrev]
        exact List.mem_cons_self ..
      rw [List.dropWhile_cons_of_neg (by simp [(ne_of_mem_key h hb).1])]
  rw [endTagName, hlast, List.reverse_reverse]
  split
  · rfl
  · rfl

/-- Where an element is put does not depend on the elements that were open inside. -/
theorem complete_frames (b : Builder) (inside frames : List Frame) (e : Element) :
    ({ b with frames := inside } : Builder).complete frames e = b.complete frames e := by
  cases frames <;> rfl

private theorem foldlM_stop (b : Builder) :
    [Event.stop].foldlM Builder.step b = b.step .stop := by
  rw [List.foldlM_cons]
  exact bind_pure _

namespace Reader

variable {r : Reader} {scope : Scope} {generated : Nat} {e : Element}

/-- A start tag opens a frame for its element. -/
theorem take_start (hr : r.Fits scope) (hs : scope.Sound generated) (form : AttachmentForm)
    (he : e.Writable) (hd : Node.Detached e.children) :
    let tag := openTag form scope generated e.ns e.name e.attributes e.children
    ∃ inside : Bindings, inside.Agrees tag.scope ∧
      r.take (Markup.start tag.name tag.attributes).token =
        .ok { scopes := { bindings := inside
                          opened := ⟨Utf8.encode tag.name, r.scopes.bindings⟩ :: r.scopes.opened }
              builder := { r.builder with
                frames :=
                  e.escaped.frame (escape scope.defaultNamespace) :: r.builder.frames } } := by
  intro tag
  obtain ⟨⟨hkey, -⟩, -, inside, henter, hagrees, hstart⟩ :=
    exists_readStart hs hr.agrees form he (contentTypeToNote_of_detached form _ hd)
  rw [← Element.startEvent_escaped] at hstart
  have hunprefixed := (isPrefixed_escape _).trans hs.unprefixed
  refine ⟨inside, hagrees,
    take_eq_ok.2 ⟨[e.escaped.startEvent (escape scope.defaultNamespace)], ?_, ?_⟩⟩
  · refine bind_eq_ok.2 ⟨inside, mapError_eq_ok.2 henter, bind_eq_ok.2 ⟨_, hstart, ?_⟩⟩
    rw [tagName_tagBytes hkey]
    rfl
  · rw [List.foldlM_cons, step_startEvent e.escaped hr.inherited hunprefixed]
    rfl

/-- An end tag completes the element that is open. -/
theorem take_stop {name : String} (hname : IsKey name) {outside : Bindings}
    {opened : List OpenTag} (hopened : r.scopes.opened = ⟨Utf8.encode name, outside⟩ :: opened)
    {f : Frame} {outer : List Frame} (hframes : r.builder.frames = f :: outer) :
    r.take (Markup.stop name).token =
      (r.builder.complete outer f.element).map fun b =>
        { scopes := { bindings := outside, opened }, builder := b } := by
  have htoken : Event.ofToken 0 r.scopes (Markup.stop name).token [] =
      .ok ([.stop], { bindings := outside, opened }) := by
    rw [Markup.token, Event.ofToken, endTagName_of_isKey hname, hopened]
    exact if_pos rfl
  have hstep : [Event.stop].foldlM Builder.step r.builder = r.builder.complete outer f.element := by
    rw [foldlM_stop, Builder.step, hframes]
  rw [take_eq_map htoken, hstep]

/-- A tag that is a whole element opens it and completes it. -/
theorem take_empty (hr : r.Fits scope) (hs : scope.Sound generated) (form : AttachmentForm)
    (he : e.Writable) (hd : Node.Detached e.children) :
    let tag := openTag form scope generated e.ns e.name e.attributes e.children
    r.take (Markup.empty tag.name tag.attributes).token =
      (r.builder.complete r.builder.frames
        (e.escaped.frame (escape scope.defaultNamespace)).element).map fun b =>
          { r with builder := b } := by
  intro tag
  obtain ⟨-, -, inside, henter, -, hstart⟩ :=
    exists_readStart hs hr.agrees form he (contentTypeToNote_of_detached form _ hd)
  rw [← Element.startEvent_escaped] at hstart
  have hunprefixed := (isPrefixed_escape _).trans hs.unprefixed
  have htoken : Event.ofToken 0 r.scopes (Markup.empty tag.name tag.attributes).token [] =
      .ok ([e.escaped.startEvent (escape scope.defaultNamespace), .stop], r.scopes) :=
    bind_eq_ok.2 ⟨inside, mapError_eq_ok.2 henter, bind_eq_ok.2 ⟨_, hstart, rfl⟩⟩
  have hevents : [e.escaped.startEvent (escape scope.defaultNamespace), .stop].foldlM
      Builder.step r.builder = r.builder.complete r.builder.frames
        (e.escaped.frame (escape scope.defaultNamespace)).element := by
    rw [List.foldlM_cons, step_startEvent e.escaped hr.inherited hunprefixed,
      ← complete_frames r.builder
        (e.escaped.frame (escape scope.defaultNamespace) :: r.builder.frames)]
    exact foldlM_stop _
  rw [take_eq_map htoken, hevents]

end Reader

/-! ## Whole trees -/

/-- Nodes that are read back: every tag among them is, no attachment is left to be written in
another form, and no element stands for an attachment. -/
structure Node.Readable (ns : List Node) : Prop where
  detached : Detached ns
  inner : ∀ x ∈ subtrees ns, x.Writable ∧ Detached x.children ∧ Builder.isInclude x = false

/-- An element that is read back, with everything in it. It may itself stand for an attachment. -/
structure Element.Readable (e : Element) : Prop where
  writable : e.Writable
  children : Node.Readable e.children

theorem Node.Readable.of_cons {n : Node} {ns : List Node} (h : Readable (n :: ns)) :
    Readable ns := by
  refine ⟨h.detached.of_cons, fun x hx => h.inner x ?_⟩
  obtain ⟨e, he, hx⟩ := mem_subtrees.1 hx
  exact mem_subtrees.2 ⟨e, List.mem_cons_of_mem _ he, hx⟩

theorem Node.Readable.element {e : Element} {ns : List Node} (h : Readable (.element e :: ns)) :
    e.Readable ∧ Builder.isInclude e = false := by
  have hinner : ∀ x ∈ e.subtree, x.Writable ∧ Detached x.children ∧ Builder.isInclude x = false :=
    fun x hx => h.inner x (mem_subtrees.2 ⟨e, List.mem_cons_self .., hx⟩)
  obtain ⟨hw, hd, hi⟩ := hinner e e.mem_subtree_self
  exact ⟨⟨hw, hd, fun x hx => hinner x (Element.mem_subtree_of_below hx)⟩, hi⟩

theorem readable_includeElement (href : String) : (includeElement href).Readable := by
  have hname : isName "Include" = true ∧ isName "href" = true := by decide
  refine ⟨⟨plain_of_isName hname.1, ?_, by simp [includeElement], by simp [includeElement]⟩,
    ?_, ?_⟩
  · intro a ha
    rw [includeElement, List.mem_singleton] at ha
    subst ha
    exact ⟨plain_of_isName hname.2, by simp⟩
  · exact fun n hn => absurd hn (by simp [includeElement])
  · exact fun x hx => absurd hx (by simp [includeElement, Node.subtrees])

/-- Whether an element stands for an attachment does not depend on how it is read. -/
theorem isInclude_received (e : Element) (inherited : String) :
    Builder.isInclude (e.received inherited) = Builder.isInclude e := by
  obtain ⟨ns, name, attributes, children⟩ := e
  have hns : ownNamespace ns inherited = some xop ↔ ns = some xop := by
    cases ns with
    | none => simp [ownNamespace]
    | some u =>
      rw [ownNamespace]
      split
      · next h =>
        constructor
        · intro h'
          cases h'
        · intro h'
          obtain rfl := Option.some.inj h'
          exact absurd h (by simp [isPrefixed])
      · rfl
  rw [Element.received, Builder.isInclude, Builder.isInclude]
  simp only [hns]

theorem isInclude_escaped (e : Element) : Builder.isInclude e.escaped = Builder.isInclude e := by
  have hns : e.ns.map escape = some xop ↔ e.ns = some xop := by
    cases e.ns with
    | none => simp
    | some u => simp [escape_eq_reserved (u := xop)]
  rw [Element.escaped_eq, Builder.isInclude, Builder.isInclude]
  simp only [hns]

/-- The references that come before the end of an element are listed when it is complete. -/
def Builder.listing (b : Builder) (references : List Reference) : Builder :=
  { b with references := references.reverse ++ b.references }

namespace Reader

/-- The names of the elements that are open, innermost first. -/
def path (r : Reader) : List String := r.builder.frames.map Frame.name

/-- The reader with a complete element put where it stands. -/
def putElement (r : Reader) (e : Element) (references : List Reference) : Except Malformed Reader :=
  ((r.builder.listing references).complete r.builder.frames e).map fun b => { r with builder := b }

/-- The reader with nodes added to the element that is open, whose frame is `f`. -/
def addAll (r : Reader) (f : Frame) (outer : List Frame) (ns : List Node)
    (references : List Reference) : Reader :=
  { r with builder := { r.builder.listing references with
      frames := { f with children := ns.foldl Node.join f.children } :: outer } }

variable {r : Reader} {f : Frame} {outer : List Frame}

theorem addAll_nil (h : r.builder.frames = f :: outer) : r.addAll f outer [] [] = r := by
  rw [addAll, Builder.listing, List.foldl_nil, ← h]
  rfl

theorem addAll_addAll (r : Reader) (f : Frame) (outer : List Frame) (ns ms : List Node)
    (references references' : List Reference) :
    (r.addAll f outer ns references).addAll
        { f with children := ns.foldl Node.join f.children } outer ms references' =
      r.addAll f outer (ns ++ ms) (references ++ references') := by
  simp [addAll, Builder.listing]

theorem path_addAll (h : r.builder.frames = f :: outer) (ns : List Node)
    (references : List Reference) : (r.addAll f outer ns references).path = r.path := by
  rw [path, path, h]
  rfl

theorem fits_addAll {scope : Scope} (hr : r.Fits scope) (h : r.builder.frames = f :: outer)
    (ns : List Node) (references : List Reference) :
    (r.addAll f outer ns references).Fits scope := by
  refine ⟨hr.agrees, ?_⟩
  have hinherited := hr.inherited
  rw [Builder.inherited, h] at hinherited
  exact hinherited

/-- An element that stands for no attachment becomes a child of the open one. -/
theorem putElement_of_frames (h : r.builder.frames = f :: outer) {e : Element}
    (he : Builder.isInclude e = false) (references : List Reference) :
    r.putElement e references = .ok (r.addAll f outer [.element e] references) := by
  rw [putElement, h, Builder.complete, Builder.nodeOf, he]
  rfl

/-- An element that stands for an attachment becomes a reference, which is listed. -/
theorem putElement_include (h : r.builder.frames = f :: outer) (href inherited : String) :
    r.putElement ((includeElement href).escaped.received inherited) [] =
      .ok (r.addAll f outer [.reference href] (Node.references r.path [.reference href])) := by
  have hreceived : (includeElement href).escaped.received inherited = includeElement href := by
    have hxop : isPrefixed xop = true := by decide
    have hescape : escape xop = xop := (escape_eq_reserved (by simp)).2 rfl
    rw [includeElement, Element.escaped, Option.map_some, hescape, Element.received, ownNamespace,
      hxop]
    rfl
  have hinclude : Builder.isInclude (includeElement href) = true := by
    simp [Builder.isInclude, includeElement]
  have hhref : (includeElement href).attribute? "href" = some href := rfl
  rw [hreceived, putElement, h, Builder.complete, Builder.nodeOf, hinclude, if_pos rfl, hhref,
    path, h, List.map_reverse]
  rfl

end Reader

namespace Markup

/-- Pieces that stand inside a document. -/
def Inner (ms : List Markup) : Prop := ∀ m ∈ ms, m.Legible ∧ m ≠ .declaration

theorem Inner.append {ms ns : List Markup} (hm : Inner ms) (hn : Inner ns) : Inner (ms ++ ns) := by
  intro m h
  rcases List.mem_append.1 h with h | h
  · exact hm m h
  · exact hn m h

end Markup

variable {scope : Scope} {generated : Nat} {r : Reader}

theorem Element.write_eq (form : AttachmentForm) (scope : Scope) (generated : Nat) (e : Element) :
    e.write form scope generated =
      let tag := openTag form scope generated e.ns e.name e.attributes e.children
      if e.children.isEmpty then ([.empty tag.name tag.attributes], tag.generated)
      else
        (.start tag.name tag.attributes ::
            (Node.writeAll form tag.scope tag.generated e.children).1 ++ [.stop tag.name],
          (Node.writeAll form tag.scope tag.generated e.children).2) := by
  obtain ⟨ns, name, attributes, children⟩ := e
  rw [Element.write]

theorem Element.received_eq (inherited : String) (e : Element) :
    e.received inherited =
      ({ e.frame inherited with
        children := (Node.receivedEach (handedDown e.ns inherited) e.children).foldl Node.join [] } :
          Frame).element := by
  obtain ⟨ns, name, attributes, children⟩ := e
  rw [Element.received]
  rfl

theorem Element.references_eq (outer : List String) (e : Element) :
    e.references outer = Node.references (e.name :: outer) e.children := by
  obtain ⟨ns, name, attributes, children⟩ := e
  rw [Element.references]

/-- An element without children is read as it is received. -/
private theorem read_childless (form : AttachmentForm) {e : Element} (he : e.Readable)
    (hchildren : e.children = []) (hs : scope.Sound generated) (hr : r.Fits scope) :
    generated ≤ (e.write form scope generated).2 ∧ Markup.Inner (e.write form scope generated).1 ∧
      (e.write form scope generated).1.foldlM Reader.takeMarkup r =
        r.putElement (e.escaped.received (escape scope.defaultNamespace)) [] := by
  obtain ⟨⟨hkey, hkeys⟩, ⟨-, hle, -⟩, -⟩ := exists_readStart hs hr.agrees form he.writable
    (contentTypeToNote_of_detached form _ he.children.detached)
  have hreceived : e.escaped.received (escape scope.defaultNamespace) =
      (e.escaped.frame (escape scope.defaultNamespace)).element := by
    rw [Element.received_eq, Element.escaped_eq, hchildren]
    rfl
  rw [Element.write_eq, if_pos (by rw [hchildren]; rfl)]
  refine ⟨hle, ?_, ?_⟩
  · intro m hm
    rw [List.mem_singleton.1 hm]
    exact ⟨⟨hkey, hkeys⟩, by simp⟩
  · rw [List.foldlM_cons]
    show (r.take (Markup.empty _ _).token >>= fun r => pure r) = _
    rw [bind_pure, Reader.take_empty hr hs form he.writable he.children.detached, hreceived]
    rfl

/-- What the markup of an element leads to, if that of its children leads where it should. -/
private theorem read_parent (form : AttachmentForm) {e : Element} (he : e.Readable)
    (hchildren : e.children.isEmpty = false) (hs : scope.Sound generated) (hr : r.Fits scope)
    (inside : ∀ (scope : Scope) (generated : Nat) (r : Reader) (f : Frame) (outer : List Frame),
      scope.Sound generated → r.Fits scope → r.builder.frames = f :: outer →
      generated ≤ (Node.writeAll form scope generated e.children).2 ∧
        Markup.Inner (Node.writeAll form scope generated e.children).1 ∧
        (Node.writeAll form scope generated e.children).1.foldlM Reader.takeMarkup r =
          .ok (r.addAll f outer
            (Node.receivedEach (escape scope.defaultNamespace) (Node.escapedAll e.children))
            (Node.references r.path e.children))) :
    generated ≤ (e.write form scope generated).2 ∧ Markup.Inner (e.write form scope generated).1 ∧
      (e.write form scope generated).1.foldlM Reader.takeMarkup r =
        r.putElement (e.escaped.received (escape scope.defaultNamespace)) (e.references r.path) := by
  have hd := he.children.detached
  obtain ⟨⟨hkey, hkeys⟩, ⟨hsound, hle, hdefault⟩, -⟩ := exists_readStart hs hr.agrees form
    he.writable (contentTypeToNote_of_detached form _ hd)
  obtain ⟨bindings, hagrees, hstart⟩ := Reader.take_start hr hs form he.writable hd
  rw [Element.write_eq, if_neg (by rw [hchildren]; simp)]
  generalize openTag form scope generated e.ns e.name e.attributes e.children = tag at *
  -- the reader after the start tag, inside the element
  let opened : Reader :=
    { scopes := { bindings
                  opened := ⟨Utf8.encode tag.name, r.scopes.bindings⟩ :: r.scopes.opened }
      builder := { r.builder with
        frames := e.escaped.frame (escape scope.defaultNamespace) :: r.builder.frames } }
  have hinherited : handedDown e.escaped.ns (escape scope.defaultNamespace) =
      escape tag.scope.defaultNamespace := by
    rw [hdefault, Element.escaped_eq, handedDown_escape]
  have hfits : opened.Fits tag.scope := ⟨hagrees, hinherited⟩
  have hpath : opened.path = e.name :: r.path := by
    rw [← Element.escaped_name]
    rfl
  obtain ⟨hle', hlegible, hread⟩ := inside tag.scope tag.generated opened _ _ hsound hfits rfl
  refine ⟨Nat.le_trans hle hle', ?_, ?_⟩
  · intro m hm
    rw [List.cons_append, List.mem_cons, List.mem_append, List.mem_singleton] at hm
    rcases hm with rfl | hm | rfl
    · exact ⟨⟨hkey, hkeys⟩, by simp⟩
    · exact hlegible m hm
    · exact ⟨hkey, by simp⟩
  · rw [List.cons_append, List.foldlM_cons]
    show (r.take (Markup.start tag.name tag.attributes).token >>= _) = _
    rw [hstart]
    show ((Node.writeAll form tag.scope tag.generated e.children).1 ++
      [Markup.stop tag.name]).foldlM Reader.takeMarkup opened = _
    rw [List.foldlM_append, hread]
    show [Markup.stop tag.name].foldlM Reader.takeMarkup _ = _
    rw [List.foldlM_cons]
    show (Reader.take _ (Markup.stop tag.name).token >>= fun r => pure r) = _
    rw [bind_pure, Reader.take_stop hkey rfl rfl, Reader.putElement, Element.received_eq,
      Element.references_eq, hinherited, ← hpath, Element.escaped_children, Reader.addAll,
      complete_frames]
    rfl

mutual

/-- The markup of an element puts it where the reader stands. -/
theorem Element.read_write (form : AttachmentForm) : ∀ (e : Element) (scope : Scope)
    (generated : Nat) (r : Reader), e.Readable → scope.Sound generated → r.Fits scope →
      generated ≤ (e.write form scope generated).2 ∧
        Markup.Inner (e.write form scope generated).1 ∧
        (e.write form scope generated).1.foldlM Reader.takeMarkup r =
          r.putElement (e.escaped.received (escape scope.defaultNamespace)) (e.references r.path)
  | ⟨ns, name, attributes, children⟩, scope, generated, r, he, hs, hr => by
    cases hchildren : children.isEmpty with
    | true =>
      have hnil : children = [] := List.isEmpty_iff.1 hchildren
      subst hnil
      exact read_childless form he rfl hs hr
    | false =>
      exact read_parent form he hchildren hs hr fun scope generated r f outer =>
        Node.read_writeAll form children scope generated r f outer he.children

/-- The markup of nodes adds them to the element that is open. -/
theorem Node.read_writeAll (form : AttachmentForm) : ∀ (ns : List Node) (scope : Scope)
    (generated : Nat) (r : Reader) (f : Frame) (outer : List Frame), Node.Readable ns →
      scope.Sound generated → r.Fits scope → r.builder.frames = f :: outer →
      generated ≤ (Node.writeAll form scope generated ns).2 ∧
        Markup.Inner (Node.writeAll form scope generated ns).1 ∧
        (Node.writeAll form scope generated ns).1.foldlM Reader.takeMarkup r =
          .ok (r.addAll f outer
            (Node.receivedEach (escape scope.defaultNamespace) (Node.escapedAll ns))
            (Node.references r.path ns))
  | [], scope, generated, r, f, outer, hns, hs, hr, hf => by
    refine ⟨Nat.le_refl _, fun m hm => absurd hm (by simp [Node.writeAll]), ?_⟩
    rw [Node.writeAll, Node.escapedAll, Node.receivedEach, Node.references, Reader.addAll_nil hf]
    rfl
  | .element e :: rest, scope, generated, r, f, outer, hns, hs, hr, hf => by
    -- the rest is read from where the element leaves the reader, with the numbers that it used up
    obtain ⟨he, hinclude⟩ := hns.element
    obtain ⟨hle, hlegible, hread⟩ := Element.read_write form e scope generated r he hs hr
    rw [Reader.putElement_of_frames hf (by rw [isInclude_received, isInclude_escaped, hinclude])] at hread
    obtain ⟨hle', hlegible', hread'⟩ := Node.read_writeAll form rest scope _ _ _ _ hns.of_cons
      (hs.mono hle) (Reader.fits_addAll hr hf [_] (e.references r.path)) rfl
    rw [Node.writeAll]
    refine ⟨Nat.le_trans hle hle', hlegible.append hlegible', ?_⟩
    rw [List.foldlM_append, hread]
    refine hread'.trans ?_
    rw [Reader.addAll_addAll, Reader.path_addAll hf]
    rfl
  | .text s :: rest, scope, generated, r, f, outer, hns, hs, hr, hf => by
    have hread : r.takeText s = .ok (r.addAll f outer [.text s] []) := by
      rw [Reader.takeText, hf]
      rfl
    obtain ⟨hle', hlegible', hread'⟩ := Node.read_writeAll form rest scope generated _ _ _
      hns.of_cons hs (Reader.fits_addAll hr hf [.text s] []) rfl
    rw [Node.writeAll]
    refine ⟨hle', ?_, ?_⟩
    · intro m hm
      rcases List.mem_cons.1 hm with rfl | hm
      · exact ⟨trivial, by simp⟩
      · exact hlegible' m hm
    · rw [List.foldlM_cons]
      show (r.takeText s >>= _) = _
      rw [hread]
      refine hread'.trans ?_
      rw [Reader.addAll_addAll, Reader.path_addAll hf]
      rfl
  | .attachment a :: rest, scope, generated, r, f, outer, hns, hs, hr, hf => by
    exact absurd (hns.detached _ (List.mem_cons_self ..)) (by simp [Node.attachment?])
  | .reference href :: rest, scope, generated, r, f, outer, hns, hs, hr, hf => by
    obtain ⟨hle, hlegible, hread⟩ :=
      read_childless form (readable_includeElement href) rfl hs hr
    rw [Reader.putElement_include hf] at hread
    obtain ⟨hle', hlegible', hread'⟩ := Node.read_writeAll form rest scope _ _ _ _ hns.of_cons
      (hs.mono hle) (Reader.fits_addAll hr hf [_] _) rfl
    rw [Node.writeAll, writeReference_eq]
    refine ⟨Nat.le_trans hle hle', hlegible.append hlegible', ?_⟩
    rw [List.foldlM_append, hread]
    refine hread'.trans ?_
    rw [Reader.addAll_addAll, Reader.path_addAll hf]
    rfl

end

/-! ## Documents -/

theorem declarable_xmime : Declarable xmime := by
  have hall : xmime ≠ "" ∧ xmime ≠ xmlnsNamespace := by decide
  exact ⟨hall.1, hall.2⟩

/-- A tree that is represented keeps what makes it writable: the note of a media type is an attribute
that the element did not have. -/
theorem Element.Writable.represented {e : Element} (h : e.Writable) (form : AttachmentForm) :
    (e.represented form).Writable := by
  have hname : isName "contentType" = true := by decide
  rw [Element.represented_eq]
  refine ⟨h.name, ?_, ?_, ?_⟩
  · intro a ha
    rcases List.mem_append.1 ha with ha | ha
    · exact h.attributes a ha
    · obtain ⟨hns, hlocal, -⟩ := spec_of_mem_contentTypeNote ha
      refine ⟨?_, fun hnone => ?_⟩
      · rw [hlocal]
        exact plain_of_isName hname
      · rw [hns] at hnone
        cases hnone
  · rw [List.map_append, List.nodup_append]
    refine ⟨h.distinct, ?_, ?_⟩
    · unfold contentTypeNote
      cases contentTypeToNote form e.attributes e.children <;> simp
    · intro p hp q hq hpq
      obtain ⟨b, hb, rfl⟩ := List.mem_map.1 hp
      obtain ⟨a, ha, rfl⟩ := List.mem_map.1 hq
      obtain ⟨hns, hlocal, hnew⟩ := spec_of_mem_contentTypeNote ha
      obtain ⟨hns', hlocal'⟩ := Prod.mk.inj hpq
      exact hnew b hb ⟨hlocal'.trans hlocal, hns'.trans hns⟩
  · intro a ha ns hns
    rcases List.mem_append.1 ha with ha | ha
    · exact h.declarable a ha ns hns
    · rw [(spec_of_mem_contentTypeNote ha).1] at hns
      rw [← Option.some.inj hns]
      exact declarable_xmime

/-- A tree that can be written is represented by one that is read back. -/
theorem Element.readable_represented {e : Element} (form : AttachmentForm)
    (hw : ∀ x ∈ e.subtree, x.Writable)
    (hi : ∀ x ∈ Node.subtrees e.children, Builder.isInclude x = false) :
    (e.represented form).Readable := by
  refine ⟨(hw e e.mem_subtree_self).represented form, ?_⟩
  rw [Element.represented_eq]
  refine ⟨Node.detached_representAll form _, fun y hy => ?_⟩
  obtain ⟨x, hx, rfl⟩ := Node.exists_of_mem_representAll form _ y hy
  have hx' : x ∈ e.subtree := Element.mem_subtree_of_below hx
  refine ⟨(hw x hx').represented form, ?_, ?_⟩
  · rw [Element.represented_eq]
    exact Node.detached_representAll form _
  · rw [Element.represented_eq]
    exact hi x hx

theorem fits_initial : ({} : Reader).Fits {} :=
  ⟨Bindings.agrees_reserved, by decide⟩

/-- The bytes of a tree start with a tag, and so with no mark. -/
theorem Element.exists_bytesOf_write (form : AttachmentForm) (scope : Scope) (generated : Nat)
    (e : Element) : ∃ rest, Markup.bytesOf (e.write form scope generated).1 = 60 :: rest := by
  rw [Element.write_eq]
  dsimp only
  split
  · rw [Markup.bytesOf_cons]
    exact ⟨_, rfl⟩
  · rw [List.cons_append, Markup.bytesOf_cons]
    exact ⟨_, rfl⟩

/-- The markup of a tree, with a declaration before it or without, is read as the tree as it is
received, its namespaces escaped, with the references that it holds. -/
private theorem read_markup (form : AttachmentForm) {e : Element} (he : e.Readable)
    {front : List Markup} (hfront : front = [] ∨ front = [.declaration]) :
    Document.read (Markup.bytesOf (front ++ e.markup form)) =
      .ok { root := e.escaped.received "", references := e.references [] } := by
  obtain ⟨-, hinner, hread⟩ := Element.read_write form e {} 0 {} he Scope.sound_empty fits_initial
  have hlegible : ∀ m ∈ front ++ e.markup form, m.Legible := by
    intro m hm
    rcases List.mem_append.1 hm with hm | hm
    · rcases hfront with rfl | rfl
      · cases hm
      · obtain rfl := List.mem_singleton.1 hm
        trivial
    · exact (hinner m hm).1
  have hmark : Document.dropMark (Markup.bytesOf (front ++ e.markup form)) =
      Markup.bytesOf (front ++ e.markup form) := by
    obtain ⟨rest, hrest⟩ : ∃ rest, Markup.bytesOf (front ++ e.markup form) = 60 :: rest := by
      rcases hfront with rfl | rfl
      · exact e.exists_bytesOf_write form {} 0
      · rw [List.singleton_append, Markup.bytesOf_cons]
        exact ⟨_, rfl⟩
    rw [hrest]
    rfl
  have hpieces := (Reader.foldlM_take (fun h => (hinner _ h).2 rfl) (r := {})
    fun f outer hf => by cases hf).trans hread
  have hescape : escape ({} : Scope).defaultNamespace = "" := by decide
  have htree : ((Markup.joinTexts (e.markup form)).map Markup.token).foldlM Reader.take {} =
      .ok { builder := { root := some (e.escaped.received "")
                         references := (e.references []).reverse } } := by
    refine hpieces.trans ?_
    rw [hescape]
    simp [Reader.putElement, Builder.complete, Builder.listing, Reader.path, Except.map]
  rw [Document.read_of_take hmark (Markup.tokens?_bytesOf hlegible)
    (r := { builder := { root := some (e.escaped.received "")
                         references := (e.references []).reverse } })]
  · show Except.ok _ = _
    rw [List.reverse_reverse]
  · rcases hfront with rfl | rfl
    · rw [List.nil_append]
      exact htree
    · show ((Markup.declaration :: Markup.joinTexts (e.markup form)).map Markup.token).foldlM
        Reader.take {} = _
      rw [List.map_cons, List.foldlM_cons]
      exact htree

/-- The document written for a tree is read as the tree as it is received, its namespaces escaped,
with the references that it holds. -/
theorem Document.read_toDocument (form : AttachmentForm) {e : Element}
    (hw : ∀ x ∈ e.subtree, x.Writable)
    (hi : ∀ x ∈ Node.subtrees e.children, Builder.isInclude x = false) :
    Document.read (Utf8.encode (e.toDocument form)) =
      .ok { root := (e.represented form).escaped.received ""
            references := (e.represented form).references [] } := by
  have hread := @read_markup form _ (Element.readable_represented form hw hi) [.declaration]
    (.inr rfl)
  rw [← Element.toDocument_represented, Element.toDocument, Markup.encode_renderAll]
  exact hread

/-- So is the tree that is written without a declaration. -/
theorem Document.read_toXml {e : Element} (he : e.Readable) :
    Document.read (Utf8.encode e.toXml) =
      .ok { root := e.escaped.received "", references := e.references [] } := by
  have hread := @read_markup .inlined e he [] (.inl rfl)
  rw [Element.toXml, Markup.encode_renderAll]
  exact hread

end SoapMtom.Xml
