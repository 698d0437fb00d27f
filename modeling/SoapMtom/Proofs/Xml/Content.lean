import SoapMtom.Proofs.Xml.Namespaces

/-!
# The text of an element

An element of the tree has the texts that stand directly inside of it in the document, those of CDATA
sections included. Where it has child elements as well, each of these texts goes if it is blank by
itself. Blank is what Unicode calls so, not XML: a text of no-break spaces between two elements is
lost, although it is no indentation. Main statement:

> `Document.text_of_read`: every element has the texts of the document that are not dropped, and no
> character is lost but blanks; the blanks of XML are the only ones that are lost from an element
> exactly if every text that it drops consists of them.
-/

namespace SoapMtom

/-- The four blanks of XML. -/
def Text.isXmlBlank (c : Char) : Bool := c = ' ' || c = '\t' || c = '\r' || c = '\n'

namespace Xml

/-! ## What stands directly in an element -/

namespace Event

/-- What a document has directly inside of an element. -/
structure Content where
  name : String
  attributes : List Attribute
  /-- The texts and CDATA sections. Tags and comments come between them. -/
  pieces : List String
  /-- Whether there is a child element. -/
  isParent : Bool
deriving DecidableEq, Repr

namespace Content

/-- The whole text of an element. -/
def text (c : Content) : String := String.join c.pieces

/-- The text without the pieces that are dropped: the blank ones, if there is a child element. -/
def kept (c : Content) : String :=
  String.join (if c.isParent then c.pieces.filter (!Text.isBlankText ·) else c.pieces)

/-- Whether every piece that is dropped consists of the blanks of XML. -/
def dropsXmlBlanks (c : Content) : Bool :=
  !c.isParent || c.pieces.all fun s => !Text.isBlankText s || s.toList.all Text.isXmlBlank

end Content

/-- The texts directly inside of an element, up to its end tag. `depth` elements are open inside of
it. -/
def piecesFrom : Nat → List Event → List String
  | _, [] => []
  | depth, .start .. :: rest => piecesFrom (depth + 1) rest
  | 0, .stop :: _ => []
  | depth + 1, .stop :: rest => piecesFrom depth rest
  | 0, .text s :: rest => s :: piecesFrom 0 rest
  | depth + 1, .text _ :: rest => piecesFrom (depth + 1) rest

/-- The contents of those elements that stay elements of the tree, in the order of their start
tags. -/
def contentsFrom (shown : List Bool) : List Event → List Content
  | [] => []
  | .start ns name attributes :: rest =>
    if isShown shown ns name then
      { name, attributes, pieces := piecesFrom 0 rest, isParent := childAfter rest } ::
        contentsFrom (true :: shown) rest
    else contentsFrom (false :: shown) rest
  | .stop :: rest => contentsFrom shown.tail rest
  | .text _ :: rest => contentsFrom shown rest

/-- The contents of the elements of a document, without those that stand for attachments and what is
inside of them. -/
def contents (events : List Event) : List Content := contentsFrom [] events

end Event

/-! ## Characters that are lost -/

section Lost

variable {α β : Type} {p : β → Bool} {dropped : α → Bool} {f : α → List β}

/-- What is dropped and what is kept add up to the whole. -/
theorem countP_flatMap_filter (dropped : α → Bool) (as : List α) :
    (as.flatMap f).countP p =
      ((as.filter (!dropped ·)).flatMap f).countP p + ((as.filter dropped).flatMap f).countP p := by
  induction as with
  | nil => rfl
  | cons a as ih =>
    rw [List.flatMap_cons, List.countP_append, ih, List.filter_cons, List.filter_cons]
    cases dropped a <;>
      simp only [Bool.not_true, Bool.not_false, Bool.false_eq_true, if_false, if_true,
        List.flatMap_cons, List.countP_append] <;>
      omega

/-- Nothing that counts is lost exactly if it does not occur in what is dropped. -/
theorem filter_flatMap_sublist_iff (as : List α) :
    ((as.flatMap f).filter p).Sublist ((as.filter (!dropped ·)).flatMap f) ↔
      ∀ a ∈ as, dropped a = true → ∀ b ∈ f a, p b = false := by
  constructor
  · intro h a ha hdropped b hb
    -- all that counts is in what is kept, so nothing of it is left over for what is dropped
    have hle := h.countP_le (p := p)
    have hall : ((as.flatMap f).filter p).countP p = (as.flatMap f).countP p := by
      rw [List.countP_filter]
      simp only [Bool.and_self]
    rw [hall, countP_flatMap_filter dropped as] at hle
    have hzero : ((as.filter dropped).flatMap f).countP p = 0 := by omega
    exact Bool.eq_false_iff.2 (List.countP_eq_zero.1 hzero b
      (List.mem_flatMap.2 ⟨a, List.mem_filter.2 ⟨ha, hdropped⟩, hb⟩))
  · intro h
    have hsame : (as.flatMap f).filter p = ((as.filter (!dropped ·)).flatMap f).filter p := by
      induction as with
      | nil => rfl
      | cons a as ih =>
        obtain ⟨ha, has⟩ := List.forall_mem_cons.1 h
        rw [List.flatMap_cons, List.filter_append, ih has, List.filter_cons]
        cases hdropped : dropped a with
        | true =>
          have hnone : (f a).filter p = [] :=
            List.filter_eq_nil_iff.2 fun b hb => by simp [ha hdropped b hb]
          simp [hnone]
        | false => simp
    rw [hsame]
    exact List.filter_sublist

end Lost

/-- No character is lost but blanks, and no other ones than those of XML exactly if every piece that
is dropped consists of them. -/
theorem Event.Content.sublist_kept (c : Event.Content) :
    (c.text.toList.filter (!Text.isBlank ·)).Sublist c.kept.toList ∧
      ((c.text.toList.filter (!Text.isXmlBlank ·)).Sublist c.kept.toList ↔
        c.dropsXmlBlanks = true) := by
  unfold text kept dropsXmlBlanks
  rw [String.toList_join, String.toList_join]
  cases c.isParent with
  | false => simp [List.filter_sublist]
  | true =>
    simp only [if_true]
    rw [filter_flatMap_sublist_iff, filter_flatMap_sublist_iff]
    constructor
    · intro s _ hs ch hch
      rw [List.all_eq_true.1 hs ch hch]
      rfl
    · simp [or_iff_not_imp_left]

/-! ## Texts of a tree in the making -/

/-- An element as far as its text goes. -/
structure Label where
  name : String
  attributes : List Attribute
  text : String

/-- The element with the text that it has in the tree. -/
def Element.label (e : Element) : Label :=
  { name := e.name, attributes := e.attributes, text := e.text }

/-- The element with the text that the tree should have. -/
def Event.Content.label (c : Event.Content) : Label :=
  { name := c.name, attributes := c.attributes, text := c.kept }

namespace Node

theorem subtrees_append (ms ns : List Node) :
    subtrees (ms ++ ns) = subtrees ms ++ subtrees ns := by
  induction ms with
  | nil => rfl
  | cons m ms ih =>
    cases m with
    | element e => rw [List.cons_append, subtrees, subtrees, ih, List.append_assoc]
    | text s | attachment a | reference href => exact ih

/-- There are no elements in indentation. -/
theorem subtrees_dropIndentation (ns : List Node) : subtrees (dropIndentation ns) = subtrees ns :=
  listed_dropIndentation (fun n ns => subtrees_append [n] ns) (fun _ => rfl) ns

/-- The texts that are left when indentation is dropped. -/
theorem texts_dropIndentation (ns : List Node) :
    (dropIndentation ns).filterMap text? =
      if ns.any (!isText ·) then (ns.filterMap text?).filter (!Text.isBlankText ·)
      else ns.filterMap text? := by
  cases hall : ns.all isText with
  | true =>
    have hany : ns.any (!isText ·) = false := by simpa using hall
    rw [hany, dropIndentation, hall]
    rfl
  | false =>
    have hany : ns.any (!isText ·) = true := by simpa using hall
    rw [hany, if_pos rfl, dropIndentation_of_not_all hall]
    clear hall hany
    induction ns with
    | nil => rfl
    | cons n ns ih =>
      cases n with
      | text s =>
        have htext : text? (.text s) = some s := rfl
        rw [List.filterMap_cons_some htext, List.filter_cons, List.filter_cons, ← ih]
        have hkept : isKept (.text s) = !Text.isBlankText s := rfl
        rw [hkept]
        split <;> rfl
      | element e | attachment a | reference href => exact ih

end Node

namespace Frame

/-- What stands directly in the element of a frame: its children so far, and what is still to come.
`depth` elements are open inside of it. -/
def content (depth : Nat) (rest : List Event) (f : Frame) : Event.Content :=
  { name := f.name
    attributes := f.attributes
    pieces := f.children.reverse.filterMap Node.text? ++ Event.piecesFrom depth rest
    isParent := f.children.any (!·.isText) || depth ≠ 0 || Event.childAfter rest }

/-- The elements in frames that stay elements of the tree. -/
def labels (depth : Nat) (rest : List Event) : List Frame → List Label
  | [] => []
  | f :: outer =>
    labels (depth + 1) rest outer ++
      if isShown (f :: outer) then
        (f.content depth rest).label :: (Node.subtrees f.children.reverse).map Element.label
      else []

/-- Before a start tag an element has what it has after it, inside of the new element. -/
theorem content_start (depth : Nat) {ns name : String} {attributes : List Attribute}
    (rest : List Event) (f : Frame) :
    f.content depth (.start ns name attributes :: rest) = f.content (depth + 1) rest := by
  rw [content, content, Event.piecesFrom]
  simp [Event.childAfter]

/-- Inside of two elements an end tag makes no difference but that. -/
theorem content_stop (depth : Nat) (rest : List Event) (f : Frame) :
    f.content (depth + 2) (.stop :: rest) = f.content (depth + 1) rest := by
  rw [content, content, Event.piecesFrom]
  simp

/-- The text of an element inside is none of its own. -/
theorem content_text (depth : Nat) (s : String) (rest : List Event) (f : Frame) :
    f.content (depth + 1) (.text s :: rest) = f.content (depth + 1) rest := by
  rw [content, content, Event.piecesFrom, Event.childAfter]

theorem content_push_text (s : String) (rest : List Event) (f : Frame) :
    (f.push (.text s)).content 0 rest = f.content 0 (.text s :: rest) := by
  rw [content, content, Event.piecesFrom, Event.childAfter]
  simp [push, Node.text?, Node.isText]

/-- After the end tag of a child element, which becomes a node. -/
theorem content_push {n : Node} (hn : n.isText = false) (rest : List Event) (f : Frame) :
    (f.push n).content 0 rest = f.content 1 (.stop :: rest) := by
  have htext : n.text? = none := by
    rw [Node.isText] at hn
    simpa using hn
  rw [content, content, Event.piecesFrom]
  simp [push, htext, hn]

/-- The empty text adds nothing. -/
theorem label_content_empty (rest : List Event) (f : Frame) :
    (f.content 0 (.text "" :: rest)).label = (f.content 0 rest).label := by
  have hjoin : ∀ as bs : List String,
      String.join (as ++ "" :: bs) = String.join (as ++ bs) := by
    intro as bs
    rw [String.join_append, String.join_append, String.join_cons, String.empty_append]
  have hblank : Text.isBlankText "" = true := rfl
  rw [content, content, Event.piecesFrom, Event.childAfter, Event.Content.label,
    Event.Content.label, Event.Content.kept, Event.Content.kept]
  dsimp only
  split
  · rw [List.filter_append, List.filter_append, List.filter_cons_of_neg (by simp [hblank])]
  · rw [hjoin]

/-- A complete element has the text of its frame, where its end tag is all that is still to come. -/
theorem label_element (rest : List Event) (f : Frame) :
    f.element.label = (f.content 0 (.stop :: rest)).label := by
  rw [Element.label, Event.Content.label, Element.text, Event.Content.kept, content,
    Event.piecesFrom, Event.childAfter, element]
  dsimp only
  rw [Node.texts_dropIndentation, List.any_reverse]
  simp

/-- The elements of a complete element. -/
theorem labels_element (rest : List Event) (f : Frame) :
    f.element.subtree.map Element.label =
      (f.content 0 (.stop :: rest)).label ::
        (Node.subtrees f.children.reverse).map Element.label := by
  rw [Element.subtree_eq, List.map_cons, label_element rest, element,
    Node.subtrees_dropIndentation]

/-- The elements around a place have the same texts from two points of view, if each of them has. -/
theorem labels_congr {depth depth' : Nat} {rest rest' : List Event}
    (h : ∀ (f : Frame) (k : Nat),
      (f.content (depth + k) rest).label = (f.content (depth' + k) rest').label)
    (frames : List Frame) : labels depth rest frames = labels depth' rest' frames := by
  induction frames generalizing depth depth' with
  | nil => rfl
  | cons f outer ih =>
    have houter : labels (depth + 1) rest outer = labels (depth' + 1) rest' outer := by
      refine ih fun f k => ?_
      simpa [Nat.add_assoc, Nat.add_comm 1] using h f (k + 1)
    rw [labels, labels, houter]
    have hf := h f 0
    rw [Nat.add_zero, Nat.add_zero] at hf
    rw [hf]

/-- An end tag makes no difference around the element that it leaves. -/
theorem labels_stop (rest : List Event) (frames : List Frame) :
    labels 2 (.stop :: rest) frames = labels 1 rest frames := by
  refine labels_congr (fun f k => ?_) _
  rw [Nat.add_comm 2 k, Nat.add_comm 1 k, content_stop]

/-- A text makes no difference around the element that holds it. -/
theorem labels_text (s : String) (rest : List Event) (frames : List Frame) :
    labels 1 (.text s :: rest) frames = labels 1 rest frames := by
  refine labels_congr (fun f k => ?_) _
  rw [Nat.add_comm 1 k, content_text]

/-- A start tag makes no difference but the new element. -/
theorem labels_start {ns name : String} {attributes : List Attribute} (rest : List Event)
    (frames : List Frame) :
    labels 0 (.start ns name attributes :: rest) frames = labels 1 rest frames := by
  refine labels_congr (fun f k => ?_) _
  rw [content_start, Nat.add_comm 1 k, Nat.zero_add]

/-- A node comes last among the children. -/
theorem labels_push (depth : Nat) (rest : List Event) (f : Frame) (outer : List Frame) (n : Node) :
    labels depth rest (f.push n :: outer) =
      labels (depth + 1) rest outer ++
        if isShown (f :: outer) then
          ((f.push n).content depth rest).label ::
            ((Node.subtrees f.children.reverse).map Element.label ++
              (Node.subtrees [n]).map Element.label)
        else [] := by
  rw [labels, isShown_push, ← List.map_append, ← Node.subtrees_append, push, List.reverse_cons]

end Frame

namespace Builder

/-- The elements of the tree so far, with the texts that they have when the events to come are taken
in. -/
def labels (rest : List Event) (b : Builder) : List Label :=
  (b.root.map fun root => root.subtree.map Element.label).getD [] ++ Frame.labels 0 rest b.frames

/-- What an event adds to the elements of the tree is what it adds to those of the document. -/
theorem Moves.labels_eq {event : Event} {b b' : Builder} (h : b.Moves event b')
    (rest : List Event) :
    b'.labels rest ++ (Event.contentsFrom (Frame.shown b'.frames) rest).map Event.Content.label =
      b.labels (event :: rest) ++
        (Event.contentsFrom (Frame.shown b.frames) (event :: rest)).map Event.Content.label := by
  cases h with
  | opened ns name attributes =>
    rw [labels, labels, Frame.labels_start, Frame.labels, Frame.shown, Frame.isShown_begin,
      Event.contentsFrom]
    split
    · next hshown => simp [hshown, Frame.begin, Frame.content, Node.subtrees]
    · next hshown =>
      rw [Bool.not_eq_true] at hshown
      simp [hshown]
  | @added f outer heq s hs =>
    rw [labels, labels, heq, Frame.labels_push, Frame.labels, Frame.content_push_text,
      Frame.labels_text, Frame.shown, Frame.shown, Frame.isShown_push, Event.contentsFrom]
    simp [Node.subtrees]
  | unopened heq =>
    rw [labels, labels, heq]
    rfl
  | @passed s hs =>
    have hframes : Frame.labels 0 (.text s :: rest) b.frames = Frame.labels 0 rest b.frames := by
      rcases hs with rfl | hframes
      · refine Frame.labels_congr (fun f k => ?_) _
        cases k with
        | zero => exact Frame.label_content_empty rest f
        | succ k => rw [Nat.zero_add, Frame.content_text]
      · rw [hframes]
        rfl
    rw [labels, labels, hframes, Event.contentsFrom]
  | @rooted f heq hroot =>
    have hshown : Frame.isShown [f] = true := rfl
    rw [labels, labels, heq, hroot, Event.contentsFrom]
    simp [Frame.labels, Frame.shown, hshown, Frame.labels_element rest]
  | @nested f g outer heq hinclude =>
    -- what the frame promised is what the element has; the one around it gets its child
    have hshown := Frame.isShown_of_not_isInclude hinclude g outer
    rw [labels, labels, heq, Frame.labels_push, Frame.content_push rfl,
      ← Frame.labels_stop, Frame.labels, Frame.labels, Frame.shown, Frame.shown, Frame.shown,
      Frame.isShown_push, Event.contentsFrom, hshown]
    split
    · next hg => simp [hg, Node.subtrees, Frame.labels_element rest]
    · next hg => simp [hg]
  | @referred f g outer heq hinclude href hhref =>
    -- the element promised nothing, but it makes a parent of the one around it
    have hhidden := Frame.isShown_of_isInclude hinclude g outer
    rw [labels, labels, heq, Frame.labels_push, Frame.content_push rfl,
      ← Frame.labels_stop, Frame.labels, Frame.labels, Frame.shown, Frame.shown, Frame.shown,
      Frame.isShown_push, Event.contentsFrom, hhidden]
    simp [Node.subtrees]

end Builder

/-! ## Documents -/

namespace Document

/-- The elements of the tree are those of the document, in the same order, each with the texts that
are not dropped. No character of an element's text is lost but blanks. The blanks of XML are the only
ones that are lost exactly if every text that is dropped consists of them. -/
theorem text_of_read {bs : Bytes} {doc : Document} (h : read bs = .ok doc) :
    List.Forall₂
      (fun (c : Event.Content) (x : Element) =>
        c.name = x.name ∧ c.attributes = x.attributes ∧ x.text = c.kept ∧
          (c.text.toList.filter (!Text.isBlank ·)).Sublist x.text.toList ∧
            ((c.text.toList.filter (!Text.isXmlBlank ·)).Sublist x.text.toList ↔
              c.dropsXmlBlanks = true))
      (Event.contents (events bs)) doc.root.subtree := by
  obtain ⟨b, hb, hframes, hroot, -⟩ := exists_of_invariant_rest h
    (P := fun rest b =>
      b.labels rest ++ (Event.contentsFrom (Frame.shown b.frames) rest).map Event.Content.label =
        (Event.contents (events bs)).map Event.Content.label) rfl
    fun event rest b b' hb hmove => (hmove.labels_eq rest).trans hb
  have hlabels : (Event.contents (events bs)).map Event.Content.label =
      doc.root.subtree.map Element.label := by
    rw [← hb]
    simp [Builder.labels, hframes, hroot, Frame.labels, Event.contentsFrom]
  rw [← List.forall₂_eq_eq_eq, List.forall₂_map_left_iff, List.forall₂_map_right_iff] at hlabels
  refine hlabels.imp fun c x hlabel => ?_
  have htext : x.text = c.kept := (congrArg Label.text hlabel).symm
  rw [htext]
  exact ⟨congrArg Label.name hlabel, congrArg Label.attributes hlabel, rfl, c.sublist_kept⟩

/-- A price with indentation and with no-break spaces, none of which stands beside an element. -/
def price : Bytes := Utf8.encode "<p>\n<b>5\u00a0</b><i>&#160;<![CDATA[EUR]]></i>\n</p>"

/-- The price as it is read. -/
def priceDocument : Document :=
  { root :=
      { name := "p"
        children :=
          [.element { name := "b", children := [.text "5\u00a0"] },
            .element { name := "i", children := [.text "\u00a0", .text "EUR"] }] }
    references := [] }

theorem text_of_read_price :
    read price = .ok priceDocument ∧
      (Event.contents (events price)).map Event.Content.text = ["\n\n", "5\u00a0", "\u00a0EUR"] ∧
        List.Forall₂
          (fun (c : Event.Content) (x : Element) =>
            (c.text.toList.filter (!Text.isXmlBlank ·)).Sublist x.text.toList)
          (Event.contents (events price)) priceDocument.root.subtree := by
  have hread : read price = .ok priceDocument := by decide +kernel
  have hdrops : ∀ c ∈ Event.contents (events price), c.dropsXmlBlanks = true := by
    decide +kernel
  refine ⟨hread, by decide +kernel, ?_⟩
  exact ((List.forall₂_and_left _ _).2 ⟨hdrops, text_of_read hread⟩).imp
    fun c x ⟨hc, _, _, _, _, hiff⟩ => hiff.2 hc

/-- A price with a no-break space between its elements. -/
def dividedPrice : Bytes := Utf8.encode "<p><b>5</b>&#160;<i>EUR</i></p>"

/-- The price as it is read: the space is gone. -/
def dividedPriceDocument : Document :=
  { root :=
      { name := "p"
        children :=
          [.element { name := "b", children := [.text "5"] },
            .element { name := "i", children := [.text "EUR"] }] }
    references := [] }

/-- More is lost than the blanks of XML. -/
theorem not_sublist_text_of_read :
    ¬∀ (bs : Bytes) (doc : Document), read bs = .ok doc →
      List.Forall₂
        (fun (c : Event.Content) (x : Element) =>
          (c.text.toList.filter (!Text.isXmlBlank ·)).Sublist x.text.toList)
        (Event.contents (events bs)) doc.root.subtree := by
  intro h
  have hread : read dividedPrice = .ok dividedPriceDocument := by decide +kernel
  have hcontents : Event.contents (events dividedPrice) =
      [{ name := "p", attributes := [], pieces := ["\u00a0"], isParent := true },
        { name := "b", attributes := [], pieces := ["5"], isParent := false },
        { name := "i", attributes := [], pieces := ["EUR"], isParent := false }] := by
    decide +kernel
  have hall := h _ _ hread
  rw [hcontents] at hall
  cases hall with
  | cons hroot _ =>
    revert hroot
    decide +kernel

end Document

end Xml

end SoapMtom
