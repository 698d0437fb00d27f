import SoapMtom.Proofs.Xml.Keys
import SoapMtom.Proofs.Xml.Represented

/-!
# The declarations on the way to an element

What a prefix stands for at an element is declared on its own tag or on one around it. The tags on
the way to each element are read off the markup; every one of them is written soundly, whatever tree
it is and whatever stands in it. A prefix that is made up is new in the whole document, not only on
the way to its element. Main statement:

> `Element.sound_lineages`.
-/

namespace SoapMtom.Xml

/-! ## The ways to elements -/

/-- The tags on the way to each element of some markup, in document order; its own tag is in front,
and those of `outer` are open around all of them. -/
def Markup.lineages (outer : List (String × List (String × String))) :
    List Markup → List (List (String × List (String × String)))
  | [] => []
  | .start name attributes :: rest =>
    ((name, attributes) :: outer) :: lineages ((name, attributes) :: outer) rest
  | .empty name attributes :: rest => ((name, attributes) :: outer) :: lineages outer rest
  | .stop _ :: rest => lineages outer.tail rest
  | .text _ :: rest => lineages outer rest
  | .declaration :: rest => lineages outer rest

mutual

/-- The elements on the way to an element and to each one below it, in document order; the element
itself is in front, and those of `outer` are around it. -/
def Element.lineages (outer : List Element) : Element → List (List Element)
  | ⟨ns, name, attributes, children⟩ =>
    (⟨ns, name, attributes, children⟩ :: outer) ::
      Node.lineages (⟨ns, name, attributes, children⟩ :: outer) children

/-- The elements on the way to each element in the nodes and below them. A reference is an element
when it is written. -/
def Node.lineages (outer : List Element) : List Node → List (List Element)
  | [] => []
  | .element e :: rest => e.lineages outer ++ Node.lineages outer rest
  | .reference href :: rest => (includeElement href :: outer) :: Node.lineages outer rest
  | .text _ :: rest => Node.lineages outer rest
  | .attachment _ :: rest => Node.lineages outer rest

end

/-- An element as it is written: the default namespace and the prefixes that its tag declares, and
the names under which the element and its attributes stand. -/
structure WrittenTag where
  element : Element
  defaultNamespace : Option String
  prefixes : List (String × String)
  name : String
  attributes : List (String × String)
deriving DecidableEq, Repr

namespace WrittenTag

/-- The tag: its name and all that stands in it, declarations first. -/
def tag (w : WrittenTag) : String × List (String × String) :=
  (w.name,
    w.defaultNamespace.toList.map ("xmlns", ·) ++
      w.prefixes.map (fun e => ("xmlns:" ++ e.1, e.2)) ++ w.attributes)

/-- What is declared inside these tags, the innermost of which is in front. -/
def scope (lineage : List WrittenTag) : Scope :=
  { defaultNamespace := (lineage.findSome? (·.defaultNamespace)).getD ""
    prefixes := lineage.flatMap fun w => w.prefixes.reverse }

/-- No attribute has a name with a colon, or one that would declare the default namespace. -/
def Unambiguous (w : WrittenTag) : Prop :=
  ∀ a ∈ w.element.attributes, ':' ∉ a.name.toList ∧ (a.ns = none → a.name ≠ "xmlns")

theorem scope_cons (w : WrittenTag) (lineage : List WrittenTag) :
    scope (w :: lineage) =
      { defaultNamespace := w.defaultNamespace.getD (scope lineage).defaultNamespace
        prefixes := w.prefixes.reverse ++ (scope lineage).prefixes } := by
  rw [scope, scope, List.findSome?_cons, List.flatMap_cons]
  cases w.defaultNamespace with
  | none => rfl
  | some ns => rfl

/-- The tag is written soundly where `scope` is what is declared on it and around it, and so many
prefixes have been made up. -/
structure Sound (generated : Nat) (scope : Scope) (w : WrittenTag) : Prop where
  /-- No prefix and no namespace is declared twice. -/
  inside : scope.Sound generated
  name : scope.WritesElement w.element.ns w.element.name w.name
  /-- An element without a prefix stands in its own namespace. -/
  unprefixed : ∀ ns, w.element.ns = some ns → isPrefixed ns = false → scope.defaultNamespace = ns
  attributes : List.Forall₂ scope.Writes w.element.attributes w.attributes
  /-- No attribute is taken for a declaration, and those that differ have different keys. -/
  keys : w.Unambiguous → (w.tag.2.map Prod.fst).count "xmlns" ≤ 1 ∧
    (∀ key ∈ w.attributes.map Prod.fst, key ≠ "xmlns" ∧ ∀ p, key ≠ "xmlns:" ++ p) ∧
      ∀ x ∈ w.element.attributes.zip w.attributes, ∀ y ∈ w.element.attributes.zip w.attributes,
        (x.1.ns, x.1.name) ≠ (y.1.ns, y.1.name) → x.2.1 ≠ y.2.1

end WrittenTag

/-! ## One tag -/

private theorem colon_notMem_encode {s : String} (h : ':' ∉ s.toList) :
    (58 : UInt8) ∉ Utf8.encode s :=
  fun hmem => h (Utf8.mem_of_mem_encodeChars hmem (by decide))

private theorem xmlns_eq (p : String) : "xmlns:" ++ p = "xmlns" ++ ":" ++ p := rfl

/-- An attribute is not written like a declaration. -/
private theorem Scope.Writes.key_ne {scope : Scope} {generated : Nat} {a : Attribute}
    {written : String × String} (h : scope.Writes a written) (hs : scope.Sound generated)
    (hcolon : ':' ∉ a.name.toList) (hxmlns : a.ns = none → a.name ≠ "xmlns") :
    written.1 ≠ "xmlns" ∧ ∀ p, written.1 ≠ "xmlns:" ++ p := by
  obtain ⟨-, hname⟩ := h
  split at hname
  · next hns =>
    rw [hname]
    exact ⟨hxmlns hns, fun p => ne_prefixed (colon_notMem_encode hcolon) "xmlns" p⟩
  · obtain ⟨q, hq, hname⟩ := hname
    rw [hname]
    refine ⟨fun he => ne_prefixed (colon_notMem_of_plain plain_xmlns) q a.name he.symm,
      fun p he => hs.ne_xmlns hq ?_⟩
    exact (prefixed_injective (hs.plain hq) plain_xmlns (he.trans (xmlns_eq p))).1

/-- The keys of a tag tell attributes and declarations apart. -/
private theorem WrittenTag.keys_of_writes {scope : Scope} {generated : Nat} (w : WrittenTag)
    (hs : scope.Sound generated)
    (hw : List.Forall₂ scope.Writes w.element.attributes w.attributes) (hplain : w.Unambiguous) :
    (w.tag.2.map Prod.fst).count "xmlns" ≤ 1 ∧
      (∀ key ∈ w.attributes.map Prod.fst, key ≠ "xmlns" ∧ ∀ p, key ≠ "xmlns:" ++ p) ∧
        ∀ x ∈ w.element.attributes.zip w.attributes, ∀ y ∈ w.element.attributes.zip w.attributes,
          (x.1.ns, x.1.name) ≠ (y.1.ns, y.1.name) → x.2.1 ≠ y.2.1 := by
  have hkeys : ∀ key ∈ w.attributes.map Prod.fst, key ≠ "xmlns" ∧ ∀ p, key ≠ "xmlns:" ++ p := by
    intro key hkey
    obtain ⟨written, hwritten, rfl⟩ := List.mem_map.1 hkey
    obtain ⟨a, ha, haw⟩ := exists_of_forall₂ hw hwritten
    exact haw.key_ne hs (hplain a ha).1 (hplain a ha).2
  have hzip : ∀ x ∈ w.element.attributes.zip w.attributes,
      scope.Writes x.1 x.2 ∧ (58 : UInt8) ∉ Utf8.encode x.1.name := by
    intro x hx
    exact ⟨(List.forall₂_iff_zip.1 hw).2 hx,
      colon_notMem_encode (hplain x.1 (List.of_mem_zip hx).1).1⟩
  refine ⟨?_, hkeys, fun x hx y hy hne he => ?_⟩
  · have hattributes : (w.attributes.map Prod.fst).count "xmlns" = 0 :=
      List.count_eq_zero.2 fun hmem => (hkeys _ hmem).1 rfl
    have hprefixes : ((w.prefixes.map fun e => ("xmlns:" ++ e.1, e.2)).map Prod.fst).count "xmlns" =
        0 := by
      rw [List.count_eq_zero, List.map_map]
      intro hmem
      obtain ⟨e, -, he⟩ := List.mem_map.1 hmem
      exact ne_prefixed (colon_notMem_of_plain plain_xmlns) "xmlns" e.1 he.symm
    rw [tag, List.map_append, List.map_append, List.count_append, List.count_append, hattributes,
      hprefixes]
    cases w.defaultNamespace with
    | none => simp
    | some ns => simp
  · obtain ⟨hns, hname⟩ := (hzip x hx).1.injective hs (hzip y hy).1 (hzip x hx).2 (hzip y hy).2 he
    exact hne (by rw [hns, hname])

/-- The default namespace that a tag declares, if the one around it is another. -/
private def declaredDefault (inner outer : String) : Option String :=
  if inner = outer then none else some inner

private theorem declared_start (scope : Scope) (generated : Nat) (inner : String) :
    (TagScope.start scope generated inner).declared =
      (declaredDefault inner scope.defaultNamespace).toList.map ("xmlns", ·) := by
  unfold TagScope.start declaredDefault
  split
  · rfl
  · rfl

private theorem getD_declaredDefault (inner outer : String) :
    (declaredDefault inner outer).getD outer = inner := by
  unfold declaredDefault
  split
  · next h => exact h.symm
  · rfl

/-- The tag of an element without attachments is written soundly inside tags that are. -/
private theorem exists_writtenTag (form : AttachmentForm) {generated : Nat}
    (lineage : List WrittenTag) (hs : (WrittenTag.scope lineage).Sound generated) (e : Element)
    (hd : Node.Detached e.children) :
    let tag := openTag form (WrittenTag.scope lineage) generated e.ns e.name e.attributes e.children
    ∃ w : WrittenTag, w.element = e ∧ w.tag = (tag.name, tag.attributes) ∧
      tag.scope = WrittenTag.scope (w :: lineage) ∧
        w.Sound tag.generated (WrittenTag.scope (w :: lineage)) ∧
          MadeUp generated tag.generated (w.prefixes.map Prod.fst) := by
  intro tag
  obtain ⟨t, written, htag, hdeclares, hname, hwrites⟩ := openTag_spec (P := fun _ => True) hs form
    e.name (contentTypeToNote_of_detached form e.attributes hd)
    (fun u (_ : e.ns = some u) _ => trivial) (fun _ _ _ _ => trivial)
  have hsound := hdeclares.sound
    (TagScope.sound_start hs (isPrefixed_handedDown e.ns hs.unprefixed))
  have hdefault := hdeclares.defaultNamespace_eq
  obtain ⟨new, hprefixes, hdeclared, hcounted⟩ := hdeclares.exists_new
  rw [TagScope.start_defaultNamespace] at hdefault
  rw [TagScope.start_prefixes] at hprefixes
  rw [declared_start] at hdeclared
  rw [TagScope.start_generated] at hcounted
  let w : WrittenTag :=
    { element := e
      defaultNamespace := declaredDefault
        (handedDown e.ns (WrittenTag.scope lineage).defaultNamespace)
        (WrittenTag.scope lineage).defaultNamespace
      prefixes := new
      name := tag.name
      attributes := written }
  have hscope : tag.scope = t.scope := congrArg Tag.scope htag
  have hgenerated : tag.generated = t.generated := congrArg Tag.generated htag
  have hinside : t.scope = WrittenTag.scope (w :: lineage) := by
    rw [WrittenTag.scope_cons, getD_declaredDefault, ← hdefault, ← hprefixes]
  refine ⟨w, rfl, ?_, hscope.trans hinside, ?_, hgenerated ▸ hcounted⟩
  · rw [WrittenTag.tag, ← hdeclared]
    exact congrArg (Prod.mk tag.name) (congrArg Tag.attributes htag).symm
  · rw [hgenerated, ← hinside]
    refine ⟨hsound, hname, fun ns hns hunprefixed => ?_, hwrites, w.keys_of_writes hsound hwrites⟩
    have hns : e.ns = some ns := hns
    rw [hdefault, hns, handedDown, if_neg (Bool.eq_false_iff.1 hunprefixed)]

/-! ## A whole tree -/

/-- The prefixes that the tags in front of these lineages declare. -/
def WrittenTag.declaredPrefixes (lineages : List (List WrittenTag)) : List String :=
  (lineages.filterMap List.head?).flatMap fun w => w.prefixes.map Prod.fst

/-- Markup inside the tags of `outer` has these lineages, which are those of its trees, and all of
its tags are written soundly; it takes up the prefixes from number `m` on and up to number `n`. -/
private structure HasLineages (outer : List WrittenTag) (m n : Nat) (markup : List Markup)
    (trees : List (List Element)) (lineages : List (List WrittenTag)) : Prop where
  elements : lineages.map (List.map WrittenTag.element) = trees
  tags : ∀ rest, Markup.lineages (outer.map WrittenTag.tag) (markup ++ rest) =
    lineages.map (List.map WrittenTag.tag) ++ Markup.lineages (outer.map WrittenTag.tag) rest
  sound : ∀ lineage ∈ lineages, ∃ w around, lineage = w :: around ∧
    w.Sound n (WrittenTag.scope lineage)
  madeUp : MadeUp m n (WrittenTag.declaredPrefixes lineages)

namespace HasLineages

variable {outer : List WrittenTag} {l m n : Nat} {markup markup' : List Markup}
  {trees trees' : List (List Element)} {lineages lineages' : List (List WrittenTag)}

theorem text (outer : List WrittenTag) (n : Nat) (s : String) :
    HasLineages outer n n [.text s] [] [] :=
  ⟨rfl, fun _ => rfl, by simp, .nil n⟩

theorem nil (outer : List WrittenTag) (n : Nat) : HasLineages outer n n [] [] [] :=
  ⟨rfl, fun _ => rfl, by simp, .nil n⟩

private theorem sound_mono (h : HasLineages outer l m markup trees lineages) (hmn : m ≤ n) :
    ∀ lineage ∈ lineages, ∃ w around, lineage = w :: around ∧
      w.Sound n (WrittenTag.scope lineage) := by
  intro lineage hlineage
  obtain ⟨w, around, heq, hw⟩ := h.sound lineage hlineage
  exact ⟨w, around, heq, { hw with inside := hw.inside.mono hmn }⟩

theorem append (h : HasLineages outer l m markup trees lineages)
    (h' : HasLineages outer m n markup' trees' lineages') :
    HasLineages outer l n (markup ++ markup') (trees ++ trees') (lineages ++ lineages') where
  elements := by rw [List.map_append, h.elements, h'.elements]
  tags rest := by
    rw [List.append_assoc, h.tags, h'.tags, List.map_append, List.append_assoc]
  sound := List.forall_mem_append.2 ⟨h.sound_mono h'.madeUp.le, h'.sound⟩
  madeUp := by
    rw [WrittenTag.declaredPrefixes, List.filterMap_append, List.flatMap_append]
    exact h.madeUp.append h'.madeUp

/-- A tag with its markup inside it, closed behind it. -/
theorem around {w : WrittenTag} (hsound : w.Sound m (WrittenTag.scope (w :: outer)))
    (hmadeUp : MadeUp l m (w.prefixes.map Prod.fst))
    (h : HasLineages (w :: outer) m n markup trees lineages) :
    HasLineages outer l n (.start w.tag.1 w.tag.2 :: markup ++ [.stop w.tag.1])
      ((w.element :: outer.map WrittenTag.element) :: trees) ((w :: outer) :: lineages) where
  elements := by rw [List.map_cons, List.map_cons, h.elements]
  tags rest := by
    rw [List.append_assoc, List.cons_append, Markup.lineages]
    have htags := h.tags ([.stop w.tag.1] ++ rest)
    rw [List.map_cons] at htags
    rw [htags]
    rfl
  sound := List.forall_mem_cons.2
    ⟨⟨w, outer, rfl, { hsound with inside := hsound.inside.mono h.madeUp.le }⟩, h.sound⟩
  madeUp := hmadeUp.append h.madeUp

/-- A tag of an element without children. -/
theorem single {w : WrittenTag} (hsound : w.Sound n (WrittenTag.scope (w :: outer)))
    (hmadeUp : MadeUp m n (w.prefixes.map Prod.fst)) :
    HasLineages outer m n [.empty w.tag.1 w.tag.2]
      [w.element :: outer.map WrittenTag.element] [w :: outer] where
  elements := rfl
  tags rest := rfl
  sound := List.forall_mem_singleton.2 ⟨w, outer, rfl, hsound⟩
  madeUp := by
    have hprefixes : WrittenTag.declaredPrefixes [w :: outer] = w.prefixes.map Prod.fst :=
      List.append_nil _
    rwa [hprefixes]

end HasLineages

variable {outer : List WrittenTag} {generated : Nat}

/-- An element without children is one tag. -/
private theorem exists_lineages_childless (form : AttachmentForm)
    (hs : (WrittenTag.scope outer).Sound generated) {e : Element} (he : e.children = []) :
    ∃ lineages, HasLineages outer generated (e.write form (WrittenTag.scope outer) generated).2
      (e.write form (WrittenTag.scope outer) generated).1
      [e :: outer.map WrittenTag.element] lineages := by
  have hd : Node.Detached e.children := by simp [he, Node.Detached]
  obtain ⟨w, helement, htag, -, hsound, hmadeUp⟩ := exists_writtenTag form outer hs e hd
  have hwrite : e.write form (WrittenTag.scope outer) generated =
      ([.empty w.tag.1 w.tag.2], (openTag form (WrittenTag.scope outer) generated e.ns e.name
        e.attributes e.children).generated) := by
    rw [htag]
    obtain ⟨ns, name, attributes, children⟩ := e
    obtain rfl : children = [] := he
    rw [Element.write]
    rfl
  have hsingle := HasLineages.single hsound hmadeUp
  rw [helement] at hsingle
  rw [hwrite]
  exact ⟨_, hsingle⟩

mutual

/-- The tags of an element and of all elements below it are written soundly. -/
private theorem Element.exists_lineages (form : AttachmentForm) : ∀ (e : Element)
    (outer : List WrittenTag) (generated : Nat), (∀ x ∈ e.subtree, Node.Detached x.children) →
      (WrittenTag.scope outer).Sound generated →
      ∃ lineages, HasLineages outer generated (e.write form (WrittenTag.scope outer) generated).2
        (e.write form (WrittenTag.scope outer) generated).1
        (e.lineages (outer.map WrittenTag.element)) lineages
  | ⟨ns, name, attributes, children⟩, outer, generated, hd, hs => by
    have hchildren : Node.Detached children := hd _ (Element.mem_subtree_self _)
    cases children with
    | nil => exact exists_lineages_childless form hs rfl
    | cons n rest =>
      obtain ⟨w, helement, htag, hscope, hsound, hmadeUp⟩ :=
        exists_writtenTag form outer hs ⟨ns, name, attributes, n :: rest⟩ hchildren
      dsimp only at htag hscope hsound hmadeUp
      obtain ⟨lineages, hinside⟩ := Node.exists_lineages form (n :: rest) (w :: outer) _ hchildren
        (fun x hx => hd x (Element.mem_subtree_of_below hx)) hsound.inside
      have haround := HasLineages.around hsound hmadeUp hinside
      rw [List.map_cons, helement, htag, ← hscope] at haround
      rw [Element.write, Element.lineages]
      exact ⟨_, haround⟩

/-- The tags of all elements in the nodes and below them are written soundly. -/
private theorem Node.exists_lineages (form : AttachmentForm) : ∀ (ns : List Node)
    (outer : List WrittenTag) (generated : Nat), Node.Detached ns →
      (∀ x ∈ Node.subtrees ns, Node.Detached x.children) →
      (WrittenTag.scope outer).Sound generated →
      ∃ lineages, HasLineages outer generated
        (Node.writeAll form (WrittenTag.scope outer) generated ns).2
        (Node.writeAll form (WrittenTag.scope outer) generated ns).1
        (Node.lineages (outer.map WrittenTag.element) ns) lineages
  | [], outer, generated, _, _, _ => ⟨[], .nil outer generated⟩
  | .element e :: rest, outer, generated, hns, hd, hs => by
    rw [Node.subtrees, List.forall_mem_append] at hd
    obtain ⟨first, hfirst⟩ := Element.exists_lineages form e outer generated hd.1 hs
    obtain ⟨others, hothers⟩ := Node.exists_lineages form rest outer _ hns.of_cons hd.2
      (hs.mono hfirst.madeUp.le)
    rw [Node.writeAll, Node.lineages]
    exact ⟨_, hfirst.append hothers⟩
  | .text s :: rest, outer, generated, hns, hd, hs => by
    obtain ⟨others, hothers⟩ := Node.exists_lineages form rest outer generated hns.of_cons hd hs
    rw [Node.writeAll, Node.lineages]
    exact ⟨_, (HasLineages.text outer generated s).append hothers⟩
  | .attachment a :: rest, outer, generated, hns, hd, hs => by
    exact absurd (hns _ (List.mem_cons_self ..)) (by simp [Node.attachment?])
  | .reference href :: rest, outer, generated, hns, hd, hs => by
    obtain ⟨first, hfirst⟩ := exists_lineages_childless form hs (e := includeElement href) rfl
    obtain ⟨others, hothers⟩ := Node.exists_lineages form rest outer _ hns.of_cons hd
      (hs.mono hfirst.madeUp.le)
    rw [Node.writeAll, Node.lineages, writeReference_eq]
    exact ⟨_, hfirst.append hothers⟩

end

/-- In the markup of any tree every tag is written soundly: what its prefixes stand for is declared
on it or around it, once, and is the namespace that the tree gives. In the whole document no prefix
that is made up is declared twice, or is one that is kept for a namespace. -/
theorem Element.sound_lineages (form : AttachmentForm) (e : Element) :
    ∃ lineages : List (List WrittenTag),
      lineages.map (List.map WrittenTag.element) = (e.represented form).lineages [] ∧
        lineages.map (List.map WrittenTag.tag) = Markup.lineages [] (e.markup form) ∧
        (∀ lineage ∈ lineages, ∃ w around, lineage = w :: around ∧
          w.Sound (e.write form {} 0).2 (WrittenTag.scope lineage)) ∧
        ∀ k : Nat, (WrittenTag.declaredPrefixes lineages).count ("ns" ++ toString k) ≤ 1 ∧
          "ns" ++ toString k ∉ wellKnown.map Prod.snd := by
  have hd : ∀ x ∈ (e.represented form).subtree, Node.Detached x.children := by
    intro x hx
    obtain ⟨y, -, rfl⟩ := Element.exists_of_mem_represented form e x hx
    rw [Element.represented_eq]
    exact Node.detached_representAll form y.children
  obtain ⟨lineages, h⟩ :=
    Element.exists_lineages form (e.represented form) [] 0 hd Scope.sound_empty
  have hwrite : (e.represented form).write form (WrittenTag.scope []) 0 = e.write form {} 0 :=
    Element.write_represented form _ 0 e
  rw [hwrite] at h
  have htags := h.tags []
  rw [List.append_nil, List.map_nil, Markup.lineages, List.append_nil] at htags
  refine ⟨lineages, h.elements, htags.symm, h.sound, fun k => ⟨?_, generated_notMem_kept k⟩⟩
  refine Nat.le_trans (h.madeUp.count_le k) ?_
  split
  · exact Nat.le_refl 1
  · exact Nat.zero_le 1

/-- A prefix that was made up for one element is not made up again for the next. -/
example :
    let attributes : List Attribute := [{ ns := some "u", name := "x", value := "1" }]
    Element.markup .inlined
        { name := "r", children :=
            [.element { name := "a", attributes }, .element { name := "b", attributes }] } =
      [.start "r" [], .empty "a" [("xmlns:ns1", "u"), ("ns1:x", "1")],
        .empty "b" [("xmlns:ns2", "u"), ("ns2:x", "1")], .stop "r"] := by
  decide

end SoapMtom.Xml
