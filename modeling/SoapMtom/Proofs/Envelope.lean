import SoapMtom.Payload
import SoapMtom.Proofs.Outcome
import SoapMtom.Proofs.Xml.Agreement
import SoapMtom.Proofs.Xml.Received
import SoapMtom.Proofs.Xml.Represented

/-!
# Envelopes as trees

The tree of an envelope frames its header blocks and its payload by three elements that carry
nothing else. What is done to each element of a tree passes through these frames. Main statements:

> `Envelope.ofRoot_toElement`: the tree of an envelope describes that envelope.
>
> `Envelope.normal_of_build`: what is built has valid names and is normal.
-/

namespace SoapMtom.Envelope

open Xml (Element Node)

/-- The header blocks and the payload. -/
def parts (e : Envelope) : List Element := e.headers ++ [e.body]

/-- Every element of the header blocks and of the payload. -/
def elements (e : Envelope) : List Element := e.parts.flatMap Element.subtree

/-- The envelope with every part changed. -/
def map (f : Element → Element) (e : Envelope) : Envelope :=
  { headers := e.headers.map f, body := f e.body }

theorem mem_elements_of_mem_parts {e : Envelope} {part x : Element} (hp : part ∈ e.parts)
    (hx : x ∈ part.subtree) : x ∈ e.elements :=
  List.mem_flatMap.2 ⟨part, hp, hx⟩

theorem parts_map (f : Element → Element) (e : Envelope) : (e.map f).parts = e.parts.map f := by
  simp [parts, map]

/-- A change that leaves every part alone leaves the envelope alone. -/
theorem map_eq_self {f : Element → Element} {e : Envelope} (h : ∀ part ∈ e.parts, f part = part) :
    e.map f = e := by
  obtain ⟨headers, body⟩ := e
  have hbody := h body (List.mem_append_right _ (List.mem_singleton_self _))
  have hheaders : headers.map f = headers.map id :=
    List.map_congr_left fun part hp => h part (List.mem_append_left _ hp)
  rw [map, hbody, hheaders, List.map_id]

theorem map_congr {f g : Element → Element} {e : Envelope}
    (h : ∀ part ∈ e.parts, f part = g part) : e.map f = e.map g := by
  have hheaders : e.headers.map f = e.headers.map g :=
    List.map_congr_left fun part hp => h part (List.mem_append_left _ hp)
  rw [map, map, hheaders, h e.body (List.mem_append_right _ (List.mem_singleton_self _))]

theorem map_map (f g : Element → Element) (e : Envelope) :
    (e.map f).map g = e.map fun part => g (f part) := by
  simp [map]

/-! ## What is built -/

theorem prepare_eq_ok {e e' : Element} :
    prepare e = .ok e' ↔ e.validate = .ok () ∧ e' = e.normalize "" := by
  unfold prepare
  split
  · next h =>
    simp only [h, true_and, Except.ok.injEq]
    exact eq_comm
  · next h => simp [h]

/-- Every part of an envelope that is built has valid names and is normal. -/
theorem normal_of_build {α : Type*} [ToElement α] {entries : List HeaderEntry} {body : α}
    {e : Envelope} (h : build entries body = .ok e) :
    ∀ part ∈ e.parts, part.validate = .ok () ∧ part.normalize "" = part := by
  have hprepared : ∀ {x y : Element}, prepare x = .ok y →
      y.validate = .ok () ∧ y.normalize "" = y := by
    intro x y hxy
    obtain ⟨hvalid, rfl⟩ := prepare_eq_ok.1 hxy
    exact ⟨by rw [Element.validate_normalize]; exact hvalid, Element.normalize_normalize "" x⟩
  obtain ⟨raw, -, h⟩ := bind_eq_ok.1 h
  obtain ⟨payload, hpayload, h⟩ := bind_eq_ok.1 h
  obtain ⟨headers, hheaders, h⟩ := bind_eq_ok.1 h
  cases h
  intro part hp
  rcases List.mem_append.1 hp with hp | hp
  · obtain ⟨entry, -, hentry⟩ := exists_of_forall₂ (mapM_eq_ok.1 hheaders) hp
    exact hprepared hentry
  · rw [List.mem_singleton.1 hp]
    exact hprepared hpayload

/-! ## The frames of an envelope -/

/-- An element of the envelope itself around other elements. -/
def framing (name : String) (parts : List Element) : Element :=
  { ns := some Xml.soap11, name, children := parts.map .element }

/-- The header, if there is one, and the body. -/
def sections (e : Envelope) : List Element :=
  (if e.headers.isEmpty then [] else [framing "Header" e.headers]) ++ [framing "Body" [e.body]]

theorem toElement_eq (e : Envelope) : e.toElement = framing "Envelope" e.sections := by
  unfold toElement sections
  cases h : e.headers.isEmpty <;> rfl

theorem elements_framing (name : String) (parts : List Element) :
    (framing name parts).elements = parts := by
  rw [Element.elements, framing, List.filterMap_map]
  exact List.filterMap_some

/-- What passes through frames passes through the envelope to its parts. -/
theorem map_toElement {f : Element → Element}
    (hf : ∀ name parts, f (framing name parts) = framing name (parts.map f)) (e : Envelope) :
    f e.toElement = (e.map f).toElement := by
  have hsections : e.sections.map f = (e.map f).sections := by
    unfold sections map
    cases e.headers with
    | nil => simp [hf]
    | cons h hs => simp [hf]
  rw [toElement_eq, toElement_eq, hf, hsections]

/-- The tree of an envelope describes that envelope. -/
theorem ofRoot_toElement (e : Envelope) : ofRoot e.toElement = .ok e := by
  obtain ⟨headers, body⟩ := e
  have hns : namespace? (framing "Envelope" (sections ⟨headers, body⟩)) = some Xml.soap11 := by
    rw [namespace?, framing]
    rfl
  rw [toElement_eq, ofRoot, hns]
  dsimp only
  rw [elements_framing]
  have hbody : ∀ found : Sections,
      Sections.take Xml.soap11 found (framing "Body" [body]) = .ok { found with body := some body } := by
    intro found
    rfl
  cases headers with
  | nil => rfl
  | cons h hs =>
    have hheader : Sections.take Xml.soap11 {} (framing "Header" (h :: hs)) =
        .ok { headers := h :: hs } := by
      show Except.ok _ = _
      rw [elements_framing]
      rfl
    show (do
      let found ← [framing "Header" (h :: hs), framing "Body" [body]].foldlM
        (Sections.take Xml.soap11) {}
      _) = _
    rw [List.foldlM_cons, hheader]
    rfl

/-- What the sections have yielded lies in the tree. -/
def Sections.Inside (root : Element) (found : Sections) : Prop :=
  ∀ part ∈ found.headers ++ found.body.toList, part.subtree ⊆ root.subtree

theorem Sections.Inside.take {root part : Element} {found found' : Sections} {ns : String}
    (h : found.Inside root) (hpart : part.subtree ⊆ root.subtree)
    (htake : found.take ns part = .ok found') : found'.Inside root := by
  unfold Sections.take at htake
  split at htake
  · cases htake
    exact h
  · split at htake
    · cases htake
      intro x hx
      rw [List.append_assoc, List.mem_append, List.mem_append] at hx
      rcases hx with hx | hx | hx
      · exact h x (List.mem_append_left _ hx)
      · exact List.Subset.trans (Element.subtree_subset hx) hpart
      · exact h x (List.mem_append_right _ hx)
    · split at htake
      · split at htake
        · next payload hpayload =>
          cases htake
          intro x hx
          rcases List.mem_append.1 hx with hx | hx
          · exact h x (List.mem_append_left _ hx)
          · rw [Option.toList_some, List.mem_singleton] at hx
            rw [hx]
            exact List.Subset.trans (Element.subtree_subset (List.mem_of_mem_head? hpayload)) hpart
        · cases htake
      · cases htake
        exact h

/-- The elements that an envelope is made of lie in the tree that describes it. -/
theorem elements_subset_of_ofRoot {root : Element} {e : Envelope} (h : ofRoot root = .ok e) :
    e.elements ⊆ root.subtree := by
  unfold ofRoot at h
  split at h
  · cases h
  · next ns _ =>
    obtain ⟨found, hfound, h⟩ := bind_eq_ok.1 h
    have hinside : found.Inside root :=
      foldlM_invariant (fun part hpart found found' hinside htake =>
        hinside.take (Element.subtree_subset hpart) htake) (by simp [Sections.Inside]) hfound
    split at h
    · next payload hpayload =>
      cases h
      intro x hx
      obtain ⟨part, hpart, hx⟩ := List.mem_flatMap.1 hx
      refine hinside part ?_ hx
      rw [hpayload]
      exact hpart
    · cases h

/-- Sections with every part changed. -/
def Sections.map (f : Element → Element) (found : Sections) : Sections :=
  { headers := found.headers.map f, body := found.body.map f }

/-- A change that leaves names and the order of elements alone changes the parts of the envelope
only. -/
theorem ofRoot_map {f : Element → Element}
    (hf : ∀ x : Element, (f x).ns = x.ns ∧ (f x).name = x.name ∧
      (f x).elements = x.elements.map f) (root : Element) :
    ofRoot (f root) = (ofRoot root).map (Envelope.map f) := by
  have htake : ∀ (ns : String) (found : Sections) (part : Element),
      Sections.take ns (found.map f) (f part) = (found.take ns part).map (Sections.map f) := by
    intro ns found part
    obtain ⟨hns, hname, helements⟩ := hf part
    have hnone : (found.map f).body.isNone = found.body.isNone := by
      rw [Sections.map, Option.isNone_map]
    unfold Sections.take
    rw [hns, hname, helements, hnone, List.head?_map]
    split
    · rfl
    · split
      · simp [Sections.map, Except.map]
      · split
        · cases part.elements.head? <;> rfl
        · rfl
  have hfold : ∀ (ns : String) (parts : List Element) (found : Sections),
      (parts.map f).foldlM (Sections.take ns) (found.map f) =
        (parts.foldlM (Sections.take ns) found).map (Sections.map f) := by
    intro ns parts
    induction parts with
    | nil => exact fun _ => rfl
    | cons part parts ih =>
      intro found
      rw [List.map_cons, List.foldlM_cons, List.foldlM_cons, htake]
      cases found.take ns part with
      | error cause => rfl
      | ok found' => exact ih found'
  obtain ⟨hns, hname, helements⟩ := hf root
  have hroot : namespace? (f root) = namespace? root := by
    rw [namespace?, namespace?, hns, hname]
  unfold ofRoot
  rw [hroot, hname, helements]
  cases namespace? root with
  | none => rfl
  | some ns =>
    have hfound : (root.elements.map f).foldlM (Sections.take ns) {} =
        (root.elements.foldlM (Sections.take ns) {}).map (Sections.map f) :=
      hfold ns root.elements {}
    dsimp only
    rw [hfound]
    cases root.elements.foldlM (Sections.take ns) {} with
    | error cause => rfl
    | ok found =>
      obtain ⟨headers, body⟩ := found
      cases body <;> rfl

/-- Every element of the tree belongs to a part of the envelope or frames others. -/
theorem mem_subtree_toElement {e : Envelope} {x : Element} (h : x ∈ e.toElement.subtree) :
    (∃ name ∈ ["Envelope", "Header", "Body"], ∃ parts, x = framing name parts) ∨
      x ∈ e.elements := by
  have hframing : ∀ {name : String} {parts : List Element}, x ∈ (framing name parts).subtree →
      x = framing name parts ∨ ∃ part ∈ parts, x ∈ part.subtree := by
    intro name parts hx
    rw [Element.subtree_eq, List.mem_cons] at hx
    rcases hx with hx | hx
    · exact .inl hx
    · obtain ⟨part, hpart, hx⟩ := Node.mem_subtrees.1 hx
      obtain ⟨part', hpart', he⟩ := List.mem_map.1 hpart
      obtain rfl := Node.element.inj he
      exact .inr ⟨part', hpart', hx⟩
  rw [toElement_eq] at h
  rcases hframing h with rfl | ⟨part, hpart, hx⟩
  · exact .inl ⟨"Envelope", by simp, _, rfl⟩
  rcases List.mem_append.1 hpart with hpart | hpart
  · split at hpart
    · cases hpart
    · rw [List.mem_singleton] at hpart
      subst hpart
      rcases hframing hx with rfl | ⟨header, hheader, hx⟩
      · exact .inl ⟨"Header", by simp, _, rfl⟩
      · exact .inr (mem_elements_of_mem_parts (List.mem_append_left _ hheader) hx)
  · rw [List.mem_singleton] at hpart
    subst hpart
    rcases hframing hx with rfl | ⟨payload, hpayload, hx⟩
    · exact .inl ⟨"Body", by simp, _, rfl⟩
    · rw [List.mem_singleton] at hpayload
      subst hpayload
      exact .inr (mem_elements_of_mem_parts (List.mem_append_right _ (List.mem_singleton_self _)) hx)

/-! ## What passes through the frames -/

theorem represented_framing (form : Xml.AttachmentForm) (name : String) (parts : List Element) :
    (framing name parts).represented form = framing name (parts.map (·.represented form)) := by
  have hchildren : Node.representAll form (parts.map .element) =
      (parts.map (·.represented form)).map .element := by
    induction parts with
    | nil => rfl
    | cons part parts ih => rw [List.map_cons, Node.representAll, ih]; rfl
  have hdetached : Node.Detached (parts.map .element) := by
    intro n hn
    obtain ⟨part, -, rfl⟩ := List.mem_map.1 hn
    rfl
  rw [framing, Element.represented, hchildren, Xml.contentTypeNote,
    Xml.contentTypeToNote_of_detached form _ hdetached]
  rfl

/-- The namespace of the frames is written as it is. -/
theorem escaped_framing (name : String) (parts : List Element) :
    (framing name parts).escaped = framing name (parts.map Element.escaped) := by
  have hchildren : Node.escapedAll (parts.map .element) =
      (parts.map Element.escaped).map .element := by
    induction parts with
    | nil => rfl
    | cons part parts ih => rw [List.map_cons, Node.escapedAll, ih]; rfl
  have hns : Xml.escape Xml.soap11 = Xml.soap11 :=
    Xml.escape_of_isClean (Xml.isClean_reserved _ (by simp))
  rw [framing, Element.escaped, hchildren, Option.map_some, hns]
  rfl

/-- There is no text between the parts. -/
theorem tidy_framing (name : String) (parts : List Element) : (framing name parts).Tidy := by
  refine Element.tidy_of_no_text fun n hn => ?_
  obtain ⟨part, -, rfl⟩ := List.mem_map.1 hn
  rfl

theorem received_framing (name : String) (parts : List Element) :
    (framing name parts).received "" = framing name (parts.map (·.received "")) := by
  have hchildren : Node.receivedEach "" (parts.map .element) =
      (parts.map (·.received "")).map .element := by
    induction parts with
    | nil => rfl
    | cons part parts ih => rw [List.map_cons, Node.receivedEach, ih]; rfl
  have htext : ∀ s, Node.text s ∉ (parts.map (·.received "")).map Node.element := by
    intro s hs
    obtain ⟨part, -, he⟩ := List.mem_map.1 hs
    cases he
  have hns : Xml.isPrefixed Xml.soap11 = true := by decide
  rw [framing, Element.received, Xml.ownNamespace, Xml.handedDown, hns]
  simp only [if_true, Bool.not_true, Bool.false_and, Bool.false_eq_true, if_false]
  have htidy : (framing name (parts.map (·.received ""))).Tidy := tidy_framing _ _
  have hseparated : Node.Separated ((parts.map (·.received "")).map Node.element) :=
    Node.separated_of (fun s hs => absurd hs (htext s)) htidy.apart
  have hkept : Xml.dropIndentation ((parts.map (·.received "")).map Node.element) =
      (parts.map (·.received "")).map Node.element :=
    Xml.dropIndentation_of_alone htidy.alone
  rw [hchildren, Node.joinTexts_of_separated hseparated, hkept]
  rfl

/-- The frames are written as they are. -/
theorem writable_framing {name : String} (h : name ∈ ["Envelope", "Header", "Body"])
    (parts : List Element) :
    (framing name parts).Writable ∧ Xml.Builder.isInclude (framing name parts) = false ∧
      ∀ ns ∈ (framing name parts).namespaces, Xml.IsClean ns := by
  have hnames : ∀ n ∈ ["Envelope", "Header", "Body"],
      Xml.isName n = true ∧ n ≠ "Include" := by decide
  obtain ⟨hname, hne⟩ := hnames name h
  refine ⟨⟨Xml.plain_of_isName hname, by simp [framing], by simp [framing], by simp [framing]⟩,
    ?_, fun ns hns => ?_⟩
  · rw [Xml.Builder.isInclude, framing]
    simp [hne]
  · obtain rfl : ns = Xml.soap11 := by simpa [Element.namespaces, framing] using hns
    exact Xml.isClean_reserved _ (by simp)

end SoapMtom.Envelope
