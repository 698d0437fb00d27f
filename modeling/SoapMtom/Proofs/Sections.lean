import SoapMtom.Proofs.Envelope

/-!
# Sections after the body

Once an envelope has a body no header counts any more, but a further body does: it takes the place
of the one before, and if it is empty there is no envelope at all. Main statements:

> `Envelope.foldlM_take_of_body`: what sections make of an envelope that has its body already.
>
> `Envelope.ofRoot_of_later_nodes`: nodes after the first body make no difference exactly if every
> body among them has a payload and the last body of all has the payload that counts without them.
-/

namespace SoapMtom.Envelope

open Xml (Element Node)

/-! ## Bodies -/

/-- The bodies among sections: those of that name in the namespace of the envelope. -/
def bodiesOf (ns : String) (parts : List Element) : List Element :=
  parts.filter fun part => part.ns = some ns && part.name = "Body"

/-- Whether each body among sections has a payload. -/
def allLoaded (ns : String) (parts : List Element) : Bool :=
  (bodiesOf ns parts).all fun part => !part.elements.isEmpty

/-- The payload of the last body among sections that has one. -/
def lastPayload? (ns : String) (parts : List Element) : Option Element :=
  ((bodiesOf ns parts).filterMap (·.elements.head?)).getLast?

theorem allLoaded_append (ns : String) (parts later : List Element) :
    allLoaded ns (parts ++ later) = (allLoaded ns parts && allLoaded ns later) := by
  rw [allLoaded, bodiesOf, List.filter_append, List.all_append]
  rfl

/-- Later payloads count before earlier ones. -/
theorem lastPayload?_append (ns : String) (parts later : List Element) :
    lastPayload? ns (parts ++ later) = (lastPayload? ns later).or (lastPayload? ns parts) := by
  rw [lastPayload?, bodiesOf, List.filter_append, List.filterMap_append, List.getLast?_append]
  rfl

/-! ## Sections one after another -/

/-- What one section makes of an envelope that has its body already. -/
theorem take_of_body {found : Sections} (h : found.body.isSome = true) (ns : String)
    (part : Element) :
    found.take ns part =
      if allLoaded ns [part] then
        .ok { found with body := (lastPayload? ns [part]).or found.body }
      else .error .emptyBody := by
  obtain ⟨body, hfound⟩ := Option.isSome_iff_exists.1 h
  unfold Sections.take
  by_cases hbody : part.ns = some ns ∧ part.name = "Body"
  · have hbodies : bodiesOf ns [part] = [part] := by simp [bodiesOf, hbody]
    rw [if_neg (by simp [hbody.1]), if_neg (by simp [hbody.2]), if_pos hbody.2, allLoaded,
      lastPayload?, hbodies]
    cases hpayload : part.elements <;> simp [hpayload]
  · have hbodies : bodiesOf ns [part] = [] := by
      rw [bodiesOf, List.filter_eq_nil_iff]
      simpa using hbody
    have hloaded : allLoaded ns [part] = true := by rw [allLoaded, hbodies]; rfl
    have hpayload : lastPayload? ns [part] = none := by rw [lastPayload?, hbodies]; rfl
    rw [if_pos hloaded, hpayload, Option.none_or]
    split
    · rfl
    · next hns =>
      rw [Decidable.not_not] at hns
      rw [if_neg (by simp [hfound]), if_neg fun hname => hbody ⟨hns, hname⟩]

/-- What sections make of an envelope that has its body already: no header is added, and the last
payload counts. -/
theorem foldlM_take_of_body {found : Sections} (h : found.body.isSome = true) (ns : String)
    (parts : List Element) :
    parts.foldlM (Sections.take ns) found =
      if allLoaded ns parts then
        .ok { found with body := (lastPayload? ns parts).or found.body }
      else .error .emptyBody := by
  induction parts generalizing found with
  | nil => rfl
  | cons part parts ih =>
    have hloaded := allLoaded_append ns [part] parts
    have hlast := lastPayload?_append ns [part] parts
    rw [List.singleton_append] at hloaded hlast
    rw [List.foldlM_cons, take_of_body h, hloaded, hlast]
    cases allLoaded ns [part] with
    | false => rfl
    | true =>
      have hnext : ((lastPayload? ns [part]).or found.body).isSome = true := by
        rw [Option.isSome_or, h, Bool.or_true]
      show parts.foldlM (Sections.take ns) _ = _
      rw [ih hnext, Option.or_assoc, Bool.true_and]

/-- After sections with a body among them the envelope has a body. -/
theorem isSome_body_of_foldlM {ns : String} {parts : List Element} {found found' : Sections}
    (hbodies : bodiesOf ns parts ≠ []) (h : parts.foldlM (Sections.take ns) found = .ok found') :
    found'.body.isSome = true := by
  obtain ⟨part, hpart⟩ := List.exists_mem_of_ne_nil _ hbodies
  obtain ⟨hmem, hbody⟩ := List.mem_filter.1 hpart
  rw [Bool.and_eq_true, decide_eq_true_eq, decide_eq_true_eq] at hbody
  obtain ⟨front, back, rfl⟩ := List.append_of_mem hmem
  rw [List.foldlM_append] at h
  obtain ⟨middle, -, h⟩ := bind_eq_ok.1 h
  rw [List.foldlM_cons] at h
  obtain ⟨complete, htake, h⟩ := bind_eq_ok.1 h
  have hcomplete : complete.body.isSome = true := by
    unfold Sections.take at htake
    rw [if_neg (by simp [hbody.1]), if_neg (by simp [hbody.2]), if_pos hbody.2] at htake
    split at htake
    · cases htake
      rfl
    · cases htake
  rw [foldlM_take_of_body hcomplete] at h
  split at h
  · cases h
    rw [Option.isSome_or, hcomplete, Bool.or_true]
  · cases h

/-! ## Nodes after the first body -/

/-- The tree of an envelope has the namespace of an envelope, whatever its nodes are. -/
theorem envelope_namespace_of_ofRoot {root : Element} {ns : String} {e : Envelope}
    (hns : root.ns = some ns) (h : ofRoot root = .ok e) : namespace? root = some ns := by
  cases hname : namespace? root with
  | none =>
    rw [ofRoot, hname] at h
    cases h
  | some ns' =>
    obtain ⟨hown, -⟩ := Option.filter_eq_some_iff.1 hname
    rw [← hown, hns]

/-- Once there is a body the headers are settled, and what is still to come decides only whether
there is a later payload. -/
theorem ofRoot_after_body {root : Element} {ns : String} {before rest : List Node} {e : Envelope}
    (hns : root.ns = some ns) (hbefore : bodiesOf ns (before.filterMap Node.element?) ≠ [])
    (h : ofRoot { root with children := before ++ rest } = .ok e) :
    ∃ body : Element, ∀ more : List Node,
      ofRoot { root with children := before ++ more } =
        if allLoaded ns (more.filterMap Node.element?) then
          .ok
            { headers := e.headers
              body := (lastPayload? ns (more.filterMap Node.element?)).getD body }
        else .error .emptyBody := by
  have hwhole : namespace? { root with children := before ++ rest } = some ns :=
    envelope_namespace_of_ofRoot hns h
  have hname : ∀ children : List Node, namespace? { root with children } = some ns := fun _ => hwhole
  have hfold : ∀ more : List Node,
      (Element.elements { root with children := before ++ more }).foldlM (Sections.take ns) {} =
        (before.filterMap Node.element?).foldlM (Sections.take ns) {} >>=
          (more.filterMap Node.element?).foldlM (Sections.take ns) := fun more => by
    rw [Element.elements, List.filterMap_append, List.foldlM_append]
  rw [ofRoot, hname] at h
  dsimp only at h
  rw [hfold] at h
  obtain ⟨complete, hcomplete, h⟩ := bind_eq_ok.1 h
  obtain ⟨found, hfound, hrest⟩ := bind_eq_ok.1 hcomplete
  have hsome := isSome_body_of_foldlM hbefore hfound
  obtain ⟨body, hbody⟩ := Option.isSome_iff_exists.1 hsome
  have hheaders : found.headers = e.headers := by
    rw [foldlM_take_of_body hsome] at hrest
    split at hrest
    · cases hrest
      split at h
      · cases h
        rfl
      · cases h
    · cases hrest
  refine ⟨body, fun more => ?_⟩
  rw [ofRoot, hname]
  dsimp only
  rw [hfold, hfound]
  show (do let found ← (more.filterMap Node.element?).foldlM (Sections.take ns) found; _) = _
  rw [foldlM_take_of_body hsome, hbody, hheaders]
  split
  · cases lastPayload? ns (more.filterMap Node.element?) <;> rfl
  · rfl

/-- Nodes that come after the first body of an envelope. An empty body among them leaves no
envelope. Otherwise the headers stay and the last body of all has the payload, so the envelope is the
same exactly if it had this payload before. -/
theorem ofRoot_of_later_nodes {root : Element} {ns : String} {before later after : List Node}
    {e : Envelope} (hns : root.ns = some ns)
    (hbefore : bodiesOf ns (before.filterMap Node.element?) ≠ [])
    (h : ofRoot { root with children := before ++ after } = .ok e) :
    let last := lastPayload? ns ((later ++ after).filterMap Node.element?)
    ofRoot { root with children := before ++ later ++ after } =
        (if allLoaded ns (later.filterMap Node.element?) then
          .ok { headers := e.headers, body := last.getD e.body }
        else .error .emptyBody) ∧
      (ofRoot { root with children := before ++ later ++ after } = .ok e ↔
        allLoaded ns (later.filterMap Node.element?) = true ∧ ∀ p ∈ last, p = e.body) := by
  intro last
  obtain ⟨headers, payload⟩ := e
  obtain ⟨body, hmore⟩ := ofRoot_after_body hns hbefore h
  have hresult : ofRoot { root with children := before ++ later ++ after } =
      if allLoaded ns (later.filterMap Node.element?) then
        .ok { headers, body := last.getD payload }
      else .error .emptyBody := by
    rw [hmore after] at h
    split at h
    · next hafter =>
      obtain rfl := (Envelope.mk.inj (Except.ok.inj h)).2
      -- without a later body the payload is the one of the bodies before
      have hlast : last.getD body =
          last.getD ((lastPayload? ns (after.filterMap Node.element?)).getD body) := by
        have happend : last = (lastPayload? ns (after.filterMap Node.element?)).or
            (lastPayload? ns (later.filterMap Node.element?)) := by
          rw [← lastPayload?_append, ← List.filterMap_append]
        rw [happend]
        cases lastPayload? ns (after.filterMap Node.element?) <;> rfl
      rw [List.append_assoc, hmore, ← hlast, List.filterMap_append, allLoaded_append, hafter,
        Bool.and_true, ← List.filterMap_append]
    · cases h
  refine ⟨hresult, ?_⟩
  rw [hresult]
  split
  · next hloaded =>
    rw [hloaded, Except.ok.injEq, Envelope.mk.injEq]
    cases last <;> simp
  · next hloaded => simp [hloaded]

/-- A section of an envelope of SOAP 1.2. -/
def section12 (name : String) (parts : List Element) : Node :=
  .element { ns := some Xml.soap12, name, children := parts.map .element }

/-- An envelope of SOAP 1.2 with these nodes. -/
def tree12 (children : List Node) : Element :=
  { ns := some Xml.soap12, name := "Envelope", children }

/-- The sections of an order up to its first body. -/
def orderSections : List Node := [section12 "Header" [.named "id"], section12 "Body" [.named "order"]]

/-- A section that gives the order again. -/
def repeatedOrder : List Node := [section12 "Body" [.named "order", .named "note"]]

/-- Sections between the two that make no difference. -/
def lateSections : List Node :=
  [section12 "Header" [.named "late"], section12 "Body" [.named "offer"], .text "\n",
    .element (.qualified Xml.soap11 "Body")]

/-- The order as it is read. -/
def orderEnvelope : Envelope := { headers := [.named "id"], body := .named "order" }

theorem ofRoot_of_lateSections :
    ofRoot (tree12 (orderSections ++ repeatedOrder)) = .ok orderEnvelope ∧
      ofRoot (tree12 (orderSections ++ lateSections ++ repeatedOrder)) = .ok orderEnvelope := by
  have hread : ofRoot (tree12 (orderSections ++ repeatedOrder)) = .ok orderEnvelope := by decide
  have hlate := @ofRoot_of_later_nodes (tree12 []) Xml.soap12 orderSections lateSections
    repeatedOrder orderEnvelope rfl (by decide) hread
  exact ⟨hread, hlate.2.2 (by decide)⟩

/-- A second body is not passed over: its payload takes the place of the first. -/
theorem not_ofRoot_of_later_nodes :
    ¬∀ (root : Element) (ns : String) (before later : List Node) (e : Envelope),
      root.ns = some ns → bodiesOf ns (before.filterMap Node.element?) ≠ [] →
        ofRoot { root with children := before } = .ok e →
          ofRoot { root with children := before ++ later } = .ok e := by
  intro h
  have hsame := h (.qualified Xml.soap11 "Envelope") Xml.soap11
    [.element ((Element.qualified Xml.soap11 "Body").withChild (.qualified "urn:a" "First"))]
    [.element ((Element.qualified Xml.soap11 "Body").withChild (.qualified "urn:a" "Second"))]
    { headers := [], body := .qualified "urn:a" "First" } rfl (by decide) (by decide)
  revert hsame
  decide

end SoapMtom.Envelope
