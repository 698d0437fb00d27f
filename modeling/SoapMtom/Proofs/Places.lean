import Mathlib.Data.List.Forall2
import Mathlib.Data.Set.Card
import SoapMtom.Proofs.Attachments

/-!
# The places of attachments

A place in a tree says which child node to go to, and which of its children, and so on down. Places
are ordered like words in a dictionary, and that is document order. What the traversal of an
envelope lists is said by places alone. Main statements:

> `Node.mem_located`: the traversal finds an attachment at a place exactly if it stands there.
>
> `Envelope.listsFirst_attachments`: of every content id the attachment at the first place is
> listed, in the order of these places.
>
> `Envelope.ncard_contentIds`: there are as many of them as content ids.
-/

namespace SoapMtom

/-- The way to a node: which of the nodes, which of its children, and so on. -/
abbrev Place := List Nat

/-- The same place behind one more node. -/
def Place.next : Place → Place
  | [] => []
  | i :: place => (i + 1) :: place

theorem Place.next_lt {p q : Place} (h : p < q) : p.next < q.next := by
  cases p with
  | nil =>
    cases q with
    | nil => exact h
    | cons j q => exact List.nil_lt_cons _ _
  | cons i p =>
    cases q with
    | nil => exact absurd h (List.not_lt_nil _)
    | cons j q =>
      rw [List.cons_lt_cons_iff] at h
      rw [Place.next, Place.next, List.cons_lt_cons_iff, Nat.add_lt_add_iff_right,
        Nat.add_right_cancel_iff]
      exact h

namespace Xml

/-- The node at a place. -/
def Node.nodeAt? : List Node → Place → Option Node
  | _, [] => none
  | nodes, [i] => nodes[i]?
  | nodes, i :: j :: place =>
    match nodes[i]? with
    | some (.element e) => nodeAt? e.children (j :: place)
    | _ => none

mutual

/-- The attachments below an element with their places. -/
def Element.located : Element → List (Place × Attachment)
  | ⟨_, _, _, children⟩ => Node.located children

/-- The attachments in the nodes and below them with their places, in document order. -/
def Node.located : List Node → List (Place × Attachment)
  | [] => []
  | .element e :: rest =>
    e.located.map (Prod.map (0 :: ·) id) ++ (Node.located rest).map (Prod.map Place.next id)
  | .attachment a :: rest => ([0], a) :: (Node.located rest).map (Prod.map Place.next id)
  | .text _ :: rest => (Node.located rest).map (Prod.map Place.next id)
  | .reference _ :: rest => (Node.located rest).map (Prod.map Place.next id)

end

mutual

theorem Element.map_located : ∀ e : Element, e.located.map Prod.snd = e.attachments
  | ⟨_, _, _, children⟩ => by rw [Element.located, Element.attachments, Node.map_located children]

/-- These are the attachments that the traversal lists. -/
theorem Node.map_located : ∀ nodes : List Node,
    (Node.located nodes).map Prod.snd = Node.attachmentsOf nodes
  | [] => rfl
  | .element e :: rest => by
    rw [Node.located, Node.attachmentsOf, List.map_append, List.map_map, List.map_map,
      ← Element.map_located e, ← Node.map_located rest]
    rfl
  | .attachment a :: rest => by
    rw [Node.located, Node.attachmentsOf, List.map_cons, List.map_map, ← Node.map_located rest]
    rfl
  | .text _ :: rest => by
    rw [Node.located, Node.attachmentsOf, List.map_map, ← Node.map_located rest]
    rfl
  | .reference _ :: rest => by
    rw [Node.located, Node.attachmentsOf, List.map_map, ← Node.map_located rest]
    rfl

end

namespace Node

variable {n m : Node} {nodes : List Node} {p : Place}

theorem nodeAt?_next : nodeAt? (n :: nodes) p.next = nodeAt? nodes p := by
  match p with
  | [] => rfl
  | [i] => rfl
  | i :: j :: place => rfl

/-- A node stands behind the first one, is that one, or stands in it. -/
theorem nodeAt?_cons_eq_some : nodeAt? (n :: nodes) p = some m ↔
    (∃ q, nodeAt? nodes q = some m ∧ q.next = p) ∨ p = [0] ∧ n = m ∨
      ∃ e q, n = .element e ∧ nodeAt? e.children q = some m ∧ 0 :: q = p := by
  constructor
  · intro h
    match p with
    | [] => cases h
    | (i + 1) :: place => exact .inl ⟨i :: place, by rw [← h, ← nodeAt?_next (n := n)]; rfl, rfl⟩
    | [0] => exact .inr (.inl ⟨rfl, Option.some.inj h⟩)
    | 0 :: j :: place =>
      cases n with
      | element e => exact .inr (.inr ⟨e, j :: place, rfl, h, rfl⟩)
      | text _ | attachment _ | reference _ => cases h
  · rintro (⟨q, hq, rfl⟩ | ⟨rfl, rfl⟩ | ⟨e, q, rfl, hq, rfl⟩)
    · rwa [nodeAt?_next]
    · rfl
    · cases q with
      | nil => cases hq
      | cons j place => exact hq

end Node

mutual

theorem Element.mem_located {a : Attachment} {p : Place} : ∀ e : Element,
    (p, a) ∈ e.located ↔ Node.nodeAt? e.children p = some (.attachment a)
  | ⟨_, _, _, children⟩ => by rw [Element.located, Node.mem_located children]

/-- An attachment is found at a place exactly if it stands there. -/
theorem Node.mem_located {a : Attachment} {p : Place} : ∀ nodes : List Node,
    (p, a) ∈ Node.located nodes ↔ Node.nodeAt? nodes p = some (.attachment a)
  | [] => by
    match p with
    | [] | [i] | i :: j :: place => simp [Node.located, Node.nodeAt?]
  | .element e :: rest => by
    rw [Node.located, Node.nodeAt?_cons_eq_some]
    simp [Node.mem_located rest, Element.mem_located e, or_comm]
  | .attachment b :: rest => by
    rw [Node.located, Node.nodeAt?_cons_eq_some]
    simp [Node.mem_located rest, or_comm, eq_comm]
  | .text _ :: rest => by
    rw [Node.located, Node.nodeAt?_cons_eq_some]
    simp [Node.mem_located rest]
  | .reference _ :: rest => by
    rw [Node.located, Node.nodeAt?_cons_eq_some]
    simp [Node.mem_located rest]

end

/-- The places behind a node are in order, and all of them are behind what is in the node. -/
private theorem Node.sorted_next {nodes : List Node}
    (h : (Node.located nodes).Pairwise fun x y => x.1 < y.1) :
    ((Node.located nodes).map (Prod.map Place.next id)).Pairwise (fun x y => x.1 < y.1) ∧
      ∀ p, ∀ x ∈ (Node.located nodes).map (Prod.map Place.next id), 0 :: p < x.1 := by
  constructor
  · rw [List.pairwise_map]
    exact h.imp Place.next_lt
  · intro p x hx
    obtain ⟨⟨q, a⟩, hq, rfl⟩ := List.mem_map.1 hx
    rw [Node.mem_located] at hq
    cases q with
    | nil => cases hq
    | cons i q => exact List.cons_lt_cons_iff.2 (.inl (Nat.succ_pos i))

mutual

theorem Element.sorted_located : ∀ e : Element, e.located.Pairwise fun x y => x.1 < y.1
  | ⟨_, _, _, children⟩ => by
    rw [Element.located]
    exact Node.sorted_located children

/-- Attachments are found in the order of their places. -/
theorem Node.sorted_located : ∀ nodes : List Node,
    (Node.located nodes).Pairwise fun x y => x.1 < y.1
  | [] => .nil
  | .element e :: rest => by
    obtain ⟨hsorted, hbehind⟩ := Node.sorted_next (Node.sorted_located rest)
    rw [Node.located, List.pairwise_append, List.pairwise_map]
    refine ⟨(Element.sorted_located e).imp List.cons_lt_cons_self.2, hsorted, fun x hx y hy => ?_⟩
    obtain ⟨x, -, rfl⟩ := List.mem_map.1 hx
    exact hbehind x.1 y hy
  | .attachment b :: rest => by
    obtain ⟨hsorted, hbehind⟩ := Node.sorted_next (Node.sorted_located rest)
    rw [Node.located, List.pairwise_cons]
    exact ⟨hbehind [], hsorted⟩
  | .text _ :: rest => (Node.sorted_next (Node.sorted_located rest)).1
  | .reference _ :: rest => (Node.sorted_next (Node.sorted_located rest)).1

end

end Xml

namespace Envelope

open Xml (Element Node)

/-- The node at a place in the header blocks and the payload, one behind another. -/
def nodeAt? (e : Envelope) (place : Place) : Option Node :=
  Node.nodeAt? ((e.headers ++ [e.body]).map .element) place

/-- The attachment stands there, and none that stands further in front has its content id. -/
structure IsFirst (e : Envelope) (place : Place) (a : Attachment) : Prop where
  held : e.nodeAt? place = some (.attachment a)
  first : ∀ place' a', e.nodeAt? place' = some (.attachment a') → a'.contentId = a.contentId →
    ¬place' < place

/-- The first attachment of every content id, in the order of their places. -/
def ListsFirst (e : Envelope) (l : List Attachment) : Prop :=
  (∃ places : List Place, places.Pairwise (· < ·) ∧ List.Forall₂ e.IsFirst places l) ∧
    ∀ place a, e.nodeAt? place = some (.attachment a) → ∃ b ∈ l, b.contentId = a.contentId

/-- Out of attachments with their places the first of every content id that was not found before
are kept. -/
private theorem exists_distinctById (found : List Attachment) {l : List (Place × Attachment)}
    (hsorted : l.Pairwise fun x y => x.1 < y.1) :
    ∃ kept : List (Place × Attachment),
      distinctById found (l.map Prod.snd) = found ++ kept.map Prod.snd ∧ kept.Sublist l ∧
        ∀ x ∈ kept, (∀ b ∈ found, b.contentId ≠ x.2.contentId) ∧
          ∀ y ∈ l, y.2.contentId = x.2.contentId → ¬y.1 < x.1 := by
  induction l generalizing found with
  | nil => exact ⟨[], (List.append_nil found).symm, .slnil, by simp⟩
  | cons y l ih =>
    rw [List.pairwise_cons] at hsorted
    obtain ⟨hbehind, hsorted⟩ := hsorted
    rw [List.map_cons, distinctById]
    split
    · next hany =>
      obtain ⟨b, hb, hby⟩ := List.any_eq_true.1 hany
      rw [decide_eq_true_eq] at hby
      obtain ⟨kept, hkept, hsub, hfirst⟩ := ih found hsorted
      refine ⟨kept, hkept, hsub.cons _, fun x hx => ⟨(hfirst x hx).1, ?_⟩⟩
      rw [List.forall_mem_cons]
      exact ⟨fun hid => absurd (hby.trans hid) ((hfirst x hx).1 b hb), (hfirst x hx).2⟩
    · next hany =>
      have hnew : ∀ b ∈ found, b.contentId ≠ y.2.contentId := by simpa using hany
      obtain ⟨kept, hkept, hsub, hfirst⟩ := ih (found ++ [y.2]) hsorted
      refine ⟨y :: kept, by rw [hkept]; simp, hsub.cons_cons _, ?_⟩
      rw [List.forall_mem_cons]
      refine ⟨⟨hnew, ?_⟩, fun x hx => ?_⟩
      · rw [List.forall_mem_cons]
        exact ⟨fun _ => List.lt_irrefl _, fun z hz _ => List.lt_asymm (hbehind z hz)⟩
      · obtain ⟨hfound, hlater⟩ := hfirst x hx
        rw [List.forall_mem_append, List.forall_mem_singleton] at hfound
        rw [List.forall_mem_cons]
        exact ⟨hfound.1, fun hid => absurd hid hfound.2, hlater⟩

/-- The attachments with their places are those that are held. -/
private theorem map_located (e : Envelope) :
    (Node.located ((e.headers ++ [e.body]).map .element)).map Prod.snd = e.held := by
  rw [Node.map_located, held, parts]
  induction e.headers ++ [e.body] with
  | nil => rfl
  | cons x l ih => rw [List.map_cons, Node.attachmentsOf, ih, List.flatMap_cons]

/-- What stands at a place is held. -/
theorem mem_held_of_nodeAt? {e : Envelope} {place : Place} {a : Attachment}
    (h : e.nodeAt? place = some (.attachment a)) : a ∈ e.held := by
  rw [← map_located]
  exact List.mem_map.2 ⟨(place, a), (Node.mem_located _).2 h, rfl⟩

theorem listsFirst_attachments (e : Envelope) : e.ListsFirst e.attachments := by
  obtain ⟨kept, hkept, hsub, hfirst⟩ := exists_distinctById []
    (Node.sorted_located ((e.headers ++ [e.body]).map .element))
  have hattachments : e.attachments = kept.map Prod.snd := by
    rw [attachments, ← parts, ← held, ← map_located, hkept, List.nil_append]
  refine ⟨⟨kept.map Prod.fst, ?_, ?_⟩, fun place a h =>
    exists_mem_attachments (mem_held_of_nodeAt? h)⟩
  · rw [List.pairwise_map]
    exact (Node.sorted_located _).sublist hsub
  · rw [hattachments, List.forall₂_map_left_iff, List.forall₂_map_right_iff, List.forall₂_same]
    intro x hx
    exact ⟨(Node.mem_located _).1 (hsub.subset hx), fun place a h hid =>
      (hfirst x hx).2 (place, a) ((Node.mem_located _).2 h) hid⟩

/-- The content ids that attachments in the trees have. -/
def contentIds (e : Envelope) : Set String :=
  {id | ∃ place a, e.nodeAt? place = some (.attachment a) ∧ a.contentId = id}

/-- There are as many attachments as content ids. -/
theorem ncard_contentIds (e : Envelope) : e.contentIds.ncard = e.attachments.length := by
  have hids : e.contentIds = ((e.attachments.map (·.contentId)).toFinset : Set String) := by
    ext id
    rw [contentIds, List.coe_toFinset, Set.mem_ofPred_eq, Set.mem_ofPred_eq, List.mem_map]
    constructor
    · rintro ⟨place, a, h, rfl⟩
      exact exists_mem_attachments (mem_held_of_nodeAt? h)
    · rintro ⟨a, ha, rfl⟩
      have hheld := mem_held_of_mem_attachments ha
      rw [← map_located] at hheld
      obtain ⟨⟨place, a⟩, hmem, rfl⟩ := List.mem_map.1 hheld
      exact ⟨place, a, (Node.mem_located _).1 hmem, rfl⟩
  rw [hids, Set.ncard_coe_finset, List.toFinset_card_of_nodup (nodup_attachments e),
    List.length_map]

end Envelope

end SoapMtom
