import SoapMtom.Multipart
import SoapMtom.Proofs.Envelope

/-!
# The attachments of an envelope

`Envelope.held` lists the attachments that stand in the trees, `Envelope.attachments` takes every
content id once. Main statements:

> `Envelope.nodup_attachments`: the content ids of the attachments are distinct.
>
> `Envelope.find?_attachments`: where content ids tell attachments apart, each one that is held is
> found under its content id.
-/

namespace SoapMtom.Envelope

open Xml (Element Node)

/-- An attachment is listed if it was found before, or is in the list. -/
theorem mem_of_mem_distinctById {a : Attachment} {found l : List Attachment}
    (h : a ∈ distinctById found l) : a ∈ found ∨ a ∈ l := by
  induction l generalizing found with
  | nil => exact .inl h
  | cons b l ih =>
    rw [distinctById] at h
    split at h
    · rcases ih h with h | h
      · exact .inl h
      · exact .inr (List.mem_cons_of_mem _ h)
    · rcases ih h with h | h
      · rcases List.mem_append.1 h with h | h
        · exact .inl h
        · exact .inr (List.mem_cons.2 (.inl (List.mem_singleton.1 h)))
      · exact .inr (List.mem_cons_of_mem _ h)

/-- What was found stays. -/
theorem subset_distinctById (found l : List Attachment) : found ⊆ distinctById found l := by
  induction l generalizing found with
  | nil => exact fun _ h => h
  | cons b l ih =>
    rw [distinctById]
    split
    · exact ih found
    · exact fun a ha => ih (found ++ [b]) (List.mem_append_left _ ha)

/-- No content id of the list gets lost. -/
theorem exists_mem_distinctById {a : Attachment} (found : List Attachment) {l : List Attachment}
    (h : a ∈ l) : ∃ b ∈ distinctById found l, b.contentId = a.contentId := by
  induction l generalizing found with
  | nil => cases h
  | cons b l ih =>
    rw [distinctById]
    rcases List.mem_cons.1 h with rfl | h
    · split
      · next hany =>
        obtain ⟨b, hb, hid⟩ := List.any_eq_true.1 hany
        exact ⟨b, subset_distinctById found l hb, by simpa using hid⟩
      · exact ⟨a, subset_distinctById _ l (List.mem_append_right _ (List.mem_singleton_self a)), rfl⟩
    · split
      · exact ih found h
      · exact ih (found ++ [b]) h

/-- No content id comes twice. -/
theorem nodup_distinctById {found : List Attachment} (l : List Attachment)
    (h : (found.map (·.contentId)).Nodup) : ((distinctById found l).map (·.contentId)).Nodup := by
  induction l generalizing found with
  | nil => exact h
  | cons b l ih =>
    rw [distinctById]
    split
    · exact ih h
    · next hany =>
      apply ih
      rw [List.map_append, List.map_singleton, List.nodup_append]
      refine ⟨h, List.nodup_singleton _, ?_⟩
      intro id hid id' hid' he
      obtain ⟨a, ha, rfl⟩ := List.mem_map.1 hid
      rw [List.mem_singleton] at hid'
      exact hany (List.any_eq_true.2 ⟨a, ha, by simpa using he.trans hid'⟩)

theorem nodup_attachments (e : Envelope) : (e.attachments.map (·.contentId)).Nodup :=
  nodup_distinctById _ List.nodup_nil

/-- The attachments in the trees, in document order. -/
def held (e : Envelope) : List Attachment := e.parts.flatMap Element.attachments

/-- The attachments in the trees are those that the elements hold. -/
theorem mem_held {e : Envelope} {a : Attachment} :
    a ∈ e.held ↔ ∃ x ∈ e.elements, .attachment a ∈ x.children := by
  rw [held, List.mem_flatMap]
  constructor
  · rintro ⟨part, hpart, ha⟩
    obtain ⟨x, hx, ha⟩ := (Element.mem_attachments part).1 ha
    exact ⟨x, mem_elements_of_mem_parts hpart hx, ha⟩
  · rintro ⟨x, hx, ha⟩
    obtain ⟨part, hpart, hx⟩ := List.mem_flatMap.1 hx
    exact ⟨part, hpart, (Element.mem_attachments part).2 ⟨x, hx, ha⟩⟩

/-- What is listed is held. -/
theorem mem_held_of_mem_attachments {e : Envelope} {a : Attachment} (h : a ∈ e.attachments) :
    a ∈ e.held := by
  rcases mem_of_mem_distinctById h with h | h
  · cases h
  · exact h

/-- Every content id that is held is listed. -/
theorem exists_mem_attachments {e : Envelope} {a : Attachment} (h : a ∈ e.held) :
    ∃ b ∈ e.attachments, b.contentId = a.contentId :=
  exists_mem_distinctById [] h

/-- No attachment is listed exactly if none is held. -/
theorem attachments_eq_nil_iff {e : Envelope} : e.attachments = [] ↔ e.held = [] := by
  constructor
  · intro hlisted
    refine List.eq_nil_iff_forall_not_mem.2 fun a ha => ?_
    obtain ⟨b, hb, -⟩ := exists_mem_attachments ha
    rw [hlisted] at hb
    cases hb
  · intro hheld
    refine List.eq_nil_iff_forall_not_mem.2 fun a ha => ?_
    have hmem := mem_held_of_mem_attachments ha
    rw [hheld] at hmem
    cases hmem

/-- An envelope has attachments if one stands in a tree of it. -/
theorem hasAttachments_iff {e : Envelope} : e.hasAttachments = true ↔ e.held ≠ [] := by
  rw [hasAttachments, Bool.not_eq_true', List.isEmpty_eq_false_iff]
  exact not_congr attachments_eq_nil_iff

/-- Without attachments no element of the envelope holds one. -/
theorem detached_of_attachments_eq_nil {e : Envelope} (h : e.attachments = []) {x : Element}
    (hx : x ∈ e.elements) : Node.Detached x.children := by
  intro n hn
  cases n with
  | element _ | text _ | reference _ => rfl
  | attachment a =>
    have hheld := mem_held.2 ⟨x, hx, hn⟩
    rw [attachments_eq_nil_iff.1 h] at hheld
    cases hheld

/-- Where content ids tell attachments apart, each one is found under its own. -/
theorem find?_attachments {e : Envelope}
    (hid : ∀ a ∈ e.held, ∀ b ∈ e.held, a.contentId = b.contentId → a = b) {a : Attachment}
    (ha : a ∈ e.held) : Multipart.find? e.attachments a.contentId = some a := by
  obtain ⟨b, hb, hba⟩ := exists_mem_attachments ha
  rw [Multipart.find?]
  cases hfind : e.attachments.reverse.find? (·.contentId = a.contentId) with
  | none =>
    have hnone := List.find?_eq_none.1 hfind b (List.mem_reverse.2 hb)
    exact absurd hba (by simpa using hnone)
  | some c =>
    have hc := mem_held_of_mem_attachments (List.mem_reverse.1 (List.mem_of_find?_eq_some hfind))
    have hca : c.contentId = a.contentId := by simpa using List.find?_some hfind
    rw [hid c hc a ha hca]

end SoapMtom.Envelope
