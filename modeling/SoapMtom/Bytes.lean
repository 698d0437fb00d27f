/-!
# Byte strings and the search for a pattern

Everything the wire carries is a `Bytes`. `breakOn` cuts one at the first place where a pattern
occurs, and nothing is lost or invented by the cut:

> `eq_of_breakOn`: `breakOn pat bs = some (before, after)` gives `bs = before ++ pat ++ after`.
-/

namespace SoapMtom

/-- A string of bytes, first byte first. -/
abbrev Bytes := List UInt8

namespace Bytes

/-- The search behind `breakOn`: `before` holds the bytes already passed, last one first. -/
def breakOnFrom (pat : Bytes) (before : Bytes) : Bytes → Option (Bytes × Bytes)
  | [] => if pat.isEmpty then some (before.reverse, []) else none
  | b :: rest =>
    if pat.isPrefixOf (b :: rest) then some (before.reverse, (b :: rest).drop pat.length)
    else breakOnFrom pat (b :: before) rest

/-- What stands before and after the first occurrence of `pat`, if it occurs. -/
def breakOn (pat bs : Bytes) : Option (Bytes × Bytes) := breakOnFrom pat [] bs

/-- Whether `pat` occurs somewhere in `bs`. -/
def occursIn (pat bs : Bytes) : Bool := (breakOn pat bs).isSome

/-- `bs` without `pat` in front, when it starts with it. -/
def dropPrefix? (pat bs : Bytes) : Option Bytes :=
  if pat.isPrefixOf bs then some (bs.drop pat.length) else none

theorem eq_of_dropPrefix? {pat bs rest : Bytes} (h : dropPrefix? pat bs = some rest) :
    bs = pat ++ rest := by
  unfold dropPrefix? at h
  split at h
  · next hp =>
    obtain ⟨t, rfl⟩ := List.isPrefixOf_iff_prefix.mp hp
    simp_all
  · simp at h

private theorem eq_of_breakOnFrom {pat : Bytes} :
    ∀ (bs acc : Bytes) {before after : Bytes},
      breakOnFrom pat acc bs = some (before, after) →
        acc.reverse ++ bs = before ++ pat ++ after := by
  intro bs
  induction bs with
  | nil =>
    intro acc before after h
    unfold breakOnFrom at h
    split at h
    · simp_all
    · simp at h
  | cons b rest ih =>
    intro acc before after h
    unfold breakOnFrom at h
    split at h
    · next hp =>
      obtain ⟨t, ht⟩ := List.isPrefixOf_iff_prefix.mp hp
      simp only [← ht, List.drop_left, Option.some.injEq, Prod.mk.injEq] at h
      obtain ⟨rfl, rfl⟩ := h
      simp [ht]
    · simpa using ih (b :: acc) h

/-- A cut at `pat` loses nothing. -/
theorem eq_of_breakOn {pat bs before after : Bytes} (h : breakOn pat bs = some (before, after)) :
    bs = before ++ pat ++ after := by
  simpa using eq_of_breakOnFrom bs [] h

end Bytes

end SoapMtom
