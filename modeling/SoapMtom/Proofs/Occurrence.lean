import SoapMtom.Bytes

/-!
# Where a pattern occurs

`Bytes.breakOn` finds a pattern wherever it occurs, so a search that fails says that the pattern is
nowhere in the bytes. Main statements:

> `occursIn_iff`: `occursIn pat bs` holds exactly when `bs = before ++ pat ++ after` for some
> `before` and `after`.
>
> `occursIn_eq_false`: otherwise the pattern is no infix of the bytes.
>
> `occursIn_append`: bytes in front of others do not matter if the pattern cannot start there.
>
> `breakOn_append`: a pattern whose first byte does not stand before it is found at once.
-/

namespace SoapMtom.Bytes

/-- A search that finds nothing leaves no place where the pattern could stand. -/
private theorem not_isPrefix_of_breakOnFrom {pat : Bytes} {acc bs : Bytes}
    (h : breakOnFrom pat acc bs = none) : ∀ before after, bs ≠ before ++ (pat ++ after) := by
  induction bs generalizing acc with
  | nil =>
    intro before after he
    have hnil := List.append_eq_nil_iff.1 he.symm
    have hpat := (List.append_eq_nil_iff.1 hnil.2).1
    simp [breakOnFrom, hpat] at h
  | cons b rest ih =>
    unfold breakOnFrom at h
    split at h
    · simp at h
    · next hp =>
      intro before after he
      cases before with
      | nil =>
        rw [List.nil_append] at he
        exact hp (List.isPrefixOf_iff_prefix.2 ⟨after, he.symm⟩)
      | cons c before => exact ih h before after (List.cons.inj he).2

/-- A pattern occurs exactly where the bytes can be cut around it. -/
theorem occursIn_iff {pat bs : Bytes} :
    occursIn pat bs = true ↔ ∃ before after, bs = before ++ pat ++ after := by
  rw [occursIn, Option.isSome_iff_exists]
  constructor
  · rintro ⟨⟨before, after⟩, h⟩
    exact ⟨before, after, eq_of_breakOn h⟩
  · rintro ⟨before, after, he⟩
    cases h : breakOn pat bs with
    | some p => exact ⟨p, rfl⟩
    | none =>
      rw [List.append_assoc] at he
      exact absurd he (not_isPrefix_of_breakOnFrom h before after)

/-- A pattern that does not occur is no infix of the bytes. -/
theorem occursIn_eq_false {pat bs : Bytes} : occursIn pat bs = false ↔ ¬pat <:+: bs := by
  have hiff : occursIn pat bs = true ↔ pat <:+: bs := by
    rw [occursIn_iff]
    exact ⟨fun ⟨before, after, h⟩ => ⟨before, after, h.symm⟩,
      fun ⟨before, after, h⟩ => ⟨before, after, h.symm⟩⟩
  rw [← hiff, Bool.not_eq_true]

/-- A pattern occurs behind bytes that its first one is none of, or not at all. -/
theorem occursIn_append {p : UInt8} {pat front : Bytes} (h : p ∉ front) (rest : Bytes) :
    occursIn (p :: pat) (front ++ rest) = occursIn (p :: pat) rest := by
  rw [Bool.eq_iff_iff, occursIn_iff, occursIn_iff]
  constructor
  · rintro ⟨before, after, heq⟩
    rw [List.append_assoc] at heq
    rcases List.append_eq_append_iff.1 heq with ⟨before', -, hrest⟩ | ⟨across, hfront, hpat⟩
    · exact ⟨before', after, by rw [hrest, List.append_assoc]⟩
    · -- the pattern would have to start in front
      cases across with
      | nil => exact ⟨[], after, by rw [List.nil_append, ← List.nil_append rest, ← hpat]⟩
      | cons b across =>
        have hb : p = b := (List.cons.inj hpat).1
        rw [hfront, hb] at h
        exact absurd (List.mem_append_right _ (List.mem_cons_self ..)) h
  · rintro ⟨before, after, rfl⟩
    exact ⟨front ++ before, after, by simp⟩

/-- Nothing is dropped from bytes that start otherwise. -/
theorem dropPrefix?_cons_of_ne {p b : UInt8} {pat rest : Bytes} (h : b ≠ p) :
    dropPrefix? (p :: pat) (b :: rest) = none := by
  rw [dropPrefix?, if_neg]
  intro hp
  obtain ⟨t, ht⟩ := List.isPrefixOf_iff_prefix.1 hp
  exact h (List.cons.inj ht).1.symm

/-- A pattern does not start at a byte that is not its first one. -/
theorem breakOnFrom_cons_of_ne {p b : UInt8} {pat acc rest : Bytes} (h : b ≠ p) :
    breakOnFrom (p :: pat) acc (b :: rest) = breakOnFrom (p :: pat) (b :: acc) rest := by
  rw [breakOnFrom, if_neg]
  intro hp
  obtain ⟨t, ht⟩ := List.isPrefixOf_iff_prefix.1 hp
  exact h (List.cons.inj ht).1.symm

/-- A pattern that stands at the head is found there. -/
theorem breakOnFrom_append {p : UInt8} {pat acc after : Bytes} :
    breakOnFrom (p :: pat) acc (p :: pat ++ after) = some (acc.reverse, after) := by
  rw [List.cons_append, breakOnFrom, if_pos]
  · rw [← List.cons_append, List.drop_left]
  · exact List.isPrefixOf_iff_prefix.2 ⟨after, rfl⟩

/-- A pattern whose first byte does not stand before it is found at once. -/
theorem breakOn_append {p : UInt8} {pat before : Bytes} (h : p ∉ before) (after : Bytes) :
    breakOn (p :: pat) (before ++ (p :: pat ++ after)) = some (before, after) := by
  -- the search carries the bytes it has passed, so this is about all of them
  have hfrom : ∀ acc, breakOnFrom (p :: pat) acc (before ++ (p :: pat ++ after)) =
      some (acc.reverse ++ before, after) := by
    induction before with
    | nil => intro acc; rw [List.nil_append, breakOnFrom_append, List.append_nil]
    | cons b before ih =>
      intro acc
      rw [List.mem_cons, not_or] at h
      rw [List.cons_append, breakOnFrom_cons_of_ne (Ne.symm h.1), ih h.2]
      simp
  exact hfrom []

end SoapMtom.Bytes
