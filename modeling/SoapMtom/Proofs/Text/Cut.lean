import SoapMtom.Text.Ascii
import SoapMtom.Text.Blank
import SoapMtom.Text.Split

/-!
# Where texts are cut

A text that was put together from pieces is cut into these pieces again, and trimming drops blanks
that were put around it. Main statements:

> `trimChars_of_ends`: what has no blank at either end is not changed by trimming.
>
> `cutAt?_append`, `splitAt_append`: the first cut is at the first place of the character.
-/

namespace SoapMtom.Text

/-! ## Trimming -/

theorem isBlank_space : isBlank ' ' = true := by decide

theorem isBlank_tab : isBlank '\t' = true := by decide

theorem isBlank_lineFeed : isBlank '\n' = true := by decide

theorem isBlank_carriageReturn : isBlank '\r' = true := by decide

/-- What is blank is told apart from what is not. -/
theorem ne_of_isBlank {c d : Char} (hc : isBlank c = true) (hd : isBlank d = false) : c ≠ d := by
  rintro rfl
  rw [hc] at hd
  cases hd

/-- A visible character of ASCII is no blank. -/
theorem isBlank_of_visible {c : Char} (h : 33 ≤ c.toNat ∧ c.toNat ≤ 126) : isBlank c = false := by
  have hnone : ∀ range ∈ blankRanges, range.2 < 33 ∨ 126 < range.1 := by decide
  rw [isBlank, Char.within, List.any_eq_false]
  intro range hrange
  have hout := hnone range hrange
  simp only [Bool.and_eq_true, decide_eq_true_eq]
  omega

/-- A blank is no capital. -/
theorem lowerChar_of_isBlank {c : Char} (h : isBlank c = true) : lowerChar c = c := by
  rw [lowerChar, if_neg]
  intro hcapital
  rw [Bool.and_eq_true, decide_eq_true_eq, decide_eq_true_eq, Char.le_def, Char.le_def,
    UInt32.le_iff_toNat_le, UInt32.le_iff_toNat_le] at hcapital
  rw [isBlank_of_visible ⟨Nat.le_trans (by decide) hcapital.1,
    Nat.le_trans hcapital.2 (by decide)⟩] at h
  cases h

/-- Nothing is dropped from a front that is to stay. -/
theorem dropWhile_of_head {p : Char → Bool} {cs : List Char} (h : ∀ c ∈ cs.head?, p c = false) :
    cs.dropWhile p = cs := by
  cases cs with
  | nil => rfl
  | cons c cs => exact List.dropWhile_cons_of_neg (Bool.eq_false_iff.1 (h c rfl))

/-- Nothing is dropped from an end that is to stay. -/
theorem dropEndWhile_of_last {p : Char → Bool} {cs : List Char}
    (h : ∀ c ∈ cs.getLast?, p c = false) : dropEndWhile p cs = cs := by
  rw [dropEndWhile, dropWhile_of_head, List.reverse_reverse]
  rw [List.head?_reverse]
  exact h

theorem dropEndWhile_append {p : Char → Bool} {after : List Char} (h : ∀ c ∈ after, p c = true)
    (cs : List Char) : dropEndWhile p (cs ++ after) = dropEndWhile p cs := by
  unfold dropEndWhile
  rw [List.reverse_append, List.dropWhile_append_of_pos fun c hc => h c (List.mem_reverse.1 hc)]

theorem dropEndWhile_append_singleton {p : Char → Bool} {c : Char} (h : p c = true)
    (cs : List Char) : dropEndWhile p (cs ++ [c]) = dropEndWhile p cs :=
  dropEndWhile_append (List.forall_mem_singleton.2 h) cs

/-- A character that is to stay keeps all that stands before it. -/
theorem exists_dropEndWhile {p : Char → Bool} {c : Char} (h : p c = false)
    (before cs : List Char) :
    ∃ cs', dropEndWhile p (before ++ c :: cs) = before ++ c :: cs' := by
  unfold dropEndWhile
  rw [List.reverse_append, List.reverse_cons, List.append_assoc, List.singleton_append,
    List.dropWhile_append]
  split
  · rw [List.dropWhile_cons_of_neg (by simp [h])]
    exact ⟨[], by simp⟩
  · exact ⟨_, by rw [List.reverse_append, List.reverse_cons, List.reverse_reverse,
      List.append_assoc, List.singleton_append]⟩

/-- What has no blank at either end is not changed by trimming. -/
theorem trimChars_of_ends {cs : List Char} (hhead : ∀ c ∈ cs.head?, isBlank c = false)
    (hlast : ∀ c ∈ cs.getLast?, isBlank c = false) : trimChars cs = cs := by
  rw [trimChars, dropWhile_of_head hhead, dropEndWhile_of_last hlast]

theorem trimChars_cons {c : Char} (h : isBlank c = true) (cs : List Char) :
    trimChars (c :: cs) = trimChars cs := by
  rw [trimChars, List.dropWhile_cons_of_pos h, trimChars]

/-- Blanks around a text do not count. -/
theorem trimChars_around {before after : List Char} (hbefore : ∀ c ∈ before, isBlank c = true)
    (hafter : ∀ c ∈ after, isBlank c = true) {c : Char} {cs : List Char} (hc : isBlank c = false)
    (hlast : ∀ d ∈ (c :: cs).getLast?, isBlank d = false) :
    trimChars (before ++ c :: cs ++ after) = c :: cs := by
  rw [trimChars, List.append_assoc, List.dropWhile_append_of_pos hbefore, List.cons_append,
    List.dropWhile_cons_of_neg (Bool.eq_false_iff.1 hc), ← List.cons_append,
    dropEndWhile_append hafter, dropEndWhile_of_last hlast]

theorem trimChars_toList {s : String} (h : trim s = s) : trimChars s.toList = s.toList := by
  have htoList := congrArg String.toList h
  rwa [trim, String.toList_ofList] at htoList

/-- What was trimmed does not end with a blank. -/
theorem isBlank_of_getLast?_trimChars {cs : List Char} {c : Char}
    (h : (trimChars cs).getLast? = some c) : isBlank c = false := by
  rw [trimChars, dropEndWhile, List.getLast?_reverse] at h
  have hhead := List.head?_dropWhile_not isBlank (cs.dropWhile isBlank).reverse
  rw [h] at hhead
  exact hhead

/-- What is dropped from an end stood there. -/
theorem exists_eq_dropEndWhile_append (p : Char → Bool) (cs : List Char) :
    ∃ dropped, (∀ c ∈ dropped, p c = true) ∧ cs = dropEndWhile p cs ++ dropped := by
  refine ⟨(cs.reverse.takeWhile p).reverse, fun c hc => ?_, ?_⟩
  · exact List.all_eq_true.1 List.all_takeWhile c (List.mem_reverse.1 hc)
  · rw [dropEndWhile, ← List.reverse_append, List.takeWhile_append_dropWhile, List.reverse_reverse]

/-- What was trimmed does not start with a blank. -/
theorem isBlank_of_head?_trimChars {cs : List Char} {c : Char}
    (h : (trimChars cs).head? = some c) : isBlank c = false := by
  obtain ⟨dropped, -, happend⟩ := exists_eq_dropEndWhile_append isBlank (cs.dropWhile isBlank)
  have hhead := List.head?_dropWhile_not isBlank cs
  rw [happend, ← trimChars, List.head?_append, h] at hhead
  exact hhead

/-! ## Cutting -/

/-- A list without the first character of what comes behind begins the whole if it begins the
front. -/
theorem isPrefix_append_iff {l front rest : List Char} (h : ∀ c ∈ rest.head?, c ∉ l) :
    l <+: front ++ rest ↔ l <+: front := by
  refine ⟨fun hprefix => ?_, fun hprefix => hprefix.trans (List.prefix_append ..)⟩
  obtain ⟨more, hmore⟩ := hprefix
  rcases List.append_eq_append_iff.1 hmore with ⟨others, rfl, -⟩ | ⟨others, rfl, hrest⟩
  · exact List.prefix_append ..
  · cases others with
    | nil => simp
    | cons c others =>
      exact absurd (List.mem_append_right _ (List.mem_cons_self ..)) (h c (by rw [hrest]; rfl))

theorem cutAt?_append {c : Char} {before : List Char} (h : c ∉ before) (after : List Char) :
    cutAt? c (before ++ c :: after) = some (before, after) := by
  induction before with
  | nil =>
    unfold cutAt?
    exact if_pos rfl
  | cons d before ih =>
    rw [List.mem_cons, not_or] at h
    rw [List.cons_append, cutAt?, if_neg (Ne.symm h.1), ih h.2]
    rfl

theorem splitAt_of_not_mem {c : Char} {cs : List Char} (h : c ∉ cs) : splitAt c cs = [cs] := by
  induction cs with
  | nil => rfl
  | cons d cs ih =>
    rw [List.mem_cons, not_or] at h
    rw [splitAt, if_neg (Ne.symm h.1), ih h.2]

theorem splitAt_append {c : Char} {before : List Char} (h : c ∉ before) (after : List Char) :
    splitAt c (before ++ c :: after) = before :: splitAt c after := by
  induction before with
  | nil =>
    rw [List.nil_append, splitAt, if_pos rfl]
  | cons d before ih =>
    rw [List.mem_cons, not_or] at h
    rw [List.cons_append, splitAt, if_neg (Ne.symm h.1), ih h.2]

end SoapMtom.Text
