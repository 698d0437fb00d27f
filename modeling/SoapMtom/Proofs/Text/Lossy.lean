import Mathlib.Data.List.Basic
import SoapMtom.Proofs.Text.Encoding

/-!
# What a lossy reading keeps

Bytes that are no text are read with a replacement character for each ill-formed piece. Such a piece
has no ASCII byte in it, so the ASCII characters of the bytes are all read. Main statement:

> `count_lossy`: an ASCII character is read as often as its byte occurs.
-/

namespace SoapMtom.Utf8

/-! ## Sequences that are complete -/

private theorem toNat_of_isContinuation {b : UInt8} (h : isContinuation b = true) :
    0x80 ≤ b.toNat ∧ b.toNat ≤ 0xBF := by
  simpa [isContinuation, UInt8.le_iff_toNat_le] using h

/-- The second byte continues the sequence, and makes it neither overlong nor too large. -/
private theorem toNat_of_maySecond {lead b : UInt8} (h : maySecond lead b = true) :
    0x80 ≤ b.toNat ∧ b.toNat ≤ 0xBF ∧ (lead.toNat = 0xE0 → 0xA0 ≤ b.toNat) ∧
      (lead.toNat = 0xED → b.toNat ≤ 0x9F) ∧ (lead.toNat = 0xF0 → 0x90 ≤ b.toNat) ∧
        (lead.toNat = 0xF4 → b.toNat ≤ 0x8F) := by
  simp only [maySecond, isContinuation, beq_iff_eq, ← UInt8.toNat_inj] at h
  repeat' split at h
  all_goals
    simp only [Bool.and_eq_true, decide_eq_true_eq, UInt8.le_iff_toNat_le, UInt8.reduceToNat] at *
    omega

private theorem toNat_of_continuations {lead : UInt8} {n : Nat} (h : continuations lead = n + 1) :
    n = 0 ∧ 0xC2 ≤ lead.toNat ∧ lead.toNat ≤ 0xDF ∨
      n = 1 ∧ 0xE0 ≤ lead.toNat ∧ lead.toNat ≤ 0xEF ∨
        n = 2 ∧ 0xF0 ≤ lead.toNat ∧ lead.toNat ≤ 0xF4 := by
  simp only [continuations, Bool.and_eq_true, decide_eq_true_eq, UInt8.le_iff_toNat_le,
    UInt8.reduceToNat] at h
  repeat' split at h
  all_goals omega

private theorem exists_char {v : Nat} (h : v < 0xD800 ∨ 0xDFFF < v ∧ v < 0x110000) :
    ∃ c : Char, c.val.toNat = v := by
  have hvalid : v.isValidChar := h
  refine ⟨Char.ofNat v, ?_⟩
  rw [Char.ofNat, dif_pos hvalid]
  rfl

/-- A lead byte, a second byte that may follow it and the continuation bytes that are still wanted
encode a character. -/
private theorem exists_utf8EncodeChar {lead b : UInt8} {rest : Bytes}
    (hlead : continuations lead = rest.length + 1) (hb : maySecond lead b = true)
    (hrest : ∀ x ∈ rest, isContinuation x = true) :
    ∃ c, String.utf8EncodeChar c = lead :: b :: rest := by
  have hsecond := toNat_of_maySecond hb
  rcases toNat_of_continuations hlead with ⟨hlength, hl⟩ | ⟨hlength, hl⟩ | ⟨hlength, hl⟩
  · obtain rfl := List.length_eq_zero_iff.1 hlength
    obtain ⟨c, hc⟩ := @exists_char ((lead.toNat - 0xC0) * 64 + (b.toNat - 0x80)) (by omega)
    refine ⟨c, ?_⟩
    simp only [String.utf8EncodeChar, hc]
    rw [if_neg (by omega), if_pos (by omega)]
    simp only [List.cons.injEq, ← UInt8.toNat_inj, UInt8.toNat_ofNat', and_true]
    omega
  · obtain ⟨x, rfl⟩ := List.length_eq_one_iff.1 hlength
    have hx := toNat_of_isContinuation (hrest x (by simp))
    obtain ⟨c, hc⟩ := @exists_char
      ((lead.toNat - 0xE0) * 4096 + (b.toNat - 0x80) * 64 + (x.toNat - 0x80)) (by omega)
    refine ⟨c, ?_⟩
    simp only [String.utf8EncodeChar, hc]
    rw [if_neg (by omega), if_neg (by omega), if_pos (by omega)]
    simp only [List.cons.injEq, ← UInt8.toNat_inj, UInt8.toNat_ofNat', and_true]
    omega
  · obtain ⟨x, y, rfl⟩ := List.length_eq_two.1 hlength
    have hx := toNat_of_isContinuation (hrest x (by simp))
    have hy := toNat_of_isContinuation (hrest y (by simp))
    obtain ⟨c, hc⟩ := @exists_char ((lead.toNat - 0xF0) * 262144 + (b.toNat - 0x80) * 4096 +
      (x.toNat - 0x80) * 64 + (y.toNat - 0x80)) (by omega)
    refine ⟨c, ?_⟩
    simp only [String.utf8EncodeChar, hc]
    rw [if_neg (by omega), if_neg (by omega), if_neg (by omega)]
    simp only [List.cons.injEq, ← UInt8.toNat_inj, UInt8.toNat_ofNat', and_true]
    omega

/-! ## Ill-formed pieces -/

/-- A byte below 128 is a character. -/
private theorem head?_of_lt {b : UInt8} (h : b.toNat < 128) (rest : Bytes) :
    head? (b :: rest) = some (Char.ofNat b.toNat) := by
  have hlt : (Char.ofNat b.toNat).toNat < 128 := by rwa [toNat_charOfNat h]
  have hhead := head?_encode (Char.ofNat b.toNat) rest
  rwa [utf8EncodeChar_of_lt hlt, toNat_charOfNat h, UInt8.ofNat_toNat] at hhead

/-- What is counted as ill-formed are bytes that continue a sequence. -/
private theorem isContinuation_of_brokenAfter {seen wanted length : Nat} {bs : Bytes}
    (h : brokenAfter seen wanted bs = some length) :
    ∀ x ∈ bs.take (length - seen), isContinuation x = true := by
  have hle : ∀ {seen wanted : Nat} {bs : Bytes}, brokenAfter seen wanted bs = some length →
      seen ≤ length := by
    intro seen wanted bs h
    fun_induction brokenAfter seen wanted bs with
    | case1 | case2 => cases h
    | case3 seen wanted b rest hb ih => exact Nat.le_of_succ_le (ih h)
    | case4 => exact Nat.le_of_eq (Option.some.inj h)
  fun_induction brokenAfter seen wanted bs with
  | case1 | case2 => cases h
  | case3 seen wanted b rest hb ih =>
    have hlength : length - seen = (length - (seen + 1)) + 1 := by
      have := hle h
      omega
    rw [hlength, List.take_succ_cons, List.forall_mem_cons]
    exact ⟨hb, ih h⟩
  | case4 seen =>
    obtain rfl := Option.some.inj h
    simp

/-- Where nothing is ill-formed, the bytes that are there continue the sequence. -/
private theorem isContinuation_of_brokenAfter_eq_none {seen wanted : Nat} {bs : Bytes}
    (h : brokenAfter seen wanted bs = none) : ∀ x ∈ bs.take wanted, isContinuation x = true := by
  fun_induction brokenAfter seen wanted bs with
  | case1 | case2 => simp
  | case3 seen wanted b rest hb ih =>
    rw [List.take_succ_cons, List.forall_mem_cons]
    exact ⟨hb, ih h⟩
  | case4 => cases h

private theorem le_of_isContinuation {b : UInt8} (h : isContinuation b = true) : 128 ≤ b.toNat :=
  (toNat_of_isContinuation h).1

/-- Bytes that start with no character start with a byte above the ASCII range. -/
private theorem le_of_head?_eq_none {b : UInt8} {rest : Bytes} (h : head? (b :: rest) = none) :
    128 ≤ b.toNat := by
  rcases Nat.lt_or_ge b.toNat 128 with hlt | hge
  · rw [head?_of_lt hlt] at h
    cases h
  · exact hge

/-- There is no ASCII byte in an ill-formed piece. -/
private theorem le_of_brokenLength {lead : UInt8} {rest : Bytes} {length : Nat}
    (h : brokenLength (lead :: rest) = some length) :
    ∀ x ∈ rest.take (length - 1), 128 ≤ x.toNat := by
  simp only [brokenLength] at h
  split at h
  · obtain rfl := Option.some.inj h
    simp
  · cases h
  · next wanted b rest _ =>
    split at h
    · next hb =>
      intro x hx
      have hlater := isContinuation_of_brokenAfter h
      cases hlength : length - 1 with
      | zero => simp [hlength] at hx
      | succ n =>
        rw [hlength, List.take_succ_cons, List.mem_cons] at hx
        rw [show length - 2 = n by omega] at hlater
        rcases hx with rfl | hx
        · exact (toNat_of_maySecond hb).1
        · exact le_of_isContinuation (hlater x hx)
    · obtain rfl := Option.some.inj h
      simp

/-- There is none in a sequence that is cut off by the end of the bytes. -/
private theorem le_of_brokenLength_eq_none {lead : UInt8} {rest : Bytes}
    (hhead : head? (lead :: rest) = none) (h : brokenLength (lead :: rest) = none) :
    ∀ x ∈ rest, 128 ≤ x.toNat := by
  simp only [brokenLength] at h
  split at h
  · cases h
  · simp
  · next wanted b rest hlead =>
    split at h
    · next hb =>
      have hlater := isContinuation_of_brokenAfter_eq_none h
      rcases Nat.lt_or_ge rest.length wanted with hlt | hge
      · rw [List.take_of_length_le (Nat.le_of_lt hlt)] at hlater
        rw [List.forall_mem_cons]
        exact ⟨(toNat_of_maySecond hb).1, fun x hx => le_of_isContinuation (hlater x hx)⟩
      · -- nothing is missing, so the bytes start with a character
        have hlength : (rest.take wanted).length = wanted := List.length_take_of_le hge
        obtain ⟨c, hc⟩ := exists_utf8EncodeChar (by rw [hlength]; exact hlead) hb hlater
        have hchar := head?_encode c (rest.drop wanted)
        rw [hc, List.cons_append, List.cons_append, List.take_append_drop, hhead] at hchar
        cases hchar
    · cases h

/-! ## Counting -/

/-- Among the bytes of a character an ASCII byte stands only for that byte's own character. -/
private theorem count_utf8EncodeChar {b : UInt8} (hb : b.toNat < 128) (c : Char) :
    (String.utf8EncodeChar c).count b = [c].count (Char.ofNat b.toNat) := by
  rcases Nat.lt_or_ge c.toNat 128 with hlt | hge
  · have hiff : UInt8.ofNat c.toNat = b ↔ c = Char.ofNat b.toNat := by
      constructor
      · rintro rfl
        rw [UInt8.toNat_ofNat', Nat.mod_eq_of_lt (by omega), Char.ofNat_toNat]
      · rintro rfl
        rw [toNat_charOfNat hb, UInt8.ofNat_toNat]
    rw [utf8EncodeChar_of_lt hlt, List.count_singleton, List.count_singleton]
    simp only [beq_iff_eq, hiff]
  · have hbyte : b ∉ String.utf8EncodeChar c := fun hmem =>
      absurd (le_of_mem_utf8EncodeChar hge hmem) (by omega)
    have hchar : Char.ofNat b.toNat ∉ [c] := by
      rw [List.mem_singleton]
      rintro rfl
      rw [toNat_charOfNat hb] at hge
      omega
    rw [List.count_eq_zero.2 hbyte, List.count_eq_zero.2 hchar]

private theorem count_eq_zero {b : UInt8} (hb : b.toNat < 128) {bs : Bytes}
    (h : ∀ x ∈ bs, 128 ≤ x.toNat) : bs.count b = 0 :=
  List.count_eq_zero.2 fun hmem => absurd (h b hmem) (by omega)

/-- An ASCII character is read as often as its byte occurs, whatever the other bytes are. -/
theorem count_lossy {b : UInt8} (hb : b.toNat < 128) (bs : Bytes) :
    (lossy bs).toList.count (Char.ofNat b.toNat) = bs.count b := by
  have hreplaced : ∀ cs : List Char, ('\uFFFD' :: cs).count (Char.ofNat b.toNat) =
      cs.count (Char.ofNat b.toNat) := by
    intro cs
    refine List.count_cons_of_ne fun h => ?_
    have hnat : (0xFFFD : Nat) = b.toNat := (congrArg Char.toNat h).trans (toNat_charOfNat hb)
    omega
  -- an ill-formed piece is dropped whole, and it has none of these bytes
  have hdropped : ∀ {lead : UInt8} {rest : Bytes} (n : Nat), 128 ≤ lead.toNat →
      (∀ x ∈ rest.take n, 128 ≤ x.toNat) → (lead :: rest).count b = (rest.drop n).count b := by
    intro lead rest n hlead hrest
    rw [← List.take_append_drop n rest, ← List.cons_append, List.count_append,
      count_eq_zero hb (List.forall_mem_cons.2 ⟨hlead, hrest⟩), Nat.zero_add,
      List.take_append_drop]
  have hfrom : ∀ done, (lossyFrom done bs).count (Char.ofNat b.toNat) =
      done.count (Char.ofNat b.toNat) + bs.count b := by
    intro done
    fun_induction lossyFrom done bs with
    | case1 done => simp
    | case2 done lead rest c hc ih =>
      obtain ⟨after, hafter⟩ := exists_of_head? hc
      have hdrop : (lead :: rest).drop c.utf8Size = after := by
        rw [hafter, ← String.length_utf8EncodeChar c, List.drop_left]
      rw [ih, hdrop, hafter, List.count_append, count_utf8EncodeChar hb, List.count_cons,
        List.count_singleton]
      omega
    | case3 done lead rest hhead length hlength ih =>
      rw [ih, hreplaced,
        hdropped (length - 1) (le_of_head?_eq_none hhead) (le_of_brokenLength hlength)]
    | case4 done lead rest hhead hlength =>
      have hrest := le_of_brokenLength_eq_none hhead hlength
      rw [List.count_reverse, hreplaced,
        count_eq_zero hb (List.forall_mem_cons.2 ⟨le_of_head?_eq_none hhead, hrest⟩), Nat.add_zero]
  rw [lossy, String.toList_ofList, hfrom, List.count_nil, Nat.zero_add]

end SoapMtom.Utf8
