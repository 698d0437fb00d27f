import SoapMtom.Text.Utf8

/-!
# Texts and their bytes

`Utf8.encode` takes texts apart character by character, so it respects appending, and it loses
nothing. Every format of the library marks its places by ASCII characters; what makes that sound is
that an ASCII byte in an encoded text is an ASCII character of the text. Main statements:

> `decode_eq_ok`: no other bytes are read as a text than those that encode it.
>
> `mem_of_mem_encodeChars`: a byte below 128 among the bytes of some characters is one of these
> characters.
-/

namespace SoapMtom.Utf8

/-- The bytes of some characters. -/
def encodeChars (cs : List Char) : Bytes := cs.flatMap String.utf8EncodeChar

theorem encode_eq_encodeChars (s : String) : encode s = encodeChars s.toList := rfl

theorem encode_ofList (cs : List Char) : encode (String.ofList cs) = encodeChars cs := by
  rw [encode_eq_encodeChars, String.toList_ofList]

@[simp] theorem encodeChars_nil : encodeChars [] = [] := rfl

@[simp] theorem encodeChars_cons (c : Char) (cs : List Char) :
    encodeChars (c :: cs) = String.utf8EncodeChar c ++ encodeChars cs :=
  List.flatMap_cons

@[simp] theorem encodeChars_append (cs ds : List Char) :
    encodeChars (cs ++ ds) = encodeChars cs ++ encodeChars ds :=
  List.flatMap_append

theorem encodeChars_flatMap {α : Type} (f : α → List Char) (l : List α) :
    encodeChars (l.flatMap f) = l.flatMap fun a => encodeChars (f a) :=
  List.flatMap_assoc

theorem encode_append (s t : String) : encode (s ++ t) = encode s ++ encode t := by
  rw [encode_eq_encodeChars, String.toList_append, encodeChars_append]
  rfl

/-- Different texts have different bytes. -/
theorem encode_injective {s t : String} (h : encode s = encode t) : s = t := by
  have hd : decode (encode s) = decode (encode t) := by rw [h]
  rw [decode_encode, decode_encode] at hd
  exact Except.ok.inj hd

theorem encode_eq_nil {s : String} : encode s = [] ↔ s = "" := by
  constructor
  · intro h
    exact encode_injective h
  · rintro rfl
    rfl

theorem length_encode (s : String) : (encode s).length = s.utf8ByteSize := by
  have hbytes : (String.ofList s.toList).toByteArray = (encode s).toByteArray :=
    String.toByteArray_ofList
  rw [String.ofList_toList] at hbytes
  rw [← String.size_toByteArray, hbytes, List.size_toByteArray]

/-! ## Reading -/

/-- A character at the head of bytes is encoded there. -/
theorem exists_of_head? {bs : Bytes} {c : Char} (h : head? bs = some c) :
    ∃ rest, bs = String.utf8EncodeChar c ++ rest := by
  obtain ⟨rest, hrest⟩ := ByteArray.exists_of_utf8DecodeChar?_eq_some h
  have htake : bs.take 4 = String.utf8EncodeChar c ++ rest.data.toList := by
    simpa using congrArg (fun b => b.data.toList) hrest
  refine ⟨rest.data.toList ++ bs.drop 4, ?_⟩
  rw [← List.append_assoc, ← htake, List.take_append_drop]

private theorem exists_of_decodeFrom {offset : Nat} {done cs : List Char} {bs : Bytes}
    (h : decodeFrom offset done bs = .ok cs) :
    ∃ ds, cs = done.reverse ++ ds ∧ bs = encodeChars ds := by
  fun_induction decodeFrom offset done bs with
  | case1 offset done =>
    cases h
    exact ⟨[], by simp, rfl⟩
  | case2 offset done b rest c hc ih =>
    obtain ⟨ds, rfl, hds⟩ := ih h
    obtain ⟨after, hafter⟩ := exists_of_head? hc
    refine ⟨c :: ds, by simp, ?_⟩
    rw [hafter, ← String.length_utf8EncodeChar c, List.drop_left] at hds
    rw [hafter, hds, encodeChars_cons]
  | case3 | case4 => cases h

/-- No other bytes are read as a text than those that encode it. -/
theorem decode_eq_ok {bs : Bytes} {s : String} : decode bs = .ok s ↔ bs = encode s := by
  constructor
  · intro h
    unfold decode at h
    cases hread : decodeFrom 0 [] bs with
    | error e =>
      rw [hread] at h
      cases h
    | ok cs =>
      rw [hread] at h
      obtain ⟨ds, rfl, hds⟩ := exists_of_decodeFrom hread
      cases h
      rw [hds, encode_ofList]
  · rintro rfl
    exact decode_encode s

/-! ## ASCII characters -/

/-- An ASCII code is the code of its character. -/
theorem toNat_charOfNat {n : Nat} (h : n < 128) : (Char.ofNat n).toNat = n := by
  have hvalid : n.isValidChar := Or.inl (by omega)
  rw [Char.ofNat, dif_pos hvalid]
  rfl

/-- An ASCII character is one byte. -/
theorem utf8EncodeChar_of_lt {c : Char} (h : c.toNat < 128) :
    String.utf8EncodeChar c = [UInt8.ofNat c.toNat] := by
  have hv : c.val.toNat ≤ 0x7f := Nat.le_of_lt_succ h
  unfold String.utf8EncodeChar
  rw [if_pos hv]
  rfl

/-- All bytes of any other character are above the ASCII range. -/
theorem le_of_mem_utf8EncodeChar {c : Char} (h : 128 ≤ c.toNat) {b : UInt8}
    (hb : b ∈ String.utf8EncodeChar c) : 128 ≤ b.toNat := by
  have hv : ¬ c.val.toNat ≤ 0x7f := by
    have : c.toNat = c.val.toNat := rfl
    omega
  unfold String.utf8EncodeChar at hb
  simp only [if_neg hv] at hb
  split at hb
  · simp only [List.mem_cons, List.not_mem_nil, or_false] at hb
    rcases hb with rfl | rfl <;> simp only [UInt8.toNat_ofNat'] <;> omega
  · split at hb
    · simp only [List.mem_cons, List.not_mem_nil, or_false] at hb
      rcases hb with rfl | rfl | rfl <;> simp only [UInt8.toNat_ofNat'] <;> omega
    · simp only [List.mem_cons, List.not_mem_nil, or_false] at hb
      rcases hb with rfl | rfl | rfl | rfl <;> simp only [UInt8.toNat_ofNat'] <;> omega

/-- An ASCII byte among the bytes of some characters is one of these characters. -/
theorem mem_of_mem_encodeChars {cs : List Char} {b : UInt8} (hb : b ∈ encodeChars cs)
    (h : b.toNat < 128) : Char.ofNat b.toNat ∈ cs := by
  obtain ⟨c, hc, hbc⟩ := List.mem_flatMap.1 hb
  -- a byte of any other character would be above the ASCII range
  rcases Nat.lt_or_ge c.toNat 128 with hlt | hge
  · rw [utf8EncodeChar_of_lt hlt, List.mem_singleton] at hbc
    subst hbc
    have hmod : (UInt8.ofNat c.toNat).toNat = c.toNat := by
      rw [UInt8.toNat_ofNat']
      omega
    rw [hmod, Char.ofNat_toNat]
    exact hc
  · have := le_of_mem_utf8EncodeChar hge hbc
    omega

/-- Characters start with an ASCII byte only if the first of them is that character. -/
theorem exists_encodeChars_cons (c : Char) (cs : List Char) :
    ∃ b bs, encodeChars (c :: cs) = b :: bs ∧ ∀ p : UInt8, p.toNat < 128 →
      Char.ofNat p.toNat ≠ c → b ≠ p := by
  have hlength : 0 < (String.utf8EncodeChar c).length := by
    rw [String.length_utf8EncodeChar]
    exact c.utf8Size_pos
  obtain ⟨b, bs, hbytes⟩ := List.exists_cons_of_ne_nil (List.ne_nil_of_length_pos hlength)
  refine ⟨b, bs ++ encodeChars cs, ?_, fun p hp hne => ?_⟩
  · rw [encodeChars_cons, hbytes, List.cons_append]
  · rintro rfl
    have hmem : b ∈ encodeChars [c] := by
      rw [encodeChars_cons, hbytes]
      exact List.mem_cons_self ..
    exact hne (List.mem_singleton.1 (mem_of_mem_encodeChars hmem hp))

/-- What holds of every ASCII character of a text, and of all bytes above the ASCII range, holds of
all its bytes. -/
theorem forall_mem_encodeChars {cs : List Char} {p : UInt8 → Prop}
    (hascii : ∀ b : UInt8, b.toNat < 128 → Char.ofNat b.toNat ∈ cs → p b)
    (hother : ∀ b : UInt8, 128 ≤ b.toNat → p b) : ∀ b ∈ encodeChars cs, p b := by
  intro b hb
  rcases Nat.lt_or_ge b.toNat 128 with hlt | hge
  · exact hascii b hlt (mem_of_mem_encodeChars hb hlt)
  · exact hother b hge

/-- ASCII characters are encoded one by one. -/
theorem encodeChars_of_ascii {cs : List Char} (h : ∀ c ∈ cs, c.toNat < 128) :
    encodeChars cs = cs.map fun c => UInt8.ofNat c.toNat := by
  induction cs with
  | nil => rfl
  | cons c cs ih =>
    rw [encodeChars_cons, utf8EncodeChar_of_lt (h c (List.mem_cons_self ..)),
      ih fun d hd => h d (List.mem_cons_of_mem _ hd)]
    rfl

end SoapMtom.Utf8
