import SoapMtom.Base64
import SoapMtom.Proofs.Text.Cut
import SoapMtom.Proofs.Text.Encoding
import SoapMtom.Text.Ascii

/-!
# Base64, written and read

Every value below 64 has its own symbol, and the bits of a group come apart in the way in which they
were put together. Main statements:

> `decode_encode`: what was encoded is decoded again.
>
> `encode_encodeText`, `filter_encode`: encoded bytes become text and stay the same bytes; there is
> no blank among them.
-/

namespace SoapMtom.Base64

/-! ## Symbols -/

theorem valueOf?_symbolOf {v : Nat} (h : v < 64) : valueOf? (symbolOf v) = some v := by
  have hall : ∀ v < 64, valueOf? (symbolOf v) = some v := by decide
  exact hall v h

theorem symbolOf_ne_pad {v : Nat} (h : v < 64) : symbolOf v ≠ pad := by
  intro he
  have hv := valueOf?_symbolOf h
  rw [he] at hv
  exact absurd hv (by simp [valueOf?, pad])

/-- A byte is what is left of a number that it ends. -/
private theorem ofNat_eq {n : Nat} {b : UInt8} (h : n % 256 = b.toNat) : UInt8.ofNat n = b := by
  rw [← UInt8.toNat_inj, UInt8.toNat_ofNat', h]

/-! ## Groups -/

/-- A symbol is one more value in the last group. -/
private theorem lastGroup_symbol (offset : Nat) (read : List (UInt8 × Nat)) {v : Nat} (h : v < 64)
    (rest : Bytes) :
    lastGroup offset read 0 (symbolOf v :: rest) =
      lastGroup offset (read ++ [(symbolOf v, v)]) 0 rest := by
  rw [lastGroup, if_neg (symbolOf_ne_pad h), if_neg (by simp), valueOf?_symbolOf h]

private theorem decodeLast_one (offset : Nat) (a : UInt8) :
    decodeLast offset (encode [a]) = .ok [a] := by
  have ha := a.toNat_lt
  have hgroup : lastGroup offset [] 0 (encode [a]) =
      .ok ([(symbolOf (a.toNat / 4), a.toNat / 4),
        (symbolOf (a.toNat % 4 * 16), a.toNat % 4 * 16)], 2) := by
    rw [encode, lastGroup_symbol _ _ (by omega), lastGroup_symbol _ _ (by omega)]
    rfl
  have hbits : a.toNat % 4 * 16 % 16 = 0 := by omega
  have hbyte : UInt8.ofNat (a.toNat / 4 * 4 + a.toNat % 4 * 16 / 16) = a := ofNat_eq (by omega)
  rw [decodeLast, hgroup]
  simp only [bind, Except.bind, pure, Except.pure, hbits, hbyte]
  simp

private theorem decodeLast_two (offset : Nat) (a b : UInt8) :
    decodeLast offset (encode [a, b]) = .ok [a, b] := by
  have ha := a.toNat_lt
  have hb := b.toNat_lt
  let n := a.toNat * 256 + b.toNat
  have hn : n = a.toNat * 256 + b.toNat := rfl
  have hgroup : lastGroup offset [] 0 (encode [a, b]) =
      .ok ([(symbolOf (n / 1024), n / 1024), (symbolOf (n / 16 % 64), n / 16 % 64),
        (symbolOf (n % 16 * 4), n % 16 * 4)], 1) := by
    rw [encode, lastGroup_symbol _ _ (by omega), lastGroup_symbol _ _ (by omega),
      lastGroup_symbol _ _ (by omega)]
    rfl
  have hfirst : UInt8.ofNat (((n / 1024 * 64 + n / 16 % 64) * 64 + n % 16 * 4) / 1024) = a :=
    ofNat_eq (by omega)
  have hsecond : UInt8.ofNat (((n / 1024 * 64 + n / 16 % 64) * 64 + n % 16 * 4) / 4) = b :=
    ofNat_eq (by omega)
  have hbits : n % 16 * 4 % 4 = 0 := by omega
  rw [decodeLast, hgroup]
  simp [bind, Except.bind, pure, Except.pure, hbits, hfirst, hsecond]

/-- The bits of three bytes, put together from the values of four symbols. -/
private theorem group_bits {n : Nat} (h : n < 16777216) :
    ((n / 262144 * 64 + n / 4096 % 64) * 64 + n / 64 % 64) * 64 + n % 64 = n := by
  omega

private theorem group_bytes (a b c : UInt8) :
    let n := (a.toNat * 256 + b.toNat) * 256 + c.toNat
    UInt8.ofNat (n / 65536) = a ∧ UInt8.ofNat (n / 256) = b ∧ UInt8.ofNat n = c := by
  have ha := a.toNat_lt
  have hb := b.toNat_lt
  have hc := c.toNat_lt
  intro n
  exact ⟨ofNat_eq (by omega), ofNat_eq (by omega), ofNat_eq (by omega)⟩

private theorem decodeLast_three (offset : Nat) (a b c : UInt8) :
    decodeLast offset (encode [a, b, c]) = .ok [a, b, c] := by
  have ha := a.toNat_lt
  have hb := b.toNat_lt
  have hc := c.toNat_lt
  obtain ⟨hfirst, hsecond, hthird⟩ := group_bytes a b c
  let n := (a.toNat * 256 + b.toNat) * 256 + c.toNat
  have hn : n < 16777216 := by omega
  have hgroup : lastGroup offset [] 0 (encode [a, b, c]) =
      .ok ([(symbolOf (n / 262144), n / 262144), (symbolOf (n / 4096 % 64), n / 4096 % 64),
        (symbolOf (n / 64 % 64), n / 64 % 64), (symbolOf (n % 64), n % 64)], 0) := by
    rw [encode, encode, lastGroup_symbol _ _ (by omega), lastGroup_symbol _ _ (by omega),
      lastGroup_symbol _ _ (by omega), lastGroup_symbol _ _ (by omega)]
    rfl
  rw [decodeLast, hgroup]
  simp [bind, Except.bind, pure, Except.pure, group_bits hn]
  exact ⟨hfirst, hsecond, hthird⟩

private theorem innerValue_symbolOf (offset : Nat) {v : Nat} (h : v < 64) :
    innerValue offset (symbolOf v) = .ok v := by
  rw [innerValue, valueOf?_symbolOf h]

/-- A group that is not the last one is read on its own. -/
private theorem decodeFrom_group (offset : Nat) (done : Bytes) (a b c e : UInt8) (rest : Bytes) :
    decodeFrom offset done (encode [a, b, c] ++ e :: rest) =
      decodeFrom (offset + 4) (c :: b :: a :: done) (e :: rest) := by
  have ha := a.toNat_lt
  have hb := b.toNat_lt
  have hc := c.toNat_lt
  obtain ⟨hfirst, hsecond, hthird⟩ := group_bytes a b c
  let n := (a.toNat * 256 + b.toNat) * 256 + c.toNat
  have hn : n < 16777216 := by omega
  rw [encode, encode]
  -- three bytes make one number `n`, and four symbols are its digits in base 64
  show decodeFrom offset done (symbolOf (n / 262144) :: symbolOf (n / 4096 % 64) ::
    symbolOf (n / 64 % 64) :: symbolOf (n % 64) :: e :: rest) = _
  rw [decodeFrom, innerValue_symbolOf _ (by omega), innerValue_symbolOf _ (by omega),
    innerValue_symbolOf _ (by omega), innerValue_symbolOf _ (by omega)]
  show decodeFrom (offset + 4) (UInt8.ofNat _ :: UInt8.ofNat (_ / 256) ::
    UInt8.ofNat (_ / 65536) :: done) (e :: rest) = _
  rw [group_bits hn, hfirst, hsecond, hthird]

/-! ## Whole texts -/

theorem encode_cons_ne_nil (a : UInt8) (bs : Bytes) : encode (a :: bs) ≠ [] := by
  match bs with
  | [] | [_] | _ :: _ :: _ => simp [encode]

theorem length_encode (bs : Bytes) : (encode bs).length % 4 = 0 := by
  induction bs using encode.induct with
  | case1 => rfl
  | case2 a => simp [encode]
  | case3 a b => simp [encode]
  | case4 a b c rest ih =>
    rw [encode]
    simp only [List.length_cons]
    omega

/-- The last group ends the reading. -/
private theorem decodeFrom_last {offset : Nat} (done : Bytes) {bs : Bytes}
    (hlength : (encode bs).length ≤ 4) (h : decodeLast offset (encode bs) = .ok bs) :
    decodeFrom offset done (encode bs) = .ok (done.reverse ++ bs) := by
  rw [decodeFrom.eq_def]
  split
  · next heq =>
    rw [heq] at hlength
    simp only [List.length_cons] at hlength
    omega
  · rw [h]
    rfl

private theorem decodeFrom_encode (bs : Bytes) (offset : Nat) (done : Bytes) :
    decodeFrom offset done (encode bs) = .ok (done.reverse ++ bs) := by
  -- the cases are the groups that `encode` takes; only a whole group with more after it is read on
  induction bs using encode.induct generalizing offset done with
  | case1 => exact decodeFrom_last done (by simp [encode]) rfl
  | case2 a => exact decodeFrom_last done (by simp [encode]) (decodeLast_one offset a)
  | case3 a b => exact decodeFrom_last done (by simp [encode]) (decodeLast_two offset a b)
  | case4 a b c rest ih =>
    cases rest with
    | nil => exact decodeFrom_last done (by simp [encode]) (decodeLast_three offset a b c)
    | cons d rest =>
      obtain ⟨e, tail, he⟩ := List.exists_cons_of_ne_nil (encode_cons_ne_nil d rest)
      have hgroup : encode (a :: b :: c :: d :: rest) = encode [a, b, c] ++ e :: tail := by
        rw [encode, he, encode, encode]
        rfl
      rw [hgroup, decodeFrom_group, ← he, ih]
      simp

/-- What was encoded is decoded again. -/
theorem decode_encode (bs : Bytes) : decode (encode bs) = .ok bs := by
  have hlength := length_encode bs
  have hfrom := decodeFrom_encode bs 0 []
  unfold decode
  split
  · rw [if_neg]
    · exact hfrom
    · simp only [Bool.and_eq_true, decide_eq_true_eq, not_and]
      intro h
      omega
  · exact hfrom

/-! ## Symbols as text -/

/-- What holds of every symbol and of the padding holds of all encoded bytes. -/
theorem forall_mem_encode {P : UInt8 → Prop} (hpad : P pad) (hall : ∀ v < 64, P (symbolOf v))
    (bs : Bytes) : ∀ b ∈ encode bs, P b := by
  induction bs using encode.induct with
  | case1 => exact fun _ hb => absurd hb List.not_mem_nil
  | case2 a =>
    have ha := a.toNat_lt
    simp only [encode, List.forall_mem_cons]
    exact ⟨hall _ (by omega), hall _ (by omega), hpad, hpad, by simp⟩
  | case3 a b =>
    have ha := a.toNat_lt
    have hb := b.toNat_lt
    simp only [encode, List.forall_mem_cons]
    exact ⟨hall _ (by omega), hall _ (by omega), hall _ (by omega), hpad, by simp⟩
  | case4 a b c rest ih =>
    have ha := a.toNat_lt
    have hb := b.toNat_lt
    have hc := c.toNat_lt
    simp only [encode, List.forall_mem_cons]
    exact ⟨hall _ (by omega), hall _ (by omega), hall _ (by omega), hall _ (by omega), ih⟩

/-- The bytes that encoded text is made of. -/
private theorem symbol_of_mem_encode {bs : Bytes} {b : UInt8} (hb : b ∈ encode bs) :
    b.toNat < 128 ∧ Text.isAsciiBlank b = false :=
  forall_mem_encode (P := fun b => b.toNat < 128 ∧ Text.isAsciiBlank b = false) (by decide)
    (by decide) bs b hb

/-- A hyphen is no symbol. -/
theorem hyphen_not_mem_encode (bs : Bytes) : 45 ∉ encode bs :=
  fun hb => forall_mem_encode (P := (· ≠ 45)) (by decide) (by decide) bs 45 hb rfl

/-- The bytes of the text are the symbols. -/
theorem encode_encodeText (bs : Bytes) : Utf8.encode (encodeText bs) = encode bs := by
  have hascii : ∀ c ∈ (encode bs).map (fun b => Char.ofNat b.toNat), c.toNat < 128 := by
    intro c hc
    obtain ⟨b, hb, rfl⟩ := List.mem_map.1 hc
    have hlt := (symbol_of_mem_encode hb).1
    rwa [Utf8.toNat_charOfNat hlt]
  have hbyte : ∀ b ∈ encode bs, UInt8.ofNat (Char.ofNat b.toNat).toNat = b := by
    intro b hb
    rw [Utf8.toNat_charOfNat (symbol_of_mem_encode hb).1, UInt8.ofNat_toNat]
  rw [encodeText, Utf8.encode_ofList, Utf8.encodeChars_of_ascii hascii, List.map_map]
  exact (List.map_congr_left hbyte).trans (List.map_id _)

/-- There are no blanks around the text. -/
theorem trim_encodeText (bs : Bytes) : Text.trim (encodeText bs) = encodeText bs := by
  have hblank : ∀ c ∈ (encode bs).map (fun b => Char.ofNat b.toNat), Text.isBlank c = false := by
    intro c hc
    obtain ⟨b, hb, rfl⟩ := List.mem_map.1 hc
    exact forall_mem_encode (P := fun b => Text.isBlank (Char.ofNat b.toNat) = false)
      (by decide) (by decide) bs b hb
  rw [Text.trim, encodeText, String.toList_ofList, Text.trimChars_of_ends]
  · exact fun c hc => hblank c (List.mem_of_mem_head? hc)
  · exact fun c hc => hblank c (List.mem_of_getLast? hc)

/-- No blank stands among the symbols. -/
theorem filter_encode (bs : Bytes) : (encode bs).filter (!Text.isAsciiBlank ·) = encode bs := by
  refine List.filter_eq_self.2 fun b hb => ?_
  rw [(symbol_of_mem_encode hb).2]
  rfl

/-- Only for no bytes there is no text. -/
theorem encodeText_eq_empty {bs : Bytes} : encodeText bs = "" ↔ bs = [] := by
  constructor
  · intro h
    have hencode := encode_encodeText bs
    rw [h] at hencode
    cases bs with
    | nil => rfl
    | cons a bs => exact absurd hencode.symm (encode_cons_ne_nil a bs)
  · rintro rfl
    rfl

end SoapMtom.Base64
