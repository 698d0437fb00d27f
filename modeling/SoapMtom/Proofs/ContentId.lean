import Mathlib.Data.Bool.AllAny
import SoapMtom.ContentId
import SoapMtom.Proofs.Text.Cut
import SoapMtom.Proofs.Text.Encoding

/-!
# Content ids in references are read back

Whatever a content id is made of, the reference that is written for it names it again. Main
statements:

> `ContentId.decode_encode`: reading undoes the escapes.
>
> `ContentId.ofReference?_encode`: the `cid:` URL of a content id names that id.
-/

namespace SoapMtom.ContentId

/-! ## Bytes -/

/-- A digit is ASCII, no blank, and has its value. -/
theorem hexDigit_spec : ∀ d < 16, (hexDigit d).toNat < 128 ∧
    Text.isBlank (hexDigit d) = false ∧
      hexValue? (UInt8.ofNat (hexDigit d).toNat) = some d := by
  decide

/-- A byte that stands for itself is ASCII, no blank and no percent sign. -/
theorem plain_spec {b : UInt8} (h : isPlain b = true) :
    b.toNat < 128 ∧ Text.isBlank (Char.ofNat b.toNat) = false ∧ b ≠ 37 := by
  have hall : ∀ n < 256, isPlain (UInt8.ofNat n) = true →
      n < 128 ∧ Text.isBlank (Char.ofNat n) = false ∧ UInt8.ofNat n ≠ 37 := by
    decide +kernel
  have hb := hall b.toNat b.toNat_lt
  rw [UInt8.ofNat_toNat] at hb
  exact hb h

/-- A byte is written with ASCII characters other than blanks. -/
theorem ascii_of_mem_encodeByte {b : UInt8} {c : Char} (hc : c ∈ encodeByte b) :
    c.toNat < 128 ∧ Text.isBlank c = false := by
  have hb := b.toNat_lt
  unfold encodeByte at hc
  split at hc
  · next hplain =>
    obtain ⟨hlt, hblank, -⟩ := plain_spec hplain
    rw [List.mem_singleton] at hc
    subst hc
    rw [Utf8.toNat_charOfNat hlt]
    exact ⟨hlt, hblank⟩
  · obtain ⟨hhigh, hhighBlank, -⟩ := hexDigit_spec (b.toNat / 16) (by omega)
    obtain ⟨hlow, hlowBlank, -⟩ := hexDigit_spec (b.toNat % 16) (by omega)
    simp only [List.mem_cons, List.not_mem_nil, or_false] at hc
    rcases hc with rfl | rfl | rfl
    · decide
    · exact ⟨hhigh, hhighBlank⟩
    · exact ⟨hlow, hlowBlank⟩

/-- A byte that was written is read, and what follows it is left. -/
private theorem decodeBytes_encodeByte (b : UInt8) (rest : Bytes) :
    decodeBytes (Utf8.encodeChars (encodeByte b) ++ rest) = b :: decodeBytes rest := by
  rw [Utf8.encodeChars_of_ascii fun c hc => (ascii_of_mem_encodeByte hc).1]
  have hb := b.toNat_lt
  unfold encodeByte
  split
  · next hplain =>
    obtain ⟨hlt, -, hne⟩ := plain_spec hplain
    rw [List.map_singleton, List.singleton_append, Utf8.toNat_charOfNat hlt, UInt8.ofNat_toNat]
    rw [decodeBytes]
    intro _ _ _ he _
    exact hne he
  · obtain ⟨-, -, hhigh⟩ := hexDigit_spec (b.toNat / 16) (by omega)
    obtain ⟨-, -, hlow⟩ := hexDigit_spec (b.toNat % 16) (by omega)
    have hbyte : UInt8.ofNat (b.toNat / 16 * 16 + b.toNat % 16) = b := by
      rw [Nat.div_add_mod', UInt8.ofNat_toNat]
    show decodeBytes (37 :: UInt8.ofNat (hexDigit (b.toNat / 16)).toNat ::
      UInt8.ofNat (hexDigit (b.toNat % 16)).toNat :: rest) = _
    rw [decodeBytes, escapedByte?, hhigh, hlow]
    dsimp only
    rw [hbyte]

/-! ## Ids -/

/-- What is written for an id is ASCII without blanks. -/
theorem ascii_of_mem_encode {id : String} {c : Char} (hc : c ∈ (encode id).toList) :
    c.toNat < 128 ∧ Text.isBlank c = false := by
  rw [encode, String.toList_ofList] at hc
  obtain ⟨b, -, hc⟩ := List.mem_flatMap.1 hc
  exact ascii_of_mem_encodeByte hc

/-- An id that was written is read back. -/
theorem decode_encode (id : String) : decode (encode id) = id := by
  have hall : ∀ bs : Bytes, decodeBytes (Utf8.encodeChars (bs.flatMap encodeByte)) = bs := by
    intro bs
    induction bs with
    | nil =>
      unfold decodeBytes
      rfl
    | cons b bs ih =>
      rw [List.flatMap_cons, Utf8.encodeChars_append, decodeBytes_encodeByte, ih]
  rw [decode, encode, Utf8.encode_ofList, hall, Utf8.lossy_encode]

/-- The `cid:` URL of an id names that id. -/
theorem ofReference?_encode (id : String) : ofReference? ("cid:" ++ encode id) = some id := by
  have hlist : ("cid:" ++ encode id).toList = 'c' :: 'i' :: 'd' :: ':' :: (encode id).toList := by
    rw [String.toList_append]
    rfl
  have hblank : ∀ c ∈ ("cid:" ++ encode id).toList, Text.isBlank c = false := by
    intro c hc
    rw [String.toList_append] at hc
    rcases List.mem_append.1 hc with hc | hc
    · have hall : ∀ d ∈ "cid:".toList, Text.isBlank d = false :=
        List.all_iff_forall_prop.1 (by decide)
      exact hall c hc
    · exact (ascii_of_mem_encode hc).2
  have htrim : Text.trimChars ("cid:" ++ encode id).toList =
      'c' :: 'i' :: 'd' :: ':' :: (encode id).toList := by
    rw [Text.trimChars_of_ends (fun c hc => hblank c (List.mem_of_mem_head? hc)) fun c hc =>
      hblank c (List.mem_of_getLast? hc), hlist]
  rw [ofReference?, htrim]
  dsimp only
  rw [if_pos (by decide), String.ofList_toList, decode_encode]

end SoapMtom.ContentId
