import SoapMtom.Proofs.Text.Encoding
import SoapMtom.Xml.Name
import SoapMtom.Xml.TagContent

/-!
# Names as bytes

Names may hold letters of every script, but none of the ASCII characters by which tags are read:
no blank, no quote, no bracket, no slash, no equals sign and no colon. All that is proved of tags
rests on this alone, so it holds for every text without these characters. Main statements:

> `isNameByte_of_isName`: the bytes of a name are name bytes.
>
> `plain_generated`: so are those of the prefixes that are made up for namespaces.
-/

namespace SoapMtom.Xml

/-- The bytes with which names can be written: all but blanks and the marks by which tags are read,
which are quotes, slashes, colons, angle brackets, equals signs, and the two marks that may follow
an opening bracket. -/
def isNameByte (b : UInt8) : Bool :=
  !isSpace b && b ∉ [33, 34, 39, 47, 58, 60, 61, 62, 63]

/-- A text that is not empty and is written in name bytes. -/
def Plain (s : String) : Prop := s ≠ "" ∧ ∀ b ∈ Utf8.encode s, isNameByte b = true

instance : DecidablePred Plain := fun s =>
  have := List.decidableBAll (isNameByte · = true) (Utf8.encode s)
  inferInstanceAs (Decidable (s ≠ "" ∧ ∀ b ∈ Utf8.encode s, isNameByte b = true))

/-- A text that is not empty and is written in name bytes and colons: a name with or without a
prefix. -/
def IsKey (s : String) : Prop := s ≠ "" ∧ ∀ b ∈ Utf8.encode s, isNameByte b = true ∨ b = 58

/-- An ASCII character lies in a range only if the range starts below 128. -/
private theorem within_filter {c : Char} (h : c.toNat < 128) (ranges : List Text.CodePointRange) :
    c.within ranges = c.within (ranges.filter (·.1 < 128)) := by
  unfold Char.within
  rw [List.any_filter]
  congr 1
  funext range
  rcases Nat.lt_or_ge range.1 128 with hlt | hge
  · simp [hlt]
  · have hn : ¬ range.1 ≤ c.toNat := by omega
    simp [hn]

private theorem alphabeticRanges_ascii :
    Text.alphabeticRanges.filter (·.1 < 128) = [(65, 90), (97, 122)] := by
  decide +kernel

private theorem numericRanges_ascii : Text.numericRanges.filter (·.1 < 128) = [(48, 57)] := by
  decide

/-- The ASCII characters that names may hold. -/
private theorem isNameByte_of_ascii {b : UInt8} (hb : b.toNat < 128)
    (h : isNameRest (Char.ofNat b.toNat) = true) : isNameByte b = true := by
  have hall : ∀ n < 128,
      ((Char.ofNat n).within [(65, 90), (97, 122)] || (Char.ofNat n).within [(48, 57)] ||
        Char.ofNat n = '_' || Char.ofNat n = '-' || Char.ofNat n = '.') = true →
      isNameByte (UInt8.ofNat n) = true := by
    decide
  have hval : (Char.ofNat b.toNat).toNat < 128 := by rwa [Utf8.toNat_charOfNat hb]
  rw [isNameRest, Text.isAlphabetic, Text.isNumeric, within_filter hval Text.alphabeticRanges,
    within_filter hval Text.numericRanges,
    alphabeticRanges_ascii, numericRanges_ascii] at h
  have := hall b.toNat hb h
  rwa [UInt8.ofNat_toNat] at this

theorem isNameByte_of_le {b : UInt8} (h : 128 ≤ b.toNat) : isNameByte b = true := by
  have hall : ∀ n < 256, 128 ≤ n → isNameByte (UInt8.ofNat n) = true := by decide +kernel
  have := hall b.toNat b.toNat_lt h
  rwa [UInt8.ofNat_toNat] at this

theorem isNameRest_of_isName {s : String} (h : isName s = true) :
    ∀ c ∈ s.toList, isNameRest c = true := by
  unfold isName at h
  split at h
  · simp at h
  · next c rest hs =>
    rw [Bool.and_eq_true, List.all_eq_true] at h
    intro d hd
    rw [hs] at hd
    rcases List.mem_cons.1 hd with rfl | hd
    · have hstart := h.1
      simp only [isNameStart, isNameRest, Bool.or_eq_true] at hstart ⊢
      rcases hstart with h' | h'
      · exact .inl (.inl (.inl (.inl h')))
      · exact .inl (.inl (.inr h'))
    · exact h.2 d hd

theorem isNameByte_of_isName {s : String} (h : isName s = true) :
    ∀ b ∈ Utf8.encode s, isNameByte b = true := by
  refine Utf8.forall_mem_encodeChars ?_ fun b hb => isNameByte_of_le hb
  intro b hb hmem
  exact isNameByte_of_ascii hb (isNameRest_of_isName h _ hmem)

theorem plain_of_isName {s : String} (h : isName s = true) : Plain s := by
  refine ⟨?_, isNameByte_of_isName h⟩
  rintro rfl
  simp [isName] at h

/-- The prefixes made up for namespaces are written in name bytes. -/
theorem plain_generated (k : Nat) : Plain ("ns" ++ toString k) := by
  have hchars : ("ns" ++ toString k).toList = 'n' :: 's' :: Nat.toDigits 10 k := by
    simp [String.toList_append]
  have hascii : ∀ n < 128, Char.ofNat n = 'n' ∨ Char.ofNat n = 's' ∨ (Char.ofNat n).isDigit = true →
      isNameByte (UInt8.ofNat n) = true := by
    decide
  constructor
  · intro h
    rw [h] at hchars
    simp at hchars
  · refine Utf8.forall_mem_encodeChars ?_ fun b hb => isNameByte_of_le hb
    intro b hb hmem
    rw [hchars] at hmem
    have hcases : Char.ofNat b.toNat = 'n' ∨ Char.ofNat b.toNat = 's' ∨
        (Char.ofNat b.toNat).isDigit = true := by
      rcases List.mem_cons.1 hmem with h | hmem
      · exact .inl h
      rcases List.mem_cons.1 hmem with h | hmem
      · exact .inr (.inl h)
      · exact .inr (.inr (Nat.isDigit_of_mem_toDigits (by omega) (by omega) hmem))
    have := hascii b.toNat hb hcases
    rwa [UInt8.ofNat_toNat] at this

/-- The numbers of the prefixes tell them apart. -/
theorem generated_injective {j k : Nat} (h : "ns" ++ toString j = "ns" ++ toString k) : j = k := by
  have hchars := congrArg String.toList h
  simp only [String.toList_append, Nat.toString_eq_ofList_toDigits, String.toList_ofList] at hchars
  have hdigits := List.append_cancel_left hchars
  have hnumbers := congrArg (fun ds => Nat.ofDigitChars 10 ds 0) hdigits
  simpa only [Nat.ofDigitChars_ten_toDigits] using hnumbers

theorem isKey_of_plain {s : String} (h : Plain s) : IsKey s :=
  ⟨h.1, fun b hb => .inl (h.2 b hb)⟩

/-- A name after a prefix and a colon. -/
theorem isKey_prefixed {p s : String} (hp : Plain p) (hs : Plain s) : IsKey (p ++ ":" ++ s) := by
  constructor
  · intro h
    have := congrArg String.toList h
    simp [String.toList_append] at this
  · intro b hb
    rw [Utf8.encode_append, Utf8.encode_append, List.mem_append, List.mem_append] at hb
    rcases hb with (hb | hb) | hb
    · exact .inl (hp.2 b hb)
    · exact .inr (by simpa [Utf8.encode, String.utf8EncodeChar] using hb)
    · exact .inl (hs.2 b hb)

end SoapMtom.Xml
