import Mathlib.Data.Bool.AllAny
import SoapMtom.Proofs.Xml.NameBytes
import SoapMtom.Xml.Markup
import SoapMtom.Xml.TagContent

/-!
# The inside of a tag, written and read

`tagBytes` is what stands between the brackets of a tag that is written: a name, and attributes
between double quotes. Escaping leaves no quote and no bracket in a value, so the tag ends where it
should, and its name and attributes are found again:

> `breakTag_tagBytes`: the tag ends at the first `>` after it.
>
> `tagName_tagBytes`, `tagAttributes_tagBytes`: the name and the attributes are the ones written.
-/

namespace SoapMtom.Xml

/-- An attribute as it is read back from a tag. -/
def rawAttribute (a : String × String) : RawAttribute :=
  { key := Utf8.encode a.1, value := Utf8.encode (escape a.2) }

/-- The bytes of an attribute, with the space before it. -/
def attributeBytes (a : String × String) : Bytes :=
  32 :: Utf8.encode a.1 ++ 61 :: 34 :: Utf8.encode (escape a.2) ++ [34]

/-- The bytes between the brackets of a tag. -/
def tagBytes (name : String) (attributes : List (String × String)) : Bytes :=
  Utf8.encode name ++ attributes.flatMap attributeBytes

theorem encodeChars_renderAttribute (a : String × String) :
    Utf8.encodeChars (Markup.renderAttribute a) = attributeBytes a := by
  simp [Markup.renderAttribute, attributeBytes, Utf8.encode_eq_encodeChars, String.utf8EncodeChar]

theorem encodeChars_renderAttributes (name : String) (attributes : List (String × String)) :
    Utf8.encodeChars (name.toList ++ attributes.flatMap Markup.renderAttribute) =
      tagBytes name attributes := by
  rw [Utf8.encodeChars_append, Utf8.encodeChars_flatMap]
  simp only [encodeChars_renderAttribute]
  rfl

/-! ## Bytes that keys and values lack -/

/-- A key has none of the bytes by which a tag is read. -/
theorem ne_of_mem_key {s : String} (h : IsKey s) {b : UInt8} (hb : b ∈ Utf8.encode s) :
    isSpace b = false ∧ b ≠ 61 ∧ b ≠ 62 ∧ b ≠ 34 ∧ b ≠ 39 ∧ b ≠ 47 ∧ b ≠ 33 ∧ b ≠ 63 ∧ b ≠ 60 := by
  have hall : ∀ n < 256, isNameByte (UInt8.ofNat n) = true ∨ UInt8.ofNat n = 58 →
      isSpace (UInt8.ofNat n) = false ∧ UInt8.ofNat n ≠ 61 ∧ UInt8.ofNat n ≠ 62 ∧
        UInt8.ofNat n ≠ 34 ∧ UInt8.ofNat n ≠ 39 ∧ UInt8.ofNat n ≠ 47 ∧ UInt8.ofNat n ≠ 33 ∧
        UInt8.ofNat n ≠ 63 ∧ UInt8.ofNat n ≠ 60 := by
    decide +kernel
  have := hall b.toNat b.toNat_lt
  rw [UInt8.ofNat_toNat] at this
  exact this (h.2 b hb)

/-- The characters that `escape` never leaves. -/
theorem ne_of_mem_escape {s : String} {c : Char} (hc : c ∈ (escape s).toList) :
    c ≠ '<' ∧ c ≠ '>' ∧ c ≠ '\x27' ∧ c ≠ '\x22' := by
  rw [escape, String.toList_ofList, List.mem_flatMap] at hc
  obtain ⟨d, -, hcd⟩ := hc
  -- what stands for one of the five characters is made of other characters
  have hreference {cs : List Char} (hcs : c ∈ cs)
      (hall : cs.all (fun b => b ≠ '<' ∧ b ≠ '>' ∧ b ≠ '\x27' ∧ b ≠ '\x22') = true) :
      c ≠ '<' ∧ c ≠ '>' ∧ c ≠ '\x27' ∧ c ≠ '\x22' :=
    List.all_iff_forall_prop.1 hall c hcs
  unfold escapeChar at hcd
  split at hcd
  · exact hreference hcd (by decide)
  split at hcd
  · exact hreference hcd (by decide)
  split at hcd
  · exact hreference hcd (by decide)
  split at hcd
  · exact hreference hcd (by decide)
  split at hcd
  · exact hreference hcd (by decide)
  next h₁ h₂ _ h₃ h₄ =>
    rw [List.mem_singleton] at hcd
    subst hcd
    exact ⟨h₁, h₂, h₃, h₄⟩

/-- An escaped text has no bracket and no quote among its bytes. -/
theorem ne_of_mem_encode_escape {s : String} {b : UInt8} (hb : b ∈ Utf8.encode (escape s)) :
    b ≠ 60 ∧ b ≠ 62 ∧ b ≠ 39 ∧ b ≠ 34 := by
  have ascii {k : UInt8} (hk : k.toNat < 128) (h : b = k) :
      Char.ofNat k.toNat ∈ (escape s).toList := by
    subst h
    exact Utf8.mem_of_mem_encodeChars hb hk
  refine ⟨fun h => ?_, fun h => ?_, fun h => ?_, fun h => ?_⟩
  · exact (ne_of_mem_escape (ascii (by decide) h)).1 rfl
  · exact (ne_of_mem_escape (ascii (by decide) h)).2.1 rfl
  · exact (ne_of_mem_escape (ascii (by decide) h)).2.2.1 rfl
  · exact (ne_of_mem_escape (ascii (by decide) h)).2.2.2 rfl

/-! ## The end of a tag -/

namespace Token

/-- Bytes that neither end the tag nor open a quote are passed. -/
theorem breakTag_append {bs : Bytes} (h : ∀ b ∈ bs, b ≠ 62 ∧ b ≠ 34 ∧ b ≠ 39)
    (before rest : Bytes) :
    breakTag none before (bs ++ rest) = breakTag none (bs.reverse ++ before) rest := by
  induction bs generalizing before with
  | nil => rfl
  | cons b bs ih =>
    obtain ⟨h₁, h₂, h₃⟩ := h b (List.mem_cons_self ..)
    rw [List.cons_append, breakTag]
    simp only [h₁, h₂, h₃, if_false, decide_false, Bool.or_self, Bool.false_eq_true]
    rw [ih fun c hc => h c (List.mem_cons_of_mem _ hc)]
    simp

/-- Inside double quotes everything but a double quote is passed. -/
theorem breakTag_inside {bs : Bytes} (h : ∀ b ∈ bs, b ≠ 34) (before rest : Bytes) :
    breakTag (some 34) before (bs ++ rest) = breakTag (some 34) (bs.reverse ++ before) rest := by
  induction bs generalizing before with
  | nil => rfl
  | cons b bs ih =>
    rw [List.cons_append, breakTag, if_neg (h b (List.mem_cons_self ..)),
      ih fun c hc => h c (List.mem_cons_of_mem _ hc)]
    simp

theorem breakTag_attribute {a : String × String} (h : IsKey a.1) (before rest : Bytes) :
    breakTag none before (attributeBytes a ++ rest) =
      breakTag none ((attributeBytes a).reverse ++ before) rest := by
  have hkey : ∀ b ∈ 32 :: Utf8.encode a.1 ++ [61], b ≠ 62 ∧ b ≠ 34 ∧ b ≠ 39 := by
    intro b hb
    rw [List.cons_append, List.mem_cons, List.mem_append, List.mem_singleton] at hb
    rcases hb with rfl | hb | rfl
    · decide
    · have := ne_of_mem_key h hb
      exact ⟨this.2.2.1, this.2.2.2.1, this.2.2.2.2.1⟩
    · decide
  have hvalue : ∀ b ∈ Utf8.encode (escape a.2), b ≠ 34 := fun b hb =>
    (ne_of_mem_encode_escape hb).2.2.2
  -- up to the equals sign no quote is open; then the value runs to the next quote
  have hsplit : attributeBytes a ++ rest =
      (32 :: Utf8.encode a.1 ++ [61]) ++ 34 :: (Utf8.encode (escape a.2) ++ 34 :: rest) := by
    simp [attributeBytes]
  rw [hsplit, breakTag_append hkey, breakTag]
  simp only [if_false, if_true, decide_true, Bool.true_or, show (34 : UInt8) ≠ 62 by decide]
  rw [breakTag_inside hvalue, breakTag, if_pos rfl]
  simp [attributeBytes]

theorem breakTag_attributes {attributes : List (String × String)}
    (h : ∀ a ∈ attributes, IsKey a.1) (before rest : Bytes) :
    breakTag none before (attributes.flatMap attributeBytes ++ rest) =
      breakTag none ((attributes.flatMap attributeBytes).reverse ++ before) rest := by
  induction attributes generalizing before with
  | nil => rfl
  | cons a attributes ih =>
    rw [List.flatMap_cons, List.append_assoc, breakTag_attribute (h a (List.mem_cons_self ..)),
      ih fun b hb => h b (List.mem_cons_of_mem _ hb)]
    simp

/-- A tag ends after its last attribute; `tail` is what may still follow, such as a slash. -/
theorem breakTag_tagBytes {name : String} {attributes : List (String × String)} {tail : Bytes}
    (hname : IsKey name) (h : ∀ a ∈ attributes, IsKey a.1)
    (htail : ∀ b ∈ tail, b ≠ 62 ∧ b ≠ 34 ∧ b ≠ 39) (rest : Bytes) :
    breakTag none [] (tagBytes name attributes ++ (tail ++ 62 :: rest)) =
      some (tagBytes name attributes ++ tail, rest) := by
  have hkey : ∀ b ∈ Utf8.encode name, b ≠ 62 ∧ b ≠ 34 ∧ b ≠ 39 := fun b hb =>
    have := ne_of_mem_key hname hb
    ⟨this.2.2.1, this.2.2.2.1, this.2.2.2.2.1⟩
  rw [tagBytes, List.append_assoc, breakTag_append hkey, breakTag_attributes h,
    breakTag_append htail, breakTag, if_pos rfl]
  simp

end Token

/-! ## The name and the attributes -/

/-- No attribute, or a space before the first one. -/
theorem attributes_eq_nil_or_space (attributes : List (String × String)) :
    attributes.flatMap attributeBytes = [] ∨
      ∃ rest, attributes.flatMap attributeBytes = 32 :: rest := by
  cases attributes with
  | nil => exact .inl rfl
  | cons a attributes => exact .inr ⟨_, rfl⟩

private theorem takeWhile_append_of_stop {p : UInt8 → Bool} {bs rest : Bytes}
    (h : ∀ b ∈ bs, p b = true) (hrest : rest = [] ∨ ∃ b tail, rest = b :: tail ∧ p b = false) :
    (bs ++ rest).takeWhile p = bs ∧ (bs ++ rest).dropWhile p = rest := by
  rw [List.takeWhile_append_of_pos h, List.dropWhile_append_of_pos h]
  rcases hrest with rfl | ⟨b, tail, rfl, hb⟩
  · simp
  · simp [hb]

private theorem name_split {name : String} (hname : IsKey name)
    (attributes : List (String × String)) :
    (tagBytes name attributes).takeWhile (!isSpace ·) = Utf8.encode name ∧
      (tagBytes name attributes).dropWhile (!isSpace ·) = attributes.flatMap attributeBytes := by
  refine takeWhile_append_of_stop (fun b hb => ?_) ?_
  · simp [(ne_of_mem_key hname hb).1]
  · rcases attributes_eq_nil_or_space attributes with h | ⟨rest, h⟩
    · exact .inl h
    · exact .inr ⟨32, rest, h, rfl⟩

theorem tagName_tagBytes {name : String} (hname : IsKey name)
    (attributes : List (String × String)) :
    tagName (tagBytes name attributes) = Utf8.encode name :=
  (name_split hname attributes).1

/-- A value between double quotes. -/
theorem readValue_quoted (total : Nat) {value : Bytes} (h : ∀ b ∈ value, b ≠ 34) (rest : Bytes) :
    readValue total (34 :: (value ++ 34 :: rest)) = .ok (value, rest) := by
  have hp : ∀ b ∈ value, (b != 34) = true := fun b hb => bne_iff_ne.2 (h b hb)
  obtain ⟨htake, hdrop⟩ := takeWhile_append_of_stop hp (.inr ⟨34, rest, rfl, rfl⟩)
  rw [readValue]
  simp [htake, hdrop]

/-- After the space in front of it an attribute starts with its key. -/
private theorem dropWhile_attributeBytes {a : String × String} (hkey : IsKey a.1) (rest : Bytes) :
    (attributeBytes a ++ rest).dropWhile isSpace =
      Utf8.encode a.1 ++ 61 :: 34 :: (Utf8.encode (escape a.2) ++ 34 :: rest) := by
  have hbytes : attributeBytes a ++ rest =
      32 :: (Utf8.encode a.1 ++ 61 :: 34 :: (Utf8.encode (escape a.2) ++ 34 :: rest)) := by
    simp [attributeBytes]
  rw [hbytes, List.dropWhile_cons_of_pos rfl]
  cases hname : Utf8.encode a.1 with
  | nil => exact absurd (Utf8.encode_eq_nil.1 hname) hkey.1
  | cons b bs =>
    have hb : b ∈ Utf8.encode a.1 := by
      rw [hname]
      exact List.mem_cons_self ..
    rw [List.cons_append, List.dropWhile_cons_of_neg (by simp [(ne_of_mem_key hkey hb).1])]

/-- A key ends at the equals sign. -/
private theorem key_split {name : String} (hkey : IsKey name) {first : UInt8} {after : Bytes}
    (hname : Utf8.encode name = first :: after) (rest : Bytes) :
    (after ++ 61 :: rest).takeWhile (!endsKey ·) = after ∧
      ((after ++ 61 :: rest).dropWhile (!endsKey ·)).dropWhile isSpace = 61 :: rest := by
  have hkept : ∀ b ∈ after, (!endsKey b) = true := by
    intro b hb
    have hmem : b ∈ Utf8.encode name := by
      rw [hname]
      exact List.mem_cons_of_mem _ hb
    obtain ⟨hspace, hequals, -⟩ := ne_of_mem_key hkey hmem
    simp [endsKey, hspace, hequals]
  obtain ⟨htake, hdrop⟩ := takeWhile_append_of_stop hkept (.inr ⟨61, rest, rfl, rfl⟩)
  refine ⟨htake, ?_⟩
  rw [hdrop]
  rfl

/-- One attribute is read off the front. -/
private theorem readAttributes_cons (total : Nat) {distinct : Bool} {seen : List (Bytes × Nat)}
    {a : String × String} (hkey : IsKey a.1)
    (hseen : distinct = true → seen.lookup (Utf8.encode a.1) = none) (rest : Bytes) :
    ∃ place, readAttributes total distinct seen (attributeBytes a ++ rest) =
      .cons (rawAttribute a)
        (readAttributes total distinct ((Utf8.encode a.1, place) :: seen) rest) := by
  obtain ⟨first, after, hfirst⟩ := List.exists_cons_of_ne_nil
    (fun h => hkey.1 (Utf8.encode_eq_nil.1 h))
  have hstart := dropWhile_attributeBytes hkey rest
  rw [hfirst, List.cons_append] at hstart
  obtain ⟨htake, hequals⟩ := key_split hkey hfirst (34 :: (Utf8.encode (escape a.2) ++ 34 :: rest))
  have hquote : (34 :: (Utf8.encode (escape a.2) ++ 34 :: rest)).dropWhile isSpace =
      34 :: (Utf8.encode (escape a.2) ++ 34 :: rest) := rfl
  have hplain : ∀ b ∈ Utf8.encode (escape a.2), b ≠ 34 := fun b hb =>
    (ne_of_mem_encode_escape hb).2.2.2
  have hvalue := readValue_quoted total hplain rest
  have hlookup : (if distinct then seen.lookup (Utf8.encode a.1) else none) = none := by
    cases distinct with
    | true => exact hseen rfl
    | false => rfl
  refine ⟨total - (first :: (after ++ 61 :: 34 :: (Utf8.encode (escape a.2) ++ 34 :: rest))).length,
    ?_⟩
  -- the function is split where it looks at bytes; what it finds there is known each time
  rw [readAttributes]
  split
  · next h => rw [hstart] at h; simp at h
  next first' after' h =>
  rw [hstart] at h
  obtain ⟨rfl, rfl⟩ := List.cons.inj h
  simp only [htake, ← hfirst]
  split
  · next h => rw [hequals] at h; simp at h
  next eq afterEq h =>
  rw [hequals] at h
  obtain ⟨rfl, rfl⟩ := List.cons.inj h
  rw [if_pos rfl, hlookup]
  simp only
  split
  · next h => rw [hquote, hvalue] at h; simp at h
  next value rest' h =>
  rw [hquote, hvalue] at h
  simp only [Except.ok.injEq, Prod.mk.injEq] at h
  obtain ⟨rfl, rfl⟩ := h
  rfl

/-- Attributes whose keys were not seen before, and differ if they have to, are read one by one. -/
private theorem readAttributes_attributes (total : Nat) {distinct : Bool}
    {attributes : List (String × String)} {seen : List (Bytes × Nat)}
    (hkeys : ∀ a ∈ attributes, IsKey a.1)
    (hseen : distinct = true → ∀ a ∈ attributes, seen.lookup (Utf8.encode a.1) = none)
    (hnodup : distinct = true → (attributes.map Prod.fst).Nodup) :
    readAttributes total distinct seen (attributes.flatMap attributeBytes) =
      { attributes := attributes.map rawAttribute, failure := none } := by
  induction attributes generalizing seen with
  | nil => rw [readAttributes]; rfl
  | cons a attributes ih =>
    obtain ⟨place, hstep⟩ := readAttributes_cons total (hkeys a (List.mem_cons_self ..))
      (fun hd => hseen hd a (List.mem_cons_self ..)) (attributes.flatMap attributeBytes)
    rw [List.flatMap_cons, hstep, ih fun b hb => hkeys b (List.mem_cons_of_mem _ hb)]
    · rfl
    · intro hd b hb
      have hne : a.1 ≠ b.1 := fun h =>
        (List.nodup_cons.1 (hnodup hd)).1 (h ▸ List.mem_map_of_mem hb)
      have hkey : Utf8.encode b.1 ≠ Utf8.encode a.1 := fun h => hne (Utf8.encode_injective h).symm
      rw [List.lookup_cons, beq_false_of_ne hkey]
      exact hseen hd b (List.mem_cons_of_mem _ hb)
    · exact fun hd => (List.nodup_cons.1 (hnodup hd)).2

theorem tagAttributes_tagBytes {name : String} {attributes : List (String × String)}
    {distinct : Bool} (hname : IsKey name) (hkeys : ∀ a ∈ attributes, IsKey a.1)
    (hnodup : distinct = true → (attributes.map Prod.fst).Nodup) :
    tagAttributes distinct (tagBytes name attributes) =
      { attributes := attributes.map rawAttribute, failure := none } := by
  rw [tagAttributes, (name_split hname attributes).2]
  exact readAttributes_attributes _ hkeys (fun _ _ _ => rfl) hnodup

end SoapMtom.Xml
