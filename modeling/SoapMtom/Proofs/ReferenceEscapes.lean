import Mathlib.Data.List.Forall2
import SoapMtom.Proofs.ContentId
import SoapMtom.Proofs.Text.Lossy

/-!
# Escapes in references

`Unescapes` says, apart from any reader, what a scan from left to right makes of escapes, and
`Spells` how a content id may be written with them. The reader takes one thing for an escape that is
none: a percent sign, a plus sign and one digit. Main statements:

> `ContentId.decode_eq_lossy_iff`: what is read is what the escapes stand for, exactly if no percent
> sign is followed by a plus sign and a digit.
>
> `ContentId.decode_of_spells`: however a content id is spelled, that id is read; the spelling that
> is written makes a reference that names the id, and no other id has it.
-/

namespace SoapMtom.ContentId

/-! ## What escapes stand for -/

/-- The byte is the hexadecimal digit of that value, in either case. -/
def IsDigit (b : UInt8) (n : Nat) : Prop :=
  (Utf8.encode "0123456789abcdef")[n]? = some b ∨ (Utf8.encode "0123456789ABCDEF")[n]? = some b

/-- The two bytes are the hexadecimal digits of a byte. -/
def Denotes (a b byte : UInt8) : Prop :=
  ∃ high low, IsDigit a high ∧ IsDigit b low ∧ byte.toNat = 16 * high + low

/-- What a scan from left to right makes of bytes, where `Reads` says which two bytes after a
percent sign stand for a byte: these three bytes are replaced by it, and every other byte is
copied. -/
inductive Unescapes (Reads : UInt8 → UInt8 → UInt8 → Prop) : Bytes → Bytes → Prop where
  | nil : Unescapes Reads [] []
  | escape {a b byte : UInt8} {rest out : Bytes} (reads : Reads a b byte)
      (later : Unescapes Reads rest out) : Unescapes Reads (37 :: a :: b :: rest) (byte :: out)
  | copy {b : UInt8} {rest out : Bytes}
      (no_escape : ∀ c d tail byte, b :: rest = 37 :: c :: d :: tail → ¬Reads c d byte)
      (later : Unescapes Reads rest out) : Unescapes Reads (b :: rest) (b :: out)

section Scan

variable {Reads : UInt8 → UInt8 → UInt8 → Prop} {bs out out' : Bytes}

/-- Every byte string can be scanned. -/
theorem exists_unescapes (Reads : UInt8 → UInt8 → UInt8 → Prop) (bs : Bytes) :
    ∃ out, Unescapes Reads bs out := by
  induction hn : bs.length using Nat.strongRecOn generalizing bs with
  | ind n ih =>
    cases bs with
    | nil => exact ⟨[], .nil⟩
    | cons b rest =>
      by_cases h : ∃ c d tail byte, b :: rest = 37 :: c :: d :: tail ∧ Reads c d byte
      · obtain ⟨c, d, tail, byte, heq, hreads⟩ := h
        rw [heq] at hn ⊢
        obtain ⟨out, hout⟩ := ih tail.length (by simp at hn; omega) tail rfl
        exact ⟨_, .escape hreads hout⟩
      · obtain ⟨out, hout⟩ := ih rest.length (by simp at hn; omega) rest rfl
        exact ⟨_, .copy (fun c d tail byte heq hreads => h ⟨c, d, tail, byte, heq, hreads⟩) hout⟩

/-- If two bytes stand for one byte at most, the scan has one result. -/
theorem Unescapes.unique (hone : ∀ a b x y, Reads a b x → Reads a b y → x = y)
    (h : Unescapes Reads bs out) (h' : Unescapes Reads bs out') : out = out' := by
  induction h generalizing out' with
  | nil =>
    cases h'
    rfl
  | escape reads _ ih =>
    cases h' with
    | escape reads' later' => rw [hone _ _ _ _ reads reads', ih later']
    | copy no_escape' _ => exact absurd reads (no_escape' _ _ _ _ rfl)
  | copy no_escape _ ih =>
    cases h' with
    | escape reads' _ => exact absurd reads' (no_escape _ _ _ _ rfl)
    | copy _ later' => rw [ih later']

end Scan

/-! ## What is read -/

/-- The reader knows the sixteen digits in both cases, and no others. -/
private theorem hexValue?_eq_some {b : UInt8} {n : Nat} : hexValue? b = some n ↔ IsDigit b n := by
  have hvalue : ∀ k < 256, ∀ m ∈ hexValue? (UInt8.ofNat k), IsDigit (UInt8.ofNat k) m := by
    unfold IsDigit
    decide +kernel
  have hdigit : ∀ digits ∈ ["0123456789abcdef", "0123456789ABCDEF"],
      (Utf8.encode digits).length = 16 ∧
        ∀ m < 16, ∀ d ∈ (Utf8.encode digits)[m]?, hexValue? d = some m := by
    decide +kernel
  constructor
  · intro h
    have hdigit := hvalue b.toNat b.toNat_lt n
    rw [UInt8.ofNat_toNat] at hdigit
    exact hdigit h
  · have hread : ∀ digits ∈ ["0123456789abcdef", "0123456789ABCDEF"],
        (Utf8.encode digits)[n]? = some b → hexValue? b = some n := by
      intro digits hmem h
      obtain ⟨hlength, hall⟩ := hdigit digits hmem
      exact hall n (hlength ▸ (List.getElem?_eq_some_iff.1 h).1) b h
    rintro (h | h)
    · exact hread _ (by simp) h
    · exact hread _ (by simp) h

/-- What the reader takes for an escape: two digits, or a plus sign and one digit. -/
def ReadsAs (a b byte : UInt8) : Prop := Denotes a b byte ∨ a = 43 ∧ IsDigit b byte.toNat

private theorem lt_of_isDigit {b : UInt8} {n : Nat} (h : IsDigit b n) : n < 16 := by
  have hall : ∀ k < 256, ∀ m ∈ hexValue? (UInt8.ofNat k), m < 16 := by decide +kernel
  have hlt := hall b.toNat b.toNat_lt n
  rw [UInt8.ofNat_toNat] at hlt
  exact hlt (hexValue?_eq_some.2 h)

/-- Neither a percent sign nor a plus sign is a digit. -/
private theorem ne_of_isDigit {b : UInt8} {n : Nat} (h : IsDigit b n) : b ≠ 37 ∧ b ≠ 43 := by
  have hnone : hexValue? 37 = none ∧ hexValue? 43 = none := by decide
  rw [← hexValue?_eq_some] at h
  constructor
  · rintro rfl
    rw [hnone.1] at h
    cases h
  · rintro rfl
    rw [hnone.2] at h
    cases h

/-- A byte has one value as a digit at most. -/
private theorem isDigit_unique {b : UInt8} {m n : Nat} (hm : IsDigit b m) (hn : IsDigit b n) :
    m = n :=
  Option.some.inj ((hexValue?_eq_some.2 hm).symm.trans (hexValue?_eq_some.2 hn))

private theorem denotes_unique (a b x y : UInt8) (hx : Denotes a b x) (hy : Denotes a b y) :
    x = y := by
  obtain ⟨high, low, ha, hb, hx⟩ := hx
  obtain ⟨high', low', ha', hb', hy⟩ := hy
  rw [← UInt8.toNat_inj, hx, hy, isDigit_unique ha ha', isDigit_unique hb hb']

/-- The reader takes the bytes for an escape that it should, and one more kind. -/
private theorem escapedByte?_eq_some {a b byte : UInt8} :
    escapedByte? a b = some byte ↔ ReadsAs a b byte := by
  unfold escapedByte?
  split
  · next high low ha hb =>
    rw [hexValue?_eq_some] at ha hb
    have hhigh := lt_of_isDigit ha
    have hlow := lt_of_isDigit hb
    constructor
    · intro h
      obtain rfl := Option.some.inj h
      refine .inl ⟨high, low, ha, hb, ?_⟩
      rw [UInt8.toNat_ofNat']
      omega
    · rintro (h | ⟨rfl, -⟩)
      · refine congrArg some (denotes_unique _ _ _ _ ⟨high, low, ha, hb, ?_⟩ h)
        rw [UInt8.toNat_ofNat']
        omega
      · exact absurd rfl (ne_of_isDigit ha).2
  · next low ha hb =>
    rw [hexValue?_eq_some] at hb
    have hlow := lt_of_isDigit hb
    constructor
    · intro h
      split at h
      · next hplus =>
        obtain rfl := Option.some.inj h
        refine .inr ⟨hplus, ?_⟩
        rwa [UInt8.toNat_ofNat', Nat.mod_eq_of_lt (by omega)]
      · cases h
    · rintro (⟨high, -, ha', -⟩ | ⟨rfl, hdigit⟩)
      · rw [← hexValue?_eq_some, ha] at ha'
        cases ha'
      · rw [if_pos rfl, isDigit_unique hb hdigit, UInt8.ofNat_toNat]
  · next hb =>
    constructor
    · intro h
      cases h
    · rintro (⟨-, low, -, hb', -⟩ | ⟨-, hb'⟩)
      · rw [← hexValue?_eq_some, hb] at hb'
        cases hb'
      · rw [← hexValue?_eq_some, hb] at hb'
        cases hb'

private theorem decodeBytes_escape {a b byte : UInt8} (h : ReadsAs a b byte) (rest : Bytes) :
    decodeBytes (37 :: a :: b :: rest) = byte :: decodeBytes rest := by
  rw [decodeBytes, escapedByte?_eq_some.2 h]

private theorem decodeBytes_copy {b : UInt8} {rest : Bytes}
    (h : ∀ c d tail byte, b :: rest = 37 :: c :: d :: tail → ¬ReadsAs c d byte) :
    decodeBytes (b :: rest) = b :: decodeBytes rest := by
  rw [decodeBytes.eq_def]
  split
  · next c d tail heq =>
    obtain ⟨rfl, rfl⟩ := List.cons.inj heq
    split
    · next byte hbyte => exact absurd (escapedByte?_eq_some.1 hbyte) (h _ _ _ _ rfl)
    · rfl
  · next heq =>
    obtain ⟨rfl, rfl⟩ := List.cons.inj heq
    rfl
  · next heq => cases heq

/-- The reader is a scan for what it takes for escapes. -/
private theorem unescapes_decodeBytes {bs out : Bytes} (h : Unescapes ReadsAs bs out) :
    decodeBytes bs = out := by
  induction h with
  | nil => rfl
  | escape reads _ ih => rw [decodeBytes_escape reads, ih]
  | copy no_escape _ ih => rw [decodeBytes_copy no_escape, ih]

private theorem readsAs_unique (a b x y : UInt8) (hx : ReadsAs a b x) (hy : ReadsAs a b y) :
    x = y :=
  Option.some.inj ((escapedByte?_eq_some.2 hx).symm.trans (escapedByte?_eq_some.2 hy))

/-! ## Escapes that are none -/

/-- Somewhere a percent sign is followed by a plus sign and a digit. -/
def HasSigned (bs : Bytes) : Prop := ∃ d n, IsDigit d n ∧ [37, 43, d] <:+: bs

theorem HasSigned.cons {bs : Bytes} (h : HasSigned bs) (b : UInt8) : HasSigned (b :: bs) := by
  obtain ⟨d, n, hd, hinfix⟩ := h
  exact ⟨d, n, hd, List.infix_cons hinfix⟩

/-- Where there is none, the reader takes nothing for an escape that is none. -/
private theorem Unescapes.readsAs {bs out : Bytes} (h : Unescapes Denotes bs out)
    (hsigned : ¬HasSigned bs) : Unescapes ReadsAs bs out := by
  induction h with
  | nil => exact .nil
  | escape reads _ ih =>
    exact .escape (.inl reads) (ih fun h => hsigned (((h.cons _).cons _).cons _))
  | copy no_escape _ ih =>
    refine .copy (fun c d tail byte heq hreads => ?_) (ih fun h => hsigned (h.cons _))
    rcases hreads with hreads | ⟨rfl, hd⟩
    · exact no_escape c d tail byte heq hreads
    · exact hsigned ⟨d, _, hd, heq ▸ ⟨[], tail, rfl⟩⟩

/-- An escape has no part in a percent sign, a plus sign and a digit. -/
private theorem hasSigned_of_escape {a b byte : UInt8} {rest : Bytes} (h : Denotes a b byte)
    (hsigned : HasSigned (37 :: a :: b :: rest)) : HasSigned rest := by
  obtain ⟨high, low, ha, hb, -⟩ := h
  obtain ⟨d, n, hd, hinfix⟩ := hsigned
  simp only [List.infix_cons_iff, List.cons_prefix_cons] at hinfix
  rcases hinfix with ⟨-, he, -⟩ | ⟨he, -⟩ | ⟨he, -⟩ | hinfix
  · exact absurd he.symm (ne_of_isDigit ha).2
  · exact absurd he.symm (ne_of_isDigit ha).1
  · exact absurd he.symm (ne_of_isDigit hb).1
  · exact ⟨d, n, hd, hinfix⟩

/-- Each of them costs the reader a plus sign. -/
private theorem Unescapes.count_plus {bs out : Bytes} (h : Unescapes Denotes bs out) :
    (decodeBytes bs).count 43 ≤ out.count 43 ∧
      (HasSigned bs → (decodeBytes bs).count 43 < out.count 43) := by
  induction h with
  | nil =>
    refine ⟨Nat.le_refl _, ?_⟩
    rintro ⟨d, n, -, hinfix⟩
    exact absurd (List.infix_nil.1 hinfix) (List.cons_ne_nil _ _)
  | @escape a b byte rest out reads later ih =>
    rw [decodeBytes_escape (.inl reads), List.count_cons, List.count_cons]
    exact ⟨Nat.add_le_add_right ih.1 _, fun h =>
      Nat.add_lt_add_right (ih.2 (hasSigned_of_escape reads h)) _⟩
  | @copy b rest out no_escape later ih =>
    by_cases hsigned : ∃ d tail, ∃ byte : UInt8,
        b :: rest = 37 :: 43 :: d :: tail ∧ IsDigit d byte.toNat
    · obtain ⟨d, tail, byte, heq, hd⟩ := hsigned
      obtain ⟨rfl, rfl⟩ := List.cons.inj heq
      have hread := decodeBytes_escape (.inr ⟨rfl, hd⟩) tail
      -- the scan copies the plus sign that the reader drops
      have hkept : decodeBytes (43 :: d :: tail) = 43 :: d :: decodeBytes tail := by
        rw [decodeBytes_copy fun _ _ _ _ he => absurd (List.cons.inj he).1 (by decide),
          decodeBytes_copy fun _ _ _ _ he => absurd (List.cons.inj he).1 (ne_of_isDigit hd).1]
      have hbyte : (byte == 43) = false := by
        rw [beq_eq_false_iff_ne]
        rintro rfl
        exact absurd (lt_of_isDigit hd) (by decide)
      have hcount := ih.1
      have hout : (37 :: out).count 43 = out.count 43 := List.count_cons_of_ne (by decide)
      rw [hkept, List.count_cons_self, List.count_cons] at hcount
      rw [hread, List.count_cons, hbyte, hout]
      simp only [Bool.false_eq_true, if_false]
      omega
    · have hread : decodeBytes (b :: rest) = b :: decodeBytes rest := by
        refine decodeBytes_copy fun c d tail byte heq hreads => ?_
        rcases hreads with hreads | ⟨rfl, hd⟩
        · exact no_escape c d tail byte heq hreads
        · exact hsigned ⟨d, tail, byte, heq, hd⟩
      rw [hread, List.count_cons, List.count_cons]
      refine ⟨Nat.add_le_add_right ih.1 _, fun h => Nat.add_lt_add_right (ih.2 ?_) _⟩
      obtain ⟨d, n, hd, hinfix⟩ := h
      rcases List.infix_cons_iff.1 hinfix with ⟨tail, heq⟩ | hinfix
      · have hn := lt_of_isDigit hd
        refine absurd ⟨d, tail, UInt8.ofNat n, heq.symm, ?_⟩ hsigned
        rwa [UInt8.toNat_ofNat', Nat.mod_eq_of_lt (by omega)]
      · exact ⟨d, n, hd, hinfix⟩

/-- The id that a reference names is what the escapes in it stand for, unless a percent sign is
followed by a plus sign and a digit: the reader takes these three for an escape too. -/
theorem decode_eq_lossy_iff (h : String) :
    ∃ bytes read, (∀ out, Unescapes Denotes (Utf8.encode h) out ↔ out = bytes) ∧
      (∀ out, Unescapes ReadsAs (Utf8.encode h) out ↔ out = read) ∧
        decode h = Utf8.lossy read ∧
          (decode h = Utf8.lossy bytes ↔ ¬HasSigned (Utf8.encode h)) := by
  obtain ⟨bytes, hbytes⟩ := exists_unescapes Denotes (Utf8.encode h)
  obtain ⟨read, hread⟩ := exists_unescapes ReadsAs (Utf8.encode h)
  have hdecode : decode h = Utf8.lossy read := by rw [decode, unescapes_decodeBytes hread]
  refine ⟨bytes, read, fun out => ⟨fun hout => ?_, ?_⟩, fun out => ⟨fun hout => ?_, ?_⟩, hdecode,
    fun heq hsigned => ?_, fun hsigned => ?_⟩
  · exact hout.unique denotes_unique hbytes
  · rintro rfl
    exact hbytes
  · exact hout.unique readsAs_unique hread
  · rintro rfl
    exact hread
  · have hcount := congrArg (fun s : String => s.toList.count (Char.ofNat (43 : UInt8).toNat)) heq
    have hlt : (decodeBytes (Utf8.encode h)).count 43 < bytes.count 43 :=
      hbytes.count_plus.2 hsigned
    simp only [decode, Utf8.count_lossy (b := 43) (by decide)] at hcount
    omega
  · rw [hdecode, (hbytes.readsAs hsigned).unique readsAs_unique hread]

/-- A percent sign, a plus sign and the digit nine are no escape, but they are read as a tab. -/
theorem not_decode_eq_lossy :
    Unescapes Denotes (Utf8.encode "a%+9b") (Utf8.encode "a%+9b") ∧
      Utf8.lossy (Utf8.encode "a%+9b") = "a%+9b" ∧ decode "a%+9b" = "a\tb" := by
  have hbytes : Utf8.encode "a%+9b" = [97, 37, 43, 57, 98] := by decide
  have hother : ∀ b : UInt8, ∀ rest : Bytes, b ≠ 37 →
      ∀ c d tail byte, b :: rest = 37 :: c :: d :: tail → ¬Denotes c d byte :=
    fun b rest hb c d tail byte heq => absurd (List.cons.inj heq).1 hb
  have hreads : ReadsAs 43 57 9 := .inr ⟨rfl, .inl (by decide)⟩
  have hread : decodeBytes (Utf8.encode "a%+9b") = Utf8.encode "a\tb" := by
    rw [hbytes, decodeBytes_copy fun _ _ _ _ he => absurd (List.cons.inj he).1 (by decide),
      decodeBytes_escape hreads]
    decide
  refine ⟨?_, Utf8.lossy_encode _, by rw [decode, hread, Utf8.lossy_encode]⟩
  rw [hbytes]
  refine .copy (hother _ _ (by decide)) (.copy ?_ (.copy (hother _ _ (by decide))
    (.copy (hother _ _ (by decide)) (.copy (hother _ _ (by decide)) .nil))))
  intro c d tail byte heq hdenotes
  obtain rfl := (List.cons.inj (List.cons.inj heq).2).1
  obtain ⟨_, _, hdigit, -⟩ := hdenotes
  exact (ne_of_isDigit hdigit).2 rfl

/-! ## Spellings -/

/-- The three bytes of an escape that stands for the byte. -/
def IsEscape (byte : UInt8) (bs : Bytes) : Prop := ∃ a b, Denotes a b byte ∧ bs = [37, a, b]

/-- The ways to write characters: any but the percent sign as it is, and any as the escapes of all
its bytes. -/
inductive Spells : List Char → Bytes → Prop where
  | nil : Spells [] []
  | literal {c : Char} {cs : List Char} {bs : Bytes} (plain : c ≠ '%') (later : Spells cs bs) :
      Spells (c :: cs) (String.utf8EncodeChar c ++ bs)
  | escaped {c : Char} {cs : List Char} {escapes : List Bytes} {bs : Bytes}
      (stand : List.Forall₂ IsEscape (String.utf8EncodeChar c) escapes) (later : Spells cs bs) :
      Spells (c :: cs) (escapes.flatten ++ bs)

/-- No other character has a percent sign among its bytes. -/
private theorem percent_not_mem {c : Char} (h : c ≠ '%') : 37 ∉ String.utf8EncodeChar c := by
  intro hmem
  have hchars : (37 : UInt8) ∈ Utf8.encodeChars [c] := by
    rwa [Utf8.encodeChars_cons, Utf8.encodeChars_nil, List.append_nil]
  have hpercent := Utf8.mem_of_mem_encodeChars hchars (by decide)
  exact h (List.mem_singleton.1 hpercent).symm

/-- Bytes without a percent sign are copied. -/
private theorem Unescapes.behind {bs rest out : Bytes} (hbs : 37 ∉ bs)
    (h : Unescapes Denotes rest out) : Unescapes Denotes (bs ++ rest) (bs ++ out) := by
  induction bs with
  | nil => exact h
  | cons b bs ih =>
    rw [List.mem_cons, not_or] at hbs
    exact .copy (fun _ _ _ _ heq => absurd (List.cons.inj heq).1 (Ne.symm hbs.1)) (ih hbs.2)

/-- The escapes of bytes are replaced by these bytes. -/
private theorem Unescapes.behind_escapes {bytes rest out : Bytes} {escapes : List Bytes}
    (hescapes : List.Forall₂ IsEscape bytes escapes) (h : Unescapes Denotes rest out) :
    Unescapes Denotes (escapes.flatten ++ rest) (bytes ++ out) := by
  induction hescapes with
  | nil => exact h
  | cons hescape _ ih =>
    obtain ⟨a, b, hdenotes, rfl⟩ := hescape
    exact .escape hdenotes ih

/-- The escapes in a spelling stand for the characters that it spells. -/
theorem Spells.unescapes {cs : List Char} {bs : Bytes} (h : Spells cs bs) :
    Unescapes Denotes bs (Utf8.encodeChars cs) := by
  induction h with
  | nil => exact .nil
  | literal plain _ ih =>
    rw [Utf8.encodeChars_cons]
    exact ih.behind (percent_not_mem plain)
  | escaped stand _ ih =>
    rw [Utf8.encodeChars_cons]
    exact ih.behind_escapes stand

private theorem hasSigned_of_behind {bs rest : Bytes} (hbs : 37 ∉ bs)
    (h : HasSigned (bs ++ rest)) : HasSigned rest := by
  induction bs with
  | nil => exact h
  | cons b bs ih =>
    rw [List.mem_cons, not_or] at hbs
    obtain ⟨d, n, hd, hinfix⟩ := h
    rw [List.cons_append, List.infix_cons_iff, List.cons_prefix_cons] at hinfix
    rcases hinfix with ⟨he, -⟩ | hinfix
    · exact absurd he hbs.1
    · exact ih hbs.2 ⟨d, n, hd, hinfix⟩

private theorem hasSigned_of_behind_escapes {bytes rest : Bytes} {escapes : List Bytes}
    (hescapes : List.Forall₂ IsEscape bytes escapes) (h : HasSigned (escapes.flatten ++ rest)) :
    HasSigned rest := by
  induction hescapes with
  | nil => exact h
  | cons hescape _ ih =>
    obtain ⟨a, b, hdenotes, rfl⟩ := hescape
    exact ih (hasSigned_of_escape hdenotes h)

/-- In a spelling each percent sign begins an escape. -/
theorem Spells.not_hasSigned {cs : List Char} {bs : Bytes} (h : Spells cs bs) : ¬HasSigned bs := by
  induction h with
  | nil =>
    rintro ⟨d, n, -, hinfix⟩
    exact absurd (List.infix_nil.1 hinfix) (List.cons_ne_nil _ _)
  | literal plain _ ih => exact fun h => ih (hasSigned_of_behind (percent_not_mem plain) h)
  | escaped stand _ ih => exact fun h => ih (hasSigned_of_behind_escapes stand h)

private theorem decodeBytes_of_spells {cs : List Char} {bs : Bytes} (h : Spells cs bs) :
    decodeBytes bs = Utf8.encodeChars cs :=
  unescapes_decodeBytes (h.unescapes.readsAs h.not_hasSigned)

/-! ## What is written -/

/-- A byte that does not stand for itself is written as its escape. -/
private theorem isEscape_encodeByte {b : UInt8} (h : isPlain b = false) :
    IsEscape b (Utf8.encodeChars (encodeByte b)) := by
  have hb := b.toNat_lt
  obtain ⟨-, -, hhigh⟩ := hexDigit_spec (b.toNat / 16) (by omega)
  obtain ⟨-, -, hlow⟩ := hexDigit_spec (b.toNat % 16) (by omega)
  refine ⟨_, _, ⟨_, _, hexValue?_eq_some.1 hhigh, hexValue?_eq_some.1 hlow, by omega⟩, ?_⟩
  rw [Utf8.encodeChars_of_ascii fun c hc => (ascii_of_mem_encodeByte hc).1, encodeByte, h]
  rfl

/-- A character is written as it is, or as the escapes of all its bytes. -/
private theorem spells_encodeByte (c : Char) :
    c ≠ '%' ∧ Utf8.encodeChars ((String.utf8EncodeChar c).flatMap encodeByte) =
        String.utf8EncodeChar c ∨
      List.Forall₂ IsEscape (String.utf8EncodeChar c)
        ((String.utf8EncodeChar c).map fun b => Utf8.encodeChars (encodeByte b)) := by
  have hescapes : (∀ b ∈ String.utf8EncodeChar c, isPlain b = false) →
      List.Forall₂ IsEscape (String.utf8EncodeChar c)
        ((String.utf8EncodeChar c).map fun b => Utf8.encodeChars (encodeByte b)) := by
    intro h
    rw [List.forall₂_map_right_iff, List.forall₂_same]
    exact fun b hb => isEscape_encodeByte (h b hb)
  rcases Nat.lt_or_ge c.toNat 128 with hlt | hge
  · have hchar : Char.ofNat (UInt8.ofNat c.toNat).toNat = c := by
      rw [UInt8.toNat_ofNat', Nat.mod_eq_of_lt (by omega), Char.ofNat_toNat]
    cases hplain : isPlain (UInt8.ofNat c.toNat) with
    | true =>
      refine .inl ⟨?_, ?_⟩
      · rintro rfl
        exact (plain_spec hplain).2.2 rfl
      · rw [Utf8.utf8EncodeChar_of_lt hlt, List.flatMap_singleton, encodeByte, if_pos hplain, hchar,
          Utf8.encodeChars_cons, Utf8.encodeChars_nil, List.append_nil,
          Utf8.utf8EncodeChar_of_lt hlt]
    | false =>
      refine .inr (hescapes fun b hb => ?_)
      rw [Utf8.utf8EncodeChar_of_lt hlt, List.mem_singleton] at hb
      rwa [hb]
  · refine .inr (hescapes fun b hb => ?_)
    have hbyte := Utf8.le_of_mem_utf8EncodeChar hge hb
    rw [Bool.eq_false_iff]
    exact fun hplain => absurd (plain_spec hplain).1 (by omega)

/-- What is written for an id is one of its spellings. -/
private theorem spells_encode (id : String) : Spells id.toList (Utf8.encode (encode id)) := by
  rw [encode, Utf8.encode_ofList, Utf8.encode_eq_encodeChars]
  induction id.toList with
  | nil => exact .nil
  | cons c cs ih =>
    rw [Utf8.encodeChars_cons, List.flatMap_append, Utf8.encodeChars_append]
    rcases spells_encodeByte c with ⟨hplain, hbytes⟩ | hescapes
    · rw [hbytes]
      exact .literal hplain ih
    · rw [Utf8.encodeChars_flatMap, List.flatMap_def]
      exact .escaped hescapes ih

/-- A scheme in any case is read as the scheme, and has no blank. -/
private theorem exists_scheme {scheme : List Char}
    (h : List.Forall₂ (fun c d => d = c ∨ d = c.toUpper) "cid:".toList scheme) :
    ∃ a b c d, scheme = [a, b, c, d] ∧ [a, b, c, d].map Text.lowerChar = "cid:".toList ∧
      ∀ x ∈ [a, b, c, d], Text.isBlank x = false := by
  have hletter : ∀ c ∈ "cid:".toList, ∀ d, d = c ∨ d = c.toUpper →
      Text.lowerChar d = c ∧ Text.isBlank d = false := by
    have hboth : ∀ c ∈ "cid:".toList, ∀ d ∈ [c, c.toUpper],
        Text.lowerChar d = c ∧ Text.isBlank d = false := by
      simp only [← List.all_iff_forall_prop]
      decide
    exact fun c hc d hd => hboth c hc d (by simpa using hd)
  have hlist : "cid:".toList = ['c', 'i', 'd', ':'] := by decide
  rw [hlist] at h hletter
  simp only [List.forall_mem_cons] at hletter
  obtain ⟨hc, hi, hd, hcolon, -⟩ := hletter
  simp only [List.forall₂_cons_left_iff, List.forall₂_nil_left_iff] at h
  obtain ⟨a, _, ha, ⟨b, _, hb, ⟨c, _, hc', ⟨d, _, hd', rfl, rfl⟩, rfl⟩, rfl⟩, rfl⟩ := h
  refine ⟨a, b, c, d, rfl, ?_, ?_⟩
  · simp only [List.map_cons, List.map_nil, (hc a ha).1, (hi b hb).1, (hd c hc').1,
      (hcolon d hd').1]
    exact hlist.symm
  · simp only [List.forall_mem_cons]
    exact ⟨(hc a ha).2, (hi b hb).2, (hd c hc').2, (hcolon d hd').2, by simp⟩

/-- A reference is read for the id in it whatever the case of its scheme is and whatever blanks are
around it, if the id does not end with one. -/
private theorem ofReference?_around {before scheme after : List Char} {url : String}
    (hbefore : ∀ c ∈ before, Text.isBlank c = true) (hafter : ∀ c ∈ after, Text.isBlank c = true)
    (hscheme : List.Forall₂ (fun c d => d = c ∨ d = c.toUpper) "cid:".toList scheme)
    (hurl : ∀ c ∈ url.toList.getLast?, Text.isBlank c = false) :
    ofReference? (String.ofList (before ++ scheme ++ url.toList ++ after)) = some (decode url) := by
  obtain ⟨a, b, c, d, rfl, hlower, hblank⟩ := exists_scheme hscheme
  have htrim : Text.trimChars (before ++ ([a, b, c, d] ++ url.toList) ++ after) =
      [a, b, c, d] ++ url.toList := by
    refine Text.trimChars_around hbefore hafter (hblank a (List.mem_cons_self ..)) fun x hx => ?_
    change x ∈ ([a, b, c, d] ++ url.toList).getLast? at hx
    rw [List.getLast?_append] at hx
    rcases Option.or_eq_some_iff.1 hx with hx | ⟨-, hx⟩
    · exact hurl x hx
    · exact hblank x (List.mem_of_getLast? hx)
  rw [ofReference?, String.toList_ofList, List.append_assoc before, htrim]
  dsimp only [List.cons_append, List.nil_append]
  rw [if_pos hlower, String.ofList_toList]

/-- The reference names the id: it is a URL of the scheme `cid:`, in capitals or not, with blanks
around it or not, and what its escapes stand for is the id. What the reader would take for one more
escape is not in it. -/
inductive Names : String → String → Prop where
  | intro {before scheme after : List Char} {url : String} {bytes : Bytes}
    (before_blank : ∀ c ∈ before, Text.isBlank c = true)
    (after_blank : ∀ c ∈ after, Text.isBlank c = true)
    (url_last : ∀ c ∈ url.toList.getLast?, Text.isBlank c = false)
    (is_scheme : List.Forall₂ (fun c d => d = c ∨ d = c.toUpper) "cid:".toList scheme)
    (stands_for : Unescapes Denotes (Utf8.encode url) bytes)
    (unsigned : ¬HasSigned (Utf8.encode url)) :
    Names (String.ofList (before ++ scheme ++ url.toList ++ after)) (Utf8.lossy bytes)

/-- A reference in which an id is spelled names the id. -/
theorem names_of_spells {id url : String} (h : Spells id.toList (Utf8.encode url))
    (hurl : ∀ c ∈ url.toList.getLast?, Text.isBlank c = false) : Names ("cid:" ++ url) id := by
  have hscheme : List.Forall₂ (fun c d => d = c ∨ d = c.toUpper) "cid:".toList "cid:".toList :=
    List.forall₂_same.2 fun c _ => .inl rfl
  have hnames : Names (String.ofList ([] ++ "cid:".toList ++ url.toList ++ []))
      (Utf8.lossy (Utf8.encodeChars id.toList)) :=
    .intro (by simp) (by simp) hurl hscheme h.unescapes h.not_hasSigned
  rwa [← Utf8.encode_eq_encodeChars, Utf8.lossy_encode, List.nil_append, List.append_nil,
    String.ofList_append, String.ofList_toList, String.ofList_toList] at hnames

/-- A reference is read for the id that it names. -/
theorem ofReference?_of_names {href id : String} (h : Names href id) :
    ofReference? href = some id := by
  cases h with
  | intro before_blank after_blank url_last is_scheme stands_for unsigned =>
    rw [ofReference?_around before_blank after_blank is_scheme url_last, decode,
      unescapes_decodeBytes (stands_for.readsAs unsigned)]

/-- However a content id is spelled, that id is read. What is written for an id is one of its
spellings, in ASCII and without blanks, so the reference with it names the id. -/
theorem decode_of_spells :
    (∀ id url : String, Spells id.toList (Utf8.encode url) → decode url = id) ∧
      (∀ id : String, Spells id.toList (Utf8.encode (encode id)) ∧
        (∀ c ∈ (encode id).toList, c.toNat < 128 ∧ Text.isBlank c = false) ∧
          ∀ before scheme after : List Char, (∀ c ∈ before ++ after, Text.isBlank c = true) →
            List.Forall₂ (fun c d => d = c ∨ d = c.toUpper) "cid:".toList scheme →
              ofReference? (String.ofList (before ++ scheme ++ (encode id).toList ++ after)) =
                some id) ∧
        Function.Injective encode := by
  have hread : ∀ id url : String, Spells id.toList (Utf8.encode url) → decode url = id := by
    intro id url h
    rw [decode, decodeBytes_of_spells h, ← Utf8.encode_eq_encodeChars, Utf8.lossy_encode]
  refine ⟨hread, fun id => ⟨spells_encode id, fun c => ascii_of_mem_encode, ?_⟩, fun id id' h => ?_⟩
  · intro before scheme after hblank hscheme
    rw [List.forall_mem_append] at hblank
    rw [ofReference?_around hblank.1 hblank.2 hscheme fun c hc =>
      (ascii_of_mem_encode (List.mem_of_getLast? hc)).2,
      hread id (encode id) (spells_encode id)]
  · exact (hread id (encode id) (spells_encode id)).symm.trans
      (hread id' (encode id) (h ▸ spells_encode id'))

theorem decode_of_spells_accent :
    Spells "é%b".toList (Utf8.encode "%c3%A9%25b") ∧ decode "%c3%A9%25b" = "é%b" ∧
      encode "é%b" = "%C3%A9%25b" ∧ ofReference? "\tCiD:%C3%A9%25b\n" = some "é%b" := by
  have haccent : List.Forall₂ IsEscape (String.utf8EncodeChar 'é') [[37, 99, 51], [37, 65, 57]] :=
    .cons ⟨99, 51, ⟨12, 3, .inl (by decide), .inl (by decide), by decide⟩, rfl⟩
      (.cons ⟨65, 57, ⟨10, 9, .inr (by decide), .inl (by decide), by decide⟩, rfl⟩ .nil)
  have hpercent : List.Forall₂ IsEscape (String.utf8EncodeChar '%') [[37, 50, 53]] :=
    .cons ⟨50, 53, ⟨2, 5, .inl (by decide), .inl (by decide), by decide⟩, rfl⟩ .nil
  have hspells : Spells "é%b".toList (Utf8.encode "%c3%A9%25b") :=
    .escaped haccent (.escaped hpercent (.literal (c := 'b') (by decide) .nil))
  have hencode : encode "é%b" = "%C3%A9%25b" := by decide
  have hscheme : List.Forall₂ (fun c d => d = c ∨ d = c.toUpper) "cid:".toList
      ['C', 'i', 'D', ':'] :=
    .cons (by decide) (.cons (by decide) (.cons (by decide) (.cons (by decide) .nil)))
  have hreference := (decode_of_spells.2.1 "é%b").2.2 ['\t'] ['C', 'i', 'D', ':'] ['\n']
    (List.all_iff_forall_prop.1 (by decide)) hscheme
  rw [hencode] at hreference
  exact ⟨hspells, decode_of_spells.1 _ _ hspells, hencode, hreference⟩

end SoapMtom.ContentId
