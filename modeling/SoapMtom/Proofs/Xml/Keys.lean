import Mathlib.Data.List.TakeWhile
import SoapMtom.Proofs.Outcome
import SoapMtom.Proofs.Xml.Scope
import SoapMtom.Xml.Binding

/-!
# The keys of a tag

A key is split at its first colon, and neither prefixes nor names have one. So every key that a tag
is written with tells whether it declares something, and what; and keys that are written for
different attributes differ. Main statements:

> `Scope.Writes.declaredBy_eq`: an attribute is written under a key that declares nothing.
>
> `nodup_keys`: no key of a tag is written twice.
-/

namespace SoapMtom.Xml

theorem colon_notMem_of_plain {s : String} (h : Plain s) : (58 : UInt8) ∉ Utf8.encode s := by
  intro hmem
  exact absurd (h.2 58 hmem) (by decide)

theorem encode_prefixed (p s : String) :
    Utf8.encode (p ++ ":" ++ s) = Utf8.encode p ++ 58 :: Utf8.encode s := by
  rw [Utf8.encode_append, Utf8.encode_append, List.append_assoc]
  rfl

/-! ## Splitting at the colon -/

theorem splitName_plain {s : String} (h : Plain s) :
    splitName (Utf8.encode s) = (none, Utf8.encode s) := by
  have hall : ∀ b ∈ Utf8.encode s, (b != 58) = true := fun b hb =>
    bne_iff_ne.2 fun he => colon_notMem_of_plain h (he ▸ hb)
  rw [splitName, List.dropWhile_eq_nil_iff.2 hall]

theorem splitName_prefixed {p : String} (h : Plain p) (s : String) :
    splitName (Utf8.encode (p ++ ":" ++ s)) = (some (Utf8.encode p), Utf8.encode s) := by
  have hall : ∀ b ∈ Utf8.encode p, (b != 58) = true := fun b hb =>
    bne_iff_ne.2 fun he => colon_notMem_of_plain h (he ▸ hb)
  rw [encode_prefixed, splitName, List.dropWhile_append_of_pos hall,
    List.takeWhile_append_of_pos hall]
  simp

/-- A prefixed name has one prefix and one name. -/
theorem prefixed_injective {p q s t : String} (hp : Plain p) (hq : Plain q)
    (h : p ++ ":" ++ s = q ++ ":" ++ t) : p = q ∧ s = t := by
  have hsplit := splitName_prefixed hp s
  rw [h, splitName_prefixed hq] at hsplit
  obtain ⟨hpq, hst⟩ := Prod.mk.inj hsplit
  exact ⟨Utf8.encode_injective (Option.some.inj hpq).symm, Utf8.encode_injective hst.symm⟩

theorem ne_prefixed {s : String} (h : (58 : UInt8) ∉ Utf8.encode s) (p t : String) :
    s ≠ p ++ ":" ++ t := by
  rintro rfl
  rw [encode_prefixed] at h
  exact h (List.mem_append_right _ (List.mem_cons_self ..))

/-! ## What a key declares -/

theorem plain_xmlns : Plain "xmlns" := plain_of_isName (by decide)

theorem declaredBy_xmlns : declaredBy (Utf8.encode "xmlns") = .defaultNamespace := by
  decide

theorem declaredBy_xmlns_colon (p : Bytes) :
    declaredBy (Utf8.encode "xmlns" ++ 58 :: p) = .namePrefix p := by
  have hprefix : (Utf8.encode "xmlns").isPrefixOf (Utf8.encode "xmlns" ++ 58 :: p) :=
    List.isPrefixOf_iff_prefix.2 ⟨_, rfl⟩
  rw [declaredBy, Bytes.dropPrefix?, if_pos hprefix, List.drop_left]
  rfl

theorem declaredBy_xmlns_prefix (p : String) :
    declaredBy (Utf8.encode ("xmlns:" ++ p)) = .namePrefix (Utf8.encode p) := by
  have hbytes : Utf8.encode ("xmlns:" ++ p) = Utf8.encode "xmlns" ++ 58 :: Utf8.encode p := by
    rw [Utf8.encode_append]
    rfl
  rw [hbytes, declaredBy_xmlns_colon]

/-- A key that declares nothing is all that is left. -/
private theorem declaredBy_eq_nothing {key : Bytes} (h : key ≠ Utf8.encode "xmlns")
    (hp : ∀ p, key ≠ Utf8.encode "xmlns" ++ 58 :: p) : declaredBy key = .nothing := by
  unfold declaredBy
  split
  · rfl
  · next hd => exact absurd (by simpa using Bytes.eq_of_dropPrefix? hd) h
  · next hd => exact absurd (Bytes.eq_of_dropPrefix? hd) (hp _)
  · rfl

theorem declaredBy_plain {s : String} (h : Plain s) (hne : s ≠ "xmlns") :
    declaredBy (Utf8.encode s) = .nothing := by
  refine declaredBy_eq_nothing (fun he => hne (Utf8.encode_injective he)) fun p he => ?_
  refine colon_notMem_of_plain h ?_
  rw [he]
  simp

theorem declaredBy_prefixed {p : String} (h : Plain p) (hne : p ≠ "xmlns") (s : String) :
    declaredBy (Utf8.encode (p ++ ":" ++ s)) = .nothing := by
  refine declaredBy_eq_nothing (fun he => ?_) fun rest he => ?_
  · exact ne_prefixed (colon_notMem_of_plain plain_xmlns) p s (Utf8.encode_injective he).symm
  · have hxmlns : ∀ b ∈ Utf8.encode "xmlns", (b != 58) = true :=
      List.all_eq_true.1 (by decide)
    have hsplit := splitName_prefixed h s
    rw [he, splitName, List.dropWhile_append_of_pos hxmlns,
      List.takeWhile_append_of_pos hxmlns] at hsplit
    have hp : Utf8.encode "xmlns" = Utf8.encode p := by simpa using (Prod.mk.inj hsplit).1
    exact hne (Utf8.encode_injective hp).symm

/-! ## The keys of attributes -/

/-- An attribute whose name can be written, and would not declare a namespace if it was. -/
def Attribute.Writable (a : Attribute) : Prop :=
  Plain a.name ∧ (a.ns = none → a.name ≠ "xmlns")

namespace Scope

variable {generated : Nat} {scope : Scope} {a a' : Attribute} {w w' : String × String}

theorem Writes.isKey (h : scope.Writes a w) (hs : scope.Sound generated)
    (ha : Plain a.name) : IsKey w.1 := by
  obtain ⟨-, hname⟩ := h
  split at hname
  · rw [hname]
    exact isKey_of_plain ha
  · obtain ⟨p, hp, hname⟩ := hname
    rw [hname]
    exact isKey_prefixed (hs.plain hp) ha

theorem Writes.declaredBy_eq (h : scope.Writes a w) (hs : scope.Sound generated)
    (ha : a.Writable) : declaredBy (Utf8.encode w.1) = .nothing := by
  obtain ⟨-, hname⟩ := h
  split at hname
  · next hns =>
    rw [hname]
    exact declaredBy_plain ha.1 (ha.2 hns)
  · obtain ⟨p, hp, hname⟩ := hname
    rw [hname]
    exact declaredBy_prefixed (hs.plain hp) (hs.ne_xmlns hp) _

/-- A key belongs to one namespace and name, if names have no colon. -/
theorem Writes.injective (hs : scope.Sound generated) (h : scope.Writes a w)
    (h' : scope.Writes a' w') (ha : (58 : UInt8) ∉ Utf8.encode a.name)
    (ha' : (58 : UInt8) ∉ Utf8.encode a'.name) (he : w.1 = w'.1) :
    a.ns = a'.ns ∧ a.name = a'.name := by
  obtain ⟨-, hname⟩ := h
  obtain ⟨-, hname'⟩ := h'
  -- with a prefix or without, on either side
  split at hname <;> split at hname'
  · next hns _ hns' => exact ⟨by rw [hns, hns'], by rw [← hname, ← hname', he]⟩
  · obtain ⟨p, hp, hname'⟩ := hname'
    rw [he, hname'] at hname
    exact absurd hname.symm (ne_prefixed ha p a'.name)
  · obtain ⟨p, hp, hname⟩ := hname
    rw [he, hname'] at hname
    exact absurd hname (ne_prefixed ha' p a.name)
  · next hns _ _ hns' =>
    obtain ⟨p, hp, hname⟩ := hname
    obtain ⟨p', hp', hname'⟩ := hname'
    rw [hname, hname'] at he
    obtain ⟨rfl, hlocal⟩ := prefixed_injective (hs.plain hp) (hs.plain hp') he
    obtain rfl := hs.binds_functional hp hp'
    exact ⟨by rw [hns, hns'], hlocal⟩

theorem WritesElement.isKey {ns : Option String} {name written : String}
    (h : scope.WritesElement ns name written) (hs : scope.Sound generated)
    (hname : Plain name) : IsKey written := by
  unfold WritesElement at h
  split at h
  · rw [h]
    exact isKey_of_plain hname
  · obtain ⟨p, hp, h⟩ := h
    rw [h]
    exact isKey_prefixed (hs.plain hp) hname

end Scope

/-! ## The keys of declarations -/

namespace TagScope

/-- A tag in the making declares no key twice, and only keys of declarations. -/
structure KeysDeclare (t : TagScope) : Prop where
  nodup : (t.declared.map Prod.fst).Nodup
  keys : ∀ d ∈ t.declared, d.1 = "xmlns" ∨ ∃ p ∈ t.scope.prefixes.map Prod.fst, d.1 = "xmlns:" ++ p

theorem keysDeclare_start (scope : Scope) (generated : Nat) (inner : String) :
    (start scope generated inner).KeysDeclare := by
  unfold start
  split
  · exact ⟨List.nodup_nil, by simp⟩
  · exact ⟨by simp, by simp⟩

private theorem declaration_injective {p q : String} (h : "xmlns:" ++ p = "xmlns:" ++ q) :
    p = q := by
  have hp := declaredBy_xmlns_prefix p
  rw [h, declaredBy_xmlns_prefix] at hp
  exact (Utf8.encode_injective (Declared.namePrefix.inj hp)).symm

private theorem xmlns_ne_declaration (p : String) : "xmlns:" ++ p ≠ "xmlns" := by
  intro h
  have hp := declaredBy_xmlns_prefix p
  rw [h, declaredBy_xmlns] at hp
  cases hp

variable {P : String → Prop} {t t' : TagScope}

theorem Declares.keysDeclare (h : Declares P t t') (hk : t.KeysDeclare) : t'.KeysDeclare := by
  induction h with
  | refl => exact hk
  | @step t' _ p ns _ _ _ _ _ prefix_new _ ih =>
    constructor
    · show ((t'.declared ++ [("xmlns:" ++ p, ns)]).map Prod.fst).Nodup
      rw [List.map_append, List.nodup_append]
      refine ⟨ih.nodup, by simp, ?_⟩
      intro key hkey key' hkey' he
      obtain ⟨d, hd, rfl⟩ := List.mem_map.1 hkey
      rw [List.map_singleton, List.mem_singleton] at hkey'
      rw [hkey'] at he
      rcases ih.keys d hd with hx | ⟨q, hq, hx⟩
      · exact xmlns_ne_declaration p (he.symm.trans hx)
      · rw [hx] at he
        exact prefix_new (declaration_injective he ▸ hq)
    · intro d hd
      rcases List.mem_append.1 hd with hd | hd
      · rcases ih.keys d hd with hx | ⟨q, hq, hx⟩
        · exact .inl hx
        · exact .inr ⟨q, List.mem_cons_of_mem _ hq, hx⟩
      · rw [List.mem_singleton] at hd
        subst hd
        exact .inr ⟨p, List.mem_cons_self .., rfl⟩

theorem KeysDeclare.declaredBy_ne (h : t.KeysDeclare) {d : String × String}
    (hd : d ∈ t.declared) : declaredBy (Utf8.encode d.1) ≠ .nothing := by
  rcases h.keys d hd with hx | ⟨p, -, hx⟩
  · rw [hx, declaredBy_xmlns]
    simp
  · rw [hx, declaredBy_xmlns_prefix]
    simp

theorem KeysDeclare.isKey (h : t.KeysDeclare) (hs : t.scope.Sound t.generated)
    {d : String × String} (hd : d ∈ t.declared) : IsKey d.1 := by
  rcases h.keys d hd with hx | ⟨p, hp, hx⟩
  · rw [hx]
    exact isKey_of_plain plain_xmlns
  · obtain ⟨e, he, rfl⟩ := List.mem_map.1 hp
    have hx' : d.1 = "xmlns" ++ ":" ++ e.1 := by
      rw [hx]
      rfl
    rw [hx']
    exact isKey_prefixed plain_xmlns (hs.made e he).1.plain

end TagScope

/-- Attributes that differ in namespace or name are written under different keys. -/
theorem nodup_written {generated : Nat} {scope : Scope} (hs : scope.Sound generated)
    {attributes : List Attribute} {written : List (String × String)}
    (hw : List.Forall₂ scope.Writes attributes written)
    (hnames : ∀ a ∈ attributes, Plain a.name)
    (hnodup : (attributes.map fun a => (a.ns, a.name)).Nodup) : (written.map Prod.fst).Nodup := by
  induction hw with
  | nil => exact List.nodup_nil
  | @cons a w attributes written h hw ih =>
    rw [List.map_cons, List.nodup_cons] at hnodup
    rw [List.map_cons, List.nodup_cons]
    have hrest := fun b hb => hnames b (List.mem_cons_of_mem _ hb)
    refine ⟨fun hmem => hnodup.1 ?_, ih hrest hnodup.2⟩
    obtain ⟨w', hw', he⟩ := List.mem_map.1 hmem
    obtain ⟨b, hb, hbw⟩ := exists_of_forall₂ hw hw'
    have hcolon := colon_notMem_of_plain (hnames a (List.mem_cons_self ..))
    obtain ⟨hns, hname⟩ :=
      h.injective hs hbw hcolon (colon_notMem_of_plain (hrest b hb)) he.symm
    exact List.mem_map.2 ⟨b, hb, Prod.ext hns.symm hname.symm⟩

/-- No key of a tag is written twice, whether it declares something or not. -/
theorem nodup_keys {t : TagScope} (hk : t.KeysDeclare) (hs : t.scope.Sound t.generated)
    {attributes : List Attribute} {written : List (String × String)}
    (hw : List.Forall₂ t.scope.Writes attributes written) (ha : ∀ a ∈ attributes, a.Writable)
    (hnodup : (attributes.map fun a => (a.ns, a.name)).Nodup) :
    ((t.declared ++ written).map Prod.fst).Nodup := by
  rw [List.map_append, List.nodup_append]
  refine ⟨hk.nodup, nodup_written hs hw (fun a h => (ha a h).1) hnodup, ?_⟩
  intro key hkey key' hkey' he
  obtain ⟨d, hd, rfl⟩ := List.mem_map.1 hkey
  obtain ⟨w, hw', rfl⟩ := List.mem_map.1 hkey'
  obtain ⟨a, ha', haw⟩ := exists_of_forall₂ hw hw'
  refine hk.declaredBy_ne hd ?_
  rw [he]
  exact haw.declaredBy_eq hs (ha a ha')

end SoapMtom.Xml
