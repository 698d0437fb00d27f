import Mathlib.Data.List.Forall2
import Mathlib.Data.List.Nodup
import SoapMtom.Proofs.Xml.NameBytes
import SoapMtom.Xml.Writing

/-!
# The prefixes that are declared

A scope is `Sound` when no prefix and no namespace is declared twice and every prefix is the one
kept for its namespace, or one that was made up before. Whatever a tag binds, it only adds prefixes
that are new (`TagScope.Declares`), so soundness is kept and a prefix goes on standing for the same
namespace. Main statement:

> `openTag_spec`: what a tag declares, and under which names it writes its element and its
> attributes.
-/

namespace SoapMtom.Xml

/-- The prefix is the one kept for the namespace, or one of the first `generated` that are made up. -/
def Made (generated : Nat) (p ns : String) : Prop :=
  wellKnownPrefix? ns = some p ∨
    wellKnownPrefix? ns = none ∧ ∃ k < generated, p = "ns" ++ toString (k + 1)

theorem Made.mono {m n : Nat} {p ns : String} (h : Made m p ns) (hmn : m ≤ n) : Made n p ns := by
  rcases h with h | ⟨h, k, hk, hp⟩
  · exact .inl h
  · exact .inr ⟨h, k, Nat.lt_of_lt_of_le hk hmn, hp⟩

/-- The prefixes that are kept for namespaces. -/
theorem mem_wellKnown {ns p : String} (h : wellKnownPrefix? ns = some p) : (ns, p) ∈ wellKnown := by
  rw [wellKnownPrefix?, List.lookup_eq_some_iff] at h
  obtain ⟨before, after, heq, -⟩ := h
  rw [heq]
  simp

/-- Prefixes that are kept are neither reserved nor ever made up. -/
private theorem kept_ne {e : String × String} (he : e ∈ wellKnown) :
    Plain e.2 ∧ e.2 ≠ "xmlns" ∧ e.2.toList.take 2 ≠ ['n', 's'] := by
  have hplain : ∀ p ∈ ["soap", "soap12", "xop", "xmime", "xml"],
      isName p = true ∧ p ≠ "xmlns" ∧ p.toList.take 2 ≠ ['n', 's'] := by
    decide +kernel
  have hmem : e.2 ∈ ["soap", "soap12", "xop", "xmime", "xml"] := by
    simp only [wellKnown, List.mem_cons, List.not_mem_nil, or_false] at he
    rcases he with rfl | rfl | rfl | rfl | rfl <;> simp
  obtain ⟨hname, hne, htake⟩ := hplain e.2 hmem
  exact ⟨plain_of_isName hname, hne, htake⟩

/-- A prefix is kept for one namespace only. -/
private theorem kept_injective {e f : String × String} (he : e ∈ wellKnown) (hf : f ∈ wellKnown)
    (h : e.2 = f.2) : e = f := by
  have hall : ∀ e ∈ wellKnown, ∀ f ∈ wellKnown, e.2 = f.2 → e = f := by
    decide
  exact hall e he f hf h

private theorem take_generated (k : Nat) : ("ns" ++ toString k).toList.take 2 = ['n', 's'] := by
  rw [String.toList_append]
  rfl

/-- No prefix that is made up is kept for a namespace. -/
theorem generated_notMem_kept (k : Nat) : "ns" ++ toString k ∉ wellKnown.map Prod.snd := by
  intro h
  obtain ⟨e, he, hk⟩ := List.mem_map.1 h
  refine (kept_ne he).2.2 ?_
  rw [hk]
  exact take_generated k

namespace Made

variable {generated : Nat} {p ns ns' : String}

theorem plain (h : Made generated p ns) : Plain p := by
  rcases h with h | ⟨-, k, -, rfl⟩
  · exact (kept_ne (mem_wellKnown h)).1
  · exact plain_generated (k + 1)

theorem ne_xmlns (h : Made generated p ns) : p ≠ "xmlns" := by
  rcases h with h | ⟨-, k, -, rfl⟩
  · exact (kept_ne (mem_wellKnown h)).2.1
  · intro he
    have := take_generated (k + 1)
    rw [he] at this
    exact absurd this (by decide)

theorem ne_xml (h : Made generated p ns) (hns : ns ≠ xmlNamespace) : p ≠ "xml" := by
  rcases h with h | ⟨-, k, -, rfl⟩
  · rintro rfl
    have hxml : (xmlNamespace, "xml") ∈ wellKnown := by simp [wellKnown]
    exact hns (congrArg Prod.fst (kept_injective (mem_wellKnown h) hxml rfl))
  · intro he
    have := take_generated (k + 1)
    rw [he] at this
    exact absurd this (by decide)

/-- A prefix that is kept for a namespace is not made for another one. -/
theorem eq_of_kept (h : Made generated p ns) (hkept : wellKnownPrefix? ns' = some p) : ns = ns' := by
  rcases h with h | ⟨-, k, -, rfl⟩
  · exact congrArg Prod.fst (kept_injective (mem_wellKnown h) (mem_wellKnown hkept) rfl)
  · exact absurd (take_generated (k + 1)) (kept_ne (mem_wellKnown hkept)).2.2

end Made

/-- Of the prefixes that are made up, only those from number `m` on and up to number `n` are among
these, and each of them once. -/
structure MadeUp (m n : Nat) (prefixes : List String) : Prop where
  le : m ≤ n
  count_le : ∀ k, prefixes.count ("ns" ++ toString k) ≤ if m < k ∧ k ≤ n then 1 else 0

namespace MadeUp

variable {l m n : Nat} {ps qs : List String}

theorem nil (n : Nat) : MadeUp n n [] := ⟨Nat.le_refl n, fun _ => Nat.zero_le _⟩

theorem append (h : MadeUp l m ps) (h' : MadeUp m n qs) : MadeUp l n (ps ++ qs) := by
  refine ⟨Nat.le_trans h.le h'.le, fun k => ?_⟩
  have hps := h.count_le k
  have hqs := h'.count_le k
  have hl := h.le
  have hm := h'.le
  rw [List.count_append]
  split at hps <;> split at hqs <;> split <;> omega

/-- A prefix that is kept for a namespace is none of them. -/
theorem kept {ns p : String} (h : wellKnownPrefix? ns = some p) (n : Nat) : MadeUp n n [p] := by
  refine ⟨Nat.le_refl n, fun k => ?_⟩
  have hne : p ≠ "ns" ++ toString k := by
    rintro rfl
    exact generated_notMem_kept k (List.mem_map.2 ⟨_, mem_wellKnown h, rfl⟩)
  rw [List.count_singleton, beq_eq_false_iff_ne.2 hne]
  exact Nat.zero_le _

theorem next (n : Nat) : MadeUp n (n + 1) ["ns" ++ toString (n + 1)] := by
  refine ⟨Nat.le_succ n, fun k => ?_⟩
  rw [List.count_singleton]
  split
  · next h =>
    have hk : n + 1 = k := generated_injective (beq_iff_eq.1 h)
    exact Nat.le_of_eq (if_pos (by omega)).symm
  · exact Nat.zero_le _

end MadeUp

/-! ## Sound scopes -/

namespace Scope

/-- The prefix stands for the namespace. -/
def Binds (scope : Scope) (p ns : String) : Prop :=
  (p, ns) ∈ scope.prefixes ∨ p = "xml" ∧ ns = xmlNamespace

/-- No prefix and no namespace is declared twice, every prefix is made as it should be, and the
default namespace is none of those that are written with a prefix. -/
structure Sound (generated : Nat) (scope : Scope) : Prop where
  prefixes_nodup : (scope.prefixes.map Prod.fst).Nodup
  namespaces_nodup : (scope.prefixes.map Prod.snd).Nodup
  made : ∀ e ∈ scope.prefixes, Made generated e.1 e.2 ∧ e.2 ≠ xmlNamespace
  unprefixed : isPrefixed scope.defaultNamespace = false

theorem sound_empty : Sound 0 {} where
  prefixes_nodup := List.nodup_nil
  namespaces_nodup := List.nodup_nil
  made := by simp
  unprefixed := by decide

namespace Sound

variable {generated : Nat} {scope : Scope}

theorem mono (h : scope.Sound generated) {n : Nat} (hn : generated ≤ n) : scope.Sound n :=
  { h with made := fun e he => ⟨(h.made e he).1.mono hn, (h.made e he).2⟩ }

theorem plain (h : scope.Sound generated) {p ns : String} (hb : scope.Binds p ns) : Plain p := by
  rcases hb with hb | ⟨rfl, -⟩
  · exact (h.made _ hb).1.plain
  · exact plain_of_isName (by decide)

theorem ne_xmlns (h : scope.Sound generated) {p ns : String} (hb : scope.Binds p ns) :
    p ≠ "xmlns" := by
  rcases hb with hb | ⟨rfl, -⟩
  · exact (h.made _ hb).1.ne_xmlns
  · decide

/-- A prefix stands for one namespace. -/
theorem binds_functional (h : scope.Sound generated) {p ns ns' : String} (hb : scope.Binds p ns)
    (hb' : scope.Binds p ns') : ns = ns' := by
  have hxml : ∀ u, (p, u) ∈ scope.prefixes → p ≠ "xml" := fun u hu =>
    (h.made _ hu).1.ne_xml (h.made _ hu).2
  rcases hb with hb | ⟨hp, rfl⟩ <;> rcases hb' with hb' | ⟨hp', rfl⟩
  · exact congrArg Prod.snd (List.inj_on_of_nodup_map h.prefixes_nodup hb hb' rfl)
  · exact absurd hp' (hxml _ hb)
  · exact absurd hp (hxml _ hb')
  · rfl

end Sound

theorem prefixFor?_eq_some {scope : Scope} {ns p : String} (h : scope.prefixFor? ns = some p) :
    (p, ns) ∈ scope.prefixes := by
  obtain ⟨e, he, rfl⟩ := Option.map_eq_some_iff.1 h
  have hns : e.2 = ns := by simpa using List.find?_some he
  rw [← hns]
  exact List.mem_of_find?_eq_some he

theorem prefixFor?_eq_none {scope : Scope} {ns : String} (h : scope.prefixFor? ns = none) :
    ns ∉ scope.prefixes.map Prod.snd := by
  rw [prefixFor?, Option.map_eq_none_iff, List.find?_eq_none] at h
  intro hmem
  obtain ⟨e, he, hns⟩ := List.mem_map.1 hmem
  exact h e he (by simpa using hns)

end Scope

/-! ## What a tag declares -/

namespace TagScope

/-- The second tag scope comes from the first by declaring new prefixes, for namespaces that satisfy
`P`. -/
inductive Declares (P : String → Prop) (t : TagScope) : TagScope → Prop where
  | refl : Declares P t t
  | step {t' : TagScope} {generated : Nat} {p ns : String} (before : Declares P t t')
      (counted : MadeUp t'.generated generated [p]) (made : Made generated p ns) (holds : P ns)
      (ne_xml : ns ≠ xmlNamespace) (prefix_new : p ∉ t'.scope.prefixes.map Prod.fst)
      (namespace_new : ns ∉ t'.scope.prefixes.map Prod.snd) :
      Declares P t ({ t' with generated }.declare p ns)

namespace Declares

variable {P : String → Prop} {t t' t'' : TagScope}

theorem trans (h : Declares P t t') (h' : Declares P t' t'') : Declares P t t'' := by
  induction h' with
  | refl => exact h
  | step _ counted made holds ne_xml prefix_new namespace_new ih =>
    exact .step ih counted made holds ne_xml prefix_new namespace_new

theorem generated_le (h : Declares P t t') : t.generated ≤ t'.generated := by
  induction h with
  | refl => exact Nat.le_refl _
  | step _ counted _ _ _ _ _ ih => exact Nat.le_trans ih counted.le

theorem defaultNamespace_eq (h : Declares P t t') :
    t'.scope.defaultNamespace = t.scope.defaultNamespace := by
  induction h with
  | refl => rfl
  | step _ _ _ _ _ _ _ ih => exact ih

theorem sound (h : Declares P t t') (hs : t.scope.Sound t.generated) :
    t'.scope.Sound t'.generated := by
  induction h with
  | refl => exact hs
  | step _ counted made _ ne_xml prefix_new namespace_new ih =>
    refine ⟨List.nodup_cons.2 ⟨prefix_new, ih.prefixes_nodup⟩,
      List.nodup_cons.2 ⟨namespace_new, ih.namespaces_nodup⟩, ?_, ih.unprefixed⟩
    intro e he
    rcases List.mem_cons.1 he with rfl | he
    · exact ⟨made, ne_xml⟩
    · exact (ih.mono counted.le).made e he

/-- A prefix goes on standing for its namespace. -/
theorem binds (h : Declares P t t') {p ns : String} (hb : t.scope.Binds p ns) :
    t'.scope.Binds p ns := by
  induction h with
  | refl => exact hb
  | step _ _ _ _ _ _ _ ih =>
    rcases ih with hmem | hxml
    · exact .inl (List.mem_cons_of_mem _ hmem)
    · exact .inr hxml

/-- What is declared, in the order of the declarations. -/
theorem exists_new (h : Declares P t t') : ∃ new : List (String × String),
    t'.scope.prefixes = new.reverse ++ t.scope.prefixes ∧
      t'.declared = t.declared ++ new.map (fun e => ("xmlns:" ++ e.1, e.2)) ∧
        MadeUp t.generated t'.generated (new.map Prod.fst) := by
  induction h with
  | refl => exact ⟨[], rfl, (List.append_nil _).symm, .nil t.generated⟩
  | @step t' generated p ns _ counted _ _ _ _ _ ih =>
    obtain ⟨new, hprefixes, hdeclared, hcounted⟩ := ih
    refine ⟨new ++ [(p, ns)], ?_, ?_, ?_⟩
    · rw [List.reverse_append]
      exact congrArg ((p, ns) :: ·) hprefixes
    · rw [List.map_append, ← List.append_assoc, ← hdeclared]
      rfl
    · rw [List.map_append]
      exact hcounted.append counted

end Declares

/-- Binding a prefix declares it, unless it stands for the namespace already. -/
theorem bindPrefix_spec {P : String → Prop} {t : TagScope} (hs : t.scope.Sound t.generated)
    {ns : String} (hP : P ns) :
    Declares P t (t.bindPrefix ns).2 ∧
      (t.bindPrefix ns).2.scope.Binds (t.bindPrefix ns).1 ns := by
  unfold bindPrefix
  split
  · next hxml => exact ⟨.refl, .inr ⟨rfl, hxml⟩⟩
  next hxml =>
  split
  · next p hp => exact ⟨.refl, .inl (Scope.prefixFor?_eq_some hp)⟩
  next hnone =>
  have hns := Scope.prefixFor?_eq_none hnone
  split
  · next p hp =>
    -- a prefix kept for this namespace was not made for another
    refine ⟨.step .refl (.kept hp _) (.inl hp) hP hxml ?_ hns, .inl (List.mem_cons_self ..)⟩
    intro hmem
    obtain ⟨e, he, rfl⟩ := List.mem_map.1 hmem
    exact hns (List.mem_map.2 ⟨e, he, (hs.made e he).1.eq_of_kept hp⟩)
  · next hp =>
    -- a new number: no prefix carries it, kept ones have none and made ones a smaller one
    refine ⟨.step .refl (.next _) (.inr ⟨hp, t.generated, Nat.lt_succ_self _, rfl⟩) hP hxml
      ?_ hns, .inl (List.mem_cons_self ..)⟩
    intro hmem
    obtain ⟨e, he, hep⟩ := List.mem_map.1 hmem
    rcases (hs.made e he).1 with hkept | ⟨-, k, hk, hek⟩
    · refine (kept_ne (mem_wellKnown hkept)).2.2 ?_
      rw [hep]
      exact take_generated _
    · rw [hep] at hek
      have := generated_injective hek
      omega

end TagScope

/-! ## Names as they are written -/

namespace Scope

/-- The attribute is written under the name and with the value. -/
def Writes (scope : Scope) (a : Attribute) (written : String × String) : Prop :=
  written.2 = a.value ∧
    match a.ns with
    | none => written.1 = a.name
    | some ns => ∃ p, scope.Binds p ns ∧ written.1 = p ++ ":" ++ a.name

/-- The element is written under the name: with a prefix if its namespace asks for one. -/
def WritesElement (scope : Scope) (ns : Option String) (name written : String) : Prop :=
  match ns.filter isPrefixed with
  | none => written = name
  | some ns => ∃ p, scope.Binds p ns ∧ written = p ++ ":" ++ name

end Scope

namespace TagScope

variable {P : String → Prop}

theorem Declares.writes {t t' : TagScope} (h : Declares P t t') {a : Attribute}
    {written : String × String} (hw : t.scope.Writes a written) : t'.scope.Writes a written := by
  obtain ⟨hvalue, hname⟩ := hw
  refine ⟨hvalue, ?_⟩
  split at hname
  · exact hname
  · obtain ⟨p, hp, hname⟩ := hname
    exact ⟨p, h.binds hp, hname⟩

theorem Declares.writesElement {t t' : TagScope} (h : Declares P t t') {ns : Option String}
    {name written : String} (hw : t.scope.WritesElement ns name written) :
    t'.scope.WritesElement ns name written := by
  unfold Scope.WritesElement at hw ⊢
  split at hw
  · exact hw
  · obtain ⟨p, hp, hname⟩ := hw
    exact ⟨p, h.binds hp, hname⟩

theorem bindAttributes_spec {t : TagScope} (hs : t.scope.Sound t.generated)
    {attributes : List Attribute} (hP : ∀ a ∈ attributes, ∀ ns, a.ns = some ns → P ns) :
    Declares P t (t.bindAttributes attributes).2 ∧
      List.Forall₂ (t.bindAttributes attributes).2.scope.Writes attributes
        (t.bindAttributes attributes).1 := by
  induction attributes generalizing t with
  | nil => exact ⟨.refl, .nil⟩
  | cons a rest ih =>
    have hrest := fun b hb => hP b (List.mem_cons_of_mem _ hb)
    rw [bindAttributes]
    split
    next name t₁ hfirst =>
    have hone : Declares P t t₁ ∧ t₁.scope.Writes a (name, a.value) := by
      unfold Scope.Writes
      cases hns : a.ns with
      | none =>
        rw [hns] at hfirst
        obtain ⟨rfl, rfl⟩ := Prod.mk.inj hfirst
        exact ⟨.refl, rfl, rfl⟩
      | some ns =>
        rw [hns] at hfirst
        obtain ⟨rfl, rfl⟩ := Prod.mk.inj hfirst
        obtain ⟨hd, hb⟩ := bindPrefix_spec hs (hP a (List.mem_cons_self ..) ns hns)
        exact ⟨hd, rfl, _, hb, rfl⟩
    obtain ⟨hd, hw⟩ := hone
    -- what later attributes declare leaves the name of this one as it is
    obtain ⟨hd', hws⟩ := ih (hd.sound hs) hrest
    exact ⟨hd.trans hd', .cons (hd'.writes hw) hws⟩

/-- The scope in which a tag starts to bind, once the default namespace inside it is declared. -/
def start (scope : Scope) (generated : Nat) (inner : String) : TagScope :=
  if inner = scope.defaultNamespace then { scope, declared := [], generated }
  else
    { scope := { scope with defaultNamespace := inner }
      declared := [("xmlns", inner)]
      generated }

theorem start_defaultNamespace (scope : Scope) (generated : Nat) (inner : String) :
    (start scope generated inner).scope.defaultNamespace = inner := by
  unfold start
  split
  · next h => exact h.symm
  · rfl

theorem start_prefixes (scope : Scope) (generated : Nat) (inner : String) :
    (start scope generated inner).scope.prefixes = scope.prefixes := by
  unfold start
  split <;> rfl

theorem start_generated (scope : Scope) (generated : Nat) (inner : String) :
    (start scope generated inner).generated = generated := by
  unfold start
  split <;> rfl

theorem sound_start {scope : Scope} {generated : Nat} {inner : String}
    (hs : scope.Sound generated) (hinner : isPrefixed inner = false) :
    (start scope generated inner).scope.Sound (start scope generated inner).generated := by
  rw [start_generated]
  constructor
  · rw [start_prefixes]
    exact hs.prefixes_nodup
  · rw [start_prefixes]
    exact hs.namespaces_nodup
  · rw [start_prefixes]
    exact hs.made
  · rw [start_defaultNamespace]
    exact hinner

end TagScope

/-- What is handed down is written without a prefix, if what is inherited is. -/
theorem isPrefixed_handedDown (ns : Option String) {inherited : String}
    (h : isPrefixed inherited = false) : isPrefixed (handedDown ns inherited) = false := by
  unfold handedDown
  split
  · split
    · exact h
    · next hns => exact Bool.eq_false_iff.2 hns
  · exact h

namespace TagScope

variable {P : String → Prop}

theorem bindElement_spec {scope : Scope} {generated : Nat} (hs : scope.Sound generated)
    {ns : Option String} (name : String) (hP : ∀ u, ns = some u → isPrefixed u = true → P u) :
    let t := ({ scope, declared := [], generated } : TagScope).bindElement ns name
    Declares P (start scope generated (handedDown ns scope.defaultNamespace)) t.2 ∧
      t.2.scope.WritesElement ns name t.1 := by
  unfold bindElement Scope.WritesElement start handedDown
  cases ns with
  | none => exact ⟨by rw [if_pos rfl]; exact .refl, rfl⟩
  | some u =>
    by_cases hu : isPrefixed u = true
    · obtain ⟨hd, hb⟩ := bindPrefix_spec (t := { scope, declared := [], generated }) hs (hP u rfl hu)
      simp only [hu, if_true, Option.filter_some]
      exact ⟨hd, _, hb, rfl⟩
    · have hu' : isPrefixed u = false := Bool.eq_false_iff.2 hu
      simp only [hu', Bool.false_eq_true, if_false, Option.filter_some]
      split
      · exact ⟨.refl, rfl⟩
      · exact ⟨.refl, rfl⟩

end TagScope

/-- What the tag of an element without attachments declares, and the names that it uses. -/
theorem openTag_spec {P : String → Prop} {scope : Scope} {generated : Nat}
    (hs : scope.Sound generated) (form : AttachmentForm) {ns : Option String} (name : String)
    {attributes : List Attribute} {children : List Node}
    (hnote : contentTypeToNote form attributes children = none)
    (hns : ∀ u, ns = some u → isPrefixed u = true → P u)
    (hattributes : ∀ a ∈ attributes, ∀ u, a.ns = some u → P u) :
    ∃ t written,
      openTag form scope generated ns name attributes children =
          { name := (openTag form scope generated ns name attributes children).name
            attributes := t.declared ++ written, scope := t.scope, generated := t.generated } ∧
        (TagScope.start scope generated (handedDown ns scope.defaultNamespace)).Declares P t ∧
        t.scope.WritesElement ns name
          (openTag form scope generated ns name attributes children).name ∧
        List.Forall₂ t.scope.Writes attributes written := by
  have hstart := TagScope.sound_start hs (isPrefixed_handedDown ns hs.unprefixed)
  obtain ⟨hd, hname⟩ := TagScope.bindElement_spec hs name hns
  obtain ⟨hd', hwritten⟩ := TagScope.bindAttributes_spec (hd.sound hstart) hattributes
  refine ⟨_, _, ?_, hd.trans hd', ?_, hwritten⟩
  · rw [openTag, hnote]
  · have := hd'.writesElement hname
    rw [openTag, hnote]
    exact this

end SoapMtom.Xml
