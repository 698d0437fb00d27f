import SoapMtom.Proofs.Xml.Building
import SoapMtom.Proofs.Xml.Reader

/-!
# What prefixes can stand for

No declaration binds a prefix to the namespace of declarations, and a prefix that is bound to
nothing cannot be used. So whatever a document says, its attributes are in namespaces for which a
prefix can be declared, and none of them would declare one itself. Main statement:

> `Event.proper_of_mem_attributes`.
-/

namespace SoapMtom.Xml

/-- An attribute that declares nothing, in a namespace for which a prefix can be declared if it is
in one. -/
structure Attribute.Proper (a : Attribute) : Prop where
  no_declaration : a.ns = none → a.name ≠ "xmlns"
  declarable : ∀ ns, a.ns = some ns → Declarable ns

/-! ## Names with a prefix and without -/

theorem eq_of_splitName_none {key localName : Bytes} (h : splitName key = (none, localName)) :
    localName = key := by
  unfold splitName at h
  split at h
  · exact (Prod.mk.inj h).2.symm
  · cases h

theorem eq_of_splitName_some {key p localName : Bytes}
    (h : splitName key = (some p, localName)) : key = p ++ 58 :: localName := by
  unfold splitName at h
  split at h
  · cases h
  · next b rest hdrop =>
    obtain ⟨rfl, rfl⟩ : key.takeWhile (· != 58) = p ∧ rest = localName := by simpa using h
    have hb : (b != 58) = false := by
      have hhead := List.head?_dropWhile_not (· != 58) key
      rw [hdrop] at hhead
      simpa using hhead
    obtain rfl : b = 58 := by simpa using hb
    rw [← hdrop, List.takeWhile_append_dropWhile]

/-! ## Bindings -/

namespace Bindings

variable {bindings bindings' : Bindings}

/-- No prefix but its own stands for the namespace of declarations. -/
def Sound (bindings : Bindings) : Prop :=
  ∀ b ∈ bindings, ∀ p, b.namePrefix = some p → b.uri = Utf8.encode xmlnsNamespace →
    p = Utf8.encode "xmlns"

theorem sound_reserved : reserved.Sound := by
  have hne : xmlNamespace ≠ xmlnsNamespace := by decide
  refine List.forall_mem_cons.2 ⟨fun p hp _ => (Option.some.inj hp).symm,
    List.forall_mem_singleton.2 fun p _ huri => ?_⟩
  exact absurd (Utf8.encode_injective huri) hne

/-- A prefix that is declared stands for another namespace. -/
theorem Sound.declare (h : bindings.Sound) {a : RawAttribute}
    (ha : bindings.declare a = .ok bindings') : bindings'.Sound := by
  unfold Bindings.declare at ha
  split at ha
  · cases ha
    exact h
  · cases ha
    exact List.forall_mem_cons.2 ⟨fun p hp => (by cases hp), h⟩
  · split at ha
    · split at ha
      · cases ha
        exact h
      · cases ha
    · split at ha
      · cases ha
      · split at ha
        · cases ha
        · next hreserved =>
          cases ha
          refine List.forall_mem_cons.2 ⟨fun q _ huri => ?_, h⟩
          rw [Bool.or_eq_true, not_or, decide_eq_true_eq, decide_eq_true_eq] at hreserved
          exact absurd huri hreserved.2

theorem Sound.enter (h : bindings.Sound) {tag : Bytes} (ht : bindings.enter tag = .ok bindings') :
    bindings'.Sound :=
  foldlM_invariant (P := Sound) (fun _ _ _ _ hb ha => hb.declare ha) h ht

/-- A prefix that can be used stands for something, and that is not the namespace of declarations
unless the prefix is the reserved one. -/
theorem Sound.of_resolve (h : bindings.Sound) {p uri : Bytes}
    (hr : bindings.resolve (some p) = .ok uri) :
    uri ≠ [] ∧ (uri = Utf8.encode xmlnsNamespace → p = Utf8.encode "xmlns") := by
  unfold resolve at hr
  split at hr
  · next b q hfind hq =>
    obtain rfl := Option.some.inj hq
    split at hr
    · cases hr
    · next hne =>
      cases hr
      refine ⟨by simpa using hne, h b (List.mem_of_find?_eq_some hfind) _ ?_⟩
      simpa using List.find?_some hfind
  · next hq => cases hq
  · cases hr
  · next hq => cases hq

end Bindings

/-- The bindings in force are sound, and so are those to which end tags lead back. -/
structure Scopes.Sound (scopes : Scopes) : Prop where
  bindings : scopes.bindings.Sound
  outside : ∀ t ∈ scopes.opened, t.outside.Sound

/-! ## Events -/

namespace Event

variable {bindings : Bindings}

theorem eq_encode_of_readName {bs : Bytes} {s : String} (h : readName bs = .ok s) :
    bs = Utf8.encode s :=
  Utf8.decode_eq_ok.1 (mapError_eq_ok.1 h)

/-- The namespace of a prefix is not empty, and not that of declarations unless the prefix is the
reserved one. -/
theorem spec_of_readNamespace (h : bindings.Sound) {p : Bytes} {ns : String}
    (hns : readNamespace bindings (some p) = .ok ns) :
    ns ≠ "" ∧ (ns = xmlnsNamespace → p = Utf8.encode "xmlns") := by
  unfold readNamespace at hns
  split at hns
  · next uri huri =>
    obtain ⟨hne, hxmlns⟩ := h.of_resolve huri
    rw [eq_encode_of_readName hns] at hne hxmlns
    exact ⟨fun he => hne (by rw [he]; rfl), fun he => hxmlns (by rw [he])⟩
  · cases hns

theorem proper_of_readAttribute (h : bindings.Sound) {raw : RawAttribute} {a : Attribute}
    {element : String} (hraw : isDeclaration raw = false)
    (ha : readAttribute bindings element raw = .ok a) : a.Proper := by
  have hnothing : declaredBy raw.key = .nothing := by simpa [isDeclaration] using hraw
  obtain ⟨key, rawValue⟩ := raw
  cases hsplit : splitName key with
  | mk namePrefix localName =>
    rw [readAttribute] at ha
    simp only [hsplit] at ha
    obtain ⟨value, -, ha⟩ := bind_eq_ok.1 ha
    cases namePrefix with
    | none =>
      obtain ⟨ns, hns, ha⟩ := bind_eq_ok.1 ha
      obtain ⟨name, hname, ha⟩ := bind_eq_ok.1 ha
      cases hns
      cases ha
      refine ⟨fun _ hxmlns => ?_, fun u hu => (by cases hu)⟩
      obtain rfl : name = "xmlns" := hxmlns
      rw [← eq_of_splitName_none hsplit, eq_encode_of_readName hname, declaredBy_xmlns] at hnothing
      cases hnothing
    | some p =>
      obtain ⟨ns, hns, ha⟩ := bind_eq_ok.1 ha
      obtain ⟨name, -, ha⟩ := bind_eq_ok.1 ha
      cases ha
      cases hread : readNamespace bindings (some p) with
      | error e =>
        rw [hread] at hns
        cases hns
      | ok u =>
        rw [hread] at hns
        cases hns
        obtain ⟨hne, hxmlns⟩ := spec_of_readNamespace h hread
        refine ⟨fun hnone => (by cases hnone), fun v hv => ?_⟩
        obtain rfl := Option.some.inj hv
        refine ⟨hne, fun hu => ?_⟩
        -- a key with this prefix is a declaration
        rw [eq_of_splitName_some hsplit, hxmlns hu, declaredBy_xmlns_colon] at hnothing
        cases hnothing

/-- The attributes that a tag brings are proper. -/
theorem proper_of_readStart (h : bindings.Sound) {tag : Bytes} {event : Event}
    (he : readStart bindings tag = .ok event) : ∀ a ∈ event.attributes, a.Proper := by
  obtain ⟨ns, name, attributes, rfl, hattributes⟩ := exists_start_of_readStart he
  intro a ha
  obtain ⟨raw, hraw, hread⟩ := exists_of_forall₂ (mapM_eq_ok.1 hattributes) ha
  exact proper_of_readAttribute h (by simpa using (List.mem_filter.1 hraw).2) hread

/-- A token keeps the scopes sound, and the attributes that it brings are proper. -/
theorem sound_of_ofToken {total : Nat} {scopes scopes' : Scopes} {token : Token} {rest : Bytes}
    {events : List Event} (hs : scopes.Sound)
    (h : ofToken total scopes token rest = .ok (events, scopes')) :
    scopes'.Sound ∧ ∀ event ∈ events, ∀ a ∈ event.attributes, a.Proper := by
  cases token with
  | start tag =>
    obtain ⟨inside, hinside, h⟩ := bind_eq_ok.1 h
    obtain ⟨event, hevent, h⟩ := bind_eq_ok.1 h
    cases h
    have hsound := hs.bindings.enter (mapError_eq_ok.1 hinside)
    exact ⟨⟨hsound, List.forall_mem_cons.2 ⟨hs.bindings, hs.outside⟩⟩,
      List.forall_mem_singleton.2 (proper_of_readStart hsound hevent)⟩
  | empty tag =>
    obtain ⟨inside, hinside, h⟩ := bind_eq_ok.1 h
    obtain ⟨event, hevent, h⟩ := bind_eq_ok.1 h
    cases h
    have hsound := hs.bindings.enter (mapError_eq_ok.1 hinside)
    exact ⟨hs, List.forall_mem_cons.2 ⟨proper_of_readStart hsound hevent,
      List.forall_mem_singleton.2 (by simp [Event.attributes])⟩⟩
  | stop tag =>
    rw [ofToken] at h
    split at h
    · cases h
    · next innermost opened hopened =>
      split at h
      · cases h
        have hall := hs.outside
        rw [hopened, List.forall_mem_cons] at hall
        exact ⟨⟨hall.1, hall.2⟩, List.forall_mem_singleton.2 (by simp [Event.attributes])⟩
      · cases h
  | text content =>
    obtain ⟨s, -, h⟩ := bind_eq_ok.1 h
    cases h
    exact ⟨hs, List.forall_mem_singleton.2 (by simp [Event.attributes])⟩
  | cdata content =>
    obtain ⟨s, -, h⟩ := bind_eq_ok.1 h
    cases h
    exact ⟨hs, List.forall_mem_singleton.2 (by simp [Event.attributes])⟩
  | comment content | instruction content =>
    cases h
    exact ⟨hs, by simp⟩
  | doctype => cases h

/-- What a document says of attributes is proper. -/
theorem proper_of_mem_attributes {total : Nat} {scanned : Token.Scanned} :
    ∀ event ∈ (ofTokens total scanned).events, ∀ a ∈ event.attributes, a.Proper := by
  have hfrom : ∀ (tokens : List (Token × Bytes)) (scopes : Scopes), scopes.Sound →
      ∀ event ∈ (ofTokensFrom total scopes scanned.failure tokens).events,
        ∀ a ∈ event.attributes, a.Proper := by
    intro tokens
    induction tokens with
    | nil =>
      intro scopes _ event hevent
      cases hevent
    | cons t tokens ih =>
      obtain ⟨token, rest⟩ := t
      intro scopes hs event hevent
      rw [ofTokensFrom] at hevent
      split at hevent
      · cases hevent
      · next events scopes' htoken =>
        obtain ⟨hs', hproper⟩ := sound_of_ofToken hs htoken
        rcases List.mem_append.1 hevent with hevent | hevent
        · exact hproper event hevent
        · exact ih scopes' hs' event hevent
  exact hfrom _ _ ⟨Bindings.sound_reserved, by simp [Scopes.initial]⟩

end Event

end SoapMtom.Xml
