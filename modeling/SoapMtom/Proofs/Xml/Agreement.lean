import SoapMtom.Proofs.Xml.Escaped
import SoapMtom.Proofs.Xml.Keys
import SoapMtom.Proofs.Xml.TagContent
import SoapMtom.Xml.Event

/-!
# Writer and reader agree on prefixes

The writer keeps a `Scope`, the reader `Bindings`. They agree when every prefix that is declared
stands for the same namespace in both, in the reader as it is written, and so does no prefix at all.
A tag keeps them in agreement, and is read with the names that it was written for and with their
namespaces escaped. Main statement:

> `exists_readStart`: the bindings inside a tag agree with the scope inside it, and under them the
> tag starts the element that it was made for.
-/

namespace SoapMtom.Xml

/-- A namespace for which a prefix can be declared. -/
structure Declarable (ns : String) : Prop where
  ne_empty : ns ≠ ""
  ne_xmlns : ns ≠ xmlnsNamespace

theorem declarable_of_isPrefixed {ns : String} (h : isPrefixed ns = true) : Declarable ns := by
  have hall : ∀ u ∈ [soap11, soap12, xop], u ≠ "" ∧ u ≠ xmlnsNamespace := by
    decide
  have hmem : ns ∈ [soap11, soap12, xop] := by
    simpa [isPrefixed, or_assoc] using h
  obtain ⟨hne, hxmlns⟩ := hall ns hmem
  exact ⟨hne, hxmlns⟩

namespace Bindings

/-! ## Resolving -/

theorem resolve_cons_of_ne {b : Binding} {bindings : Bindings} {p : Option Bytes}
    (h : b.namePrefix ≠ p) : resolve (b :: bindings) p = bindings.resolve p := by
  unfold resolve
  rw [List.find?_cons_of_neg (by simpa using h)]

theorem resolve_cons_prefix {bindings : Bindings} {p uri : Bytes} (h : uri ≠ []) :
    resolve ({ namePrefix := some p, uri } :: bindings) (some p) = .ok uri := by
  unfold resolve
  rw [List.find?_cons_of_pos (by simp)]
  simp [h]

theorem resolve_cons_default {bindings : Bindings} {uri : Bytes} :
    resolve ({ namePrefix := none, uri } :: bindings) none = .ok uri := by
  unfold resolve
  rw [List.find?_cons_of_pos (by simp)]

/-! ## Agreement -/

/-- The bindings resolve every prefix of the scope, and its default namespace. -/
structure Agrees (bindings : Bindings) (scope : Scope) : Prop where
  default_eq : bindings.resolve none = .ok (Utf8.encode (escape scope.defaultNamespace))
  prefix_eq : ∀ p ns, scope.Binds p ns →
    bindings.resolve (some (Utf8.encode p)) = .ok (Utf8.encode (escape ns))

theorem agrees_reserved : reserved.Agrees {} := by
  constructor
  · decide
  · rintro p ns (h | ⟨rfl, rfl⟩)
    · cases h
    · decide

/-- A declared default namespace is what no prefix stands for. -/
theorem Agrees.declare_default {bindings : Bindings} {scope : Scope} (h : bindings.Agrees scope)
    (ns : String) :
    Agrees ({ namePrefix := none, uri := Utf8.encode (escape ns) } :: bindings)
      { scope with defaultNamespace := ns } := by
  refine ⟨resolve_cons_default, fun p u hb => ?_⟩
  rw [resolve_cons_of_ne (by simp)]
  exact h.prefix_eq p u hb

/-- A new prefix takes nothing from the others. -/
theorem Agrees.declare_prefix {bindings : Bindings} {scope : Scope} (h : bindings.Agrees scope)
    {p ns : String} (hns : ns ≠ "") (hxml : p ≠ "xml")
    (hnew : p ∉ scope.prefixes.map Prod.fst) :
    Agrees ({ namePrefix := some (Utf8.encode p), uri := Utf8.encode (escape ns) } :: bindings)
      { scope with prefixes := (p, ns) :: scope.prefixes } := by
  constructor
  · rw [resolve_cons_of_ne (by simp)]
    exact h.default_eq
  · intro q u hb
    have hold : scope.Binds q u → q ≠ p := by
      rintro (hmem | ⟨rfl, -⟩) rfl
      · exact hnew (List.mem_map_of_mem hmem)
      · exact hxml rfl
    have hrest (new : Binding) (hp : new.namePrefix = some (Utf8.encode p))
        (hb : scope.Binds q u) :
        resolve (new :: bindings) (some (Utf8.encode q)) = .ok (Utf8.encode (escape u)) := by
      rw [resolve_cons_of_ne]
      · exact h.prefix_eq q u hb
      · intro he
        rw [hp] at he
        exact hold hb (Utf8.encode_injective (Option.some.inj he)).symm
    rcases hb with hmem | hx
    · rcases List.mem_cons.1 hmem with he | hmem
      · obtain ⟨rfl, rfl⟩ := Prod.mk.inj he
        exact resolve_cons_prefix fun h =>
          hns ((escape_eq_reserved (by simp)).1 (Utf8.encode_eq_nil.1 h))
      · exact hrest _ rfl (.inl hmem)
    · exact hrest _ rfl (.inr hx)

/-! ## Declarations are taken in -/

theorem declare_xmlns (bindings : Bindings) (ns : String) :
    bindings.declare (rawAttribute ("xmlns", ns)) =
      .ok ({ namePrefix := none, uri := Utf8.encode (escape ns) } :: bindings) := by
  rw [declare, rawAttribute, declaredBy_xmlns]

theorem declare_xmlns_prefix {bindings : Bindings} {generated : Nat} {p ns : String}
    (hmade : Made generated p ns) (hxml : ns ≠ xmlNamespace) (h : Declarable ns) :
    bindings.declare (rawAttribute ("xmlns:" ++ p, ns)) =
      .ok ({ namePrefix := some (Utf8.encode p), uri := Utf8.encode (escape ns) } :: bindings) := by
  have hp : Utf8.encode p ≠ Utf8.encode "xml" := fun he =>
    hmade.ne_xml hxml (Utf8.encode_injective he)
  have hp' : Utf8.encode p ≠ Utf8.encode "xmlns" := fun he =>
    hmade.ne_xmlns (Utf8.encode_injective he)
  have hns : Utf8.encode (escape ns) ≠ Utf8.encode xmlNamespace := fun he =>
    hxml ((escape_eq_reserved (by simp)).1 (Utf8.encode_injective he))
  have hns' : Utf8.encode (escape ns) ≠ Utf8.encode xmlnsNamespace := fun he =>
    h.ne_xmlns ((escape_eq_reserved (by simp)).1 (Utf8.encode_injective he))
  have hempty : (Utf8.encode p).isEmpty = false := by
    rw [List.isEmpty_eq_false_iff]
    exact fun he => hmade.plain.1 (Utf8.encode_eq_nil.1 he)
  rw [declare, rawAttribute, declaredBy_xmlns_prefix]
  simp only [if_neg hp, if_neg hp', hns, hns', hempty, decide_false, Bool.or_self,
    Bool.false_eq_true, if_false]

theorem declare_of_nothing {bindings : Bindings} {a : RawAttribute}
    (h : declaredBy a.key = .nothing) : bindings.declare a = .ok bindings := by
  rw [declare, h]

/-- Attributes that declare nothing leave the bindings as they are. -/
theorem foldlM_declare_of_nothing {bindings : Bindings} {attributes : List RawAttribute}
    (h : ∀ a ∈ attributes, declaredBy a.key = .nothing) :
    attributes.foldlM declare bindings = .ok bindings := by
  induction attributes with
  | nil => rfl
  | cons a attributes ih =>
    rw [List.foldlM_cons, declare_of_nothing (h a (List.mem_cons_self ..))]
    exact ih fun b hb => h b (List.mem_cons_of_mem _ hb)

/-- What a tag scope has declared so far leads to bindings that agree with it. -/
def Follows (bindings : Bindings) (t : TagScope) : Prop :=
  ∃ inside : Bindings, (t.declared.map rawAttribute).foldlM declare bindings = .ok inside ∧
    inside.Agrees t.scope

theorem follows_start {bindings : Bindings} {scope : Scope} (h : bindings.Agrees scope)
    (generated : Nat) (inner : String) : bindings.Follows (TagScope.start scope generated inner) := by
  unfold TagScope.start
  split
  · exact ⟨bindings, rfl, h⟩
  · refine ⟨_, ?_, h.declare_default inner⟩
    rw [List.map_singleton, List.foldlM_cons, declare_xmlns]
    rfl

theorem Follows.declares {bindings : Bindings} {t t' : TagScope} (h : bindings.Follows t)
    (hd : t.Declares Declarable t') : bindings.Follows t' := by
  induction hd with
  | refl => exact h
  | @step t' _ p ns _ _ made holds ne_xml prefix_new _ ih =>
    obtain ⟨inside, hinside, hagrees⟩ := ih
    refine ⟨_, ?_, hagrees.declare_prefix holds.ne_empty (made.ne_xml ne_xml) prefix_new⟩
    show ((t'.declared ++ [("xmlns:" ++ p, ns)]).map rawAttribute).foldlM declare bindings = _
    rw [List.map_append, List.foldlM_append, hinside]
    show [rawAttribute ("xmlns:" ++ p, ns)].foldlM declare inside = _
    rw [List.foldlM_cons, declare_xmlns_prefix made ne_xml holds]
    rfl

end Bindings

/-! ## Names are read as they were meant -/

/-- The namespace of an element where `inner` is the default namespace inside it. -/
def expandedNamespace (ns : Option String) (inner : String) : String :=
  (ns.filter isPrefixed).getD inner

theorem expandedNamespace_escape (ns : Option String) (inner : String) :
    expandedNamespace (ns.map escape) (escape inner) = escape (expandedNamespace ns inner) := by
  unfold expandedNamespace
  cases ns with
  | none => rfl
  | some u =>
    rw [Option.map_some, Option.filter_some, Option.filter_some, isPrefixed_escape]
    split <;> rfl

namespace Event

theorem readName_encode (s : String) : readName (Utf8.encode s) = .ok s := by
  rw [readName, Utf8.decode_encode]
  rfl

theorem readText_escape (s : String) : readText (Utf8.encode (escape s)) = .ok s := by
  rw [readText, Utf8.decode_encode]
  show (resolve (escape s)).mapError _ = _
  rw [resolve_escape]
  rfl

theorem readNamespace_of_resolve {bindings : Bindings} {p : Option Bytes} {ns : String}
    (h : bindings.resolve p = .ok (Utf8.encode ns)) : readNamespace bindings p = .ok ns := by
  rw [readNamespace, h]
  exact readName_encode ns

variable {generated : Nat} {scope : Scope} {bindings : Bindings}

theorem readAttribute_of_writes (hagrees : bindings.Agrees scope) (hs : scope.Sound generated)
    {a : Attribute} {w : String × String} (hw : scope.Writes a w) (ha : Plain a.name)
    (element : String) : readAttribute bindings element (rawAttribute w) = .ok a.escaped := by
  obtain ⟨ns, name, value⟩ := a
  obtain ⟨key, written⟩ := w
  obtain ⟨rfl, hname⟩ := hw
  rw [readAttribute, rawAttribute, readText_escape]
  split at hname
  · next hns =>
    obtain rfl : key = name := hname
    obtain rfl : ns = none := hns
    rw [splitName_plain ha]
    show (do let name ← readName (Utf8.encode key); pure _) = _
    rw [readName_encode]
    rfl
  · next u hns =>
    obtain ⟨p, hp, hname⟩ := hname
    obtain rfl : key = p ++ ":" ++ name := hname
    obtain rfl : ns = some u := hns
    rw [splitName_prefixed (hs.plain hp)]
    simp only [readNamespace_of_resolve (hagrees.prefix_eq p u hp)]
    show (do let name ← readName (Utf8.encode name); pure _) = _
    rw [readName_encode]
    rfl

theorem mapM_readAttribute (hagrees : bindings.Agrees scope) (hs : scope.Sound generated)
    {attributes : List Attribute} {written : List (String × String)}
    (hw : List.Forall₂ scope.Writes attributes written)
    (ha : ∀ a ∈ attributes, Plain a.name) (element : String) :
    (written.map rawAttribute).mapM (readAttribute bindings element) =
      .ok (attributes.map Attribute.escaped) := by
  induction hw with
  | nil => rfl
  | cons h _ ih =>
    rw [List.map_cons, List.mapM_cons,
      readAttribute_of_writes hagrees hs h (ha _ (List.mem_cons_self ..)),
      ih fun b hb => ha b (List.mem_cons_of_mem _ hb)]
    rfl

/-- The name of an element stands for the namespace that it was written for. -/
theorem readNamespace_of_writesElement (hagrees : bindings.Agrees scope)
    (hs : scope.Sound generated) {ns : Option String} {name written : String}
    (hw : scope.WritesElement ns name written) (hname : Plain name) :
    ∃ p, splitName (Utf8.encode written) = (p, Utf8.encode name) ∧
      readNamespace bindings p = .ok (escape (expandedNamespace ns scope.defaultNamespace)) := by
  unfold Scope.WritesElement at hw
  unfold expandedNamespace
  split at hw
  · next hns =>
    rw [hw, hns]
    exact ⟨none, splitName_plain hname, readNamespace_of_resolve hagrees.default_eq⟩
  · next u hns =>
    obtain ⟨p, hp, rfl⟩ := hw
    rw [hns]
    exact ⟨_, splitName_prefixed (hs.plain hp) name,
      readNamespace_of_resolve (hagrees.prefix_eq p u hp)⟩

end Event

/-! ## Whole tags -/

/-- An element whose tag is read back: its names can be written, and its attributes differ and
declare nothing. -/
structure Element.Writable (e : Element) : Prop where
  name : Plain e.name
  attributes : ∀ a ∈ e.attributes, a.Writable
  distinct : (e.attributes.map fun a => (a.ns, a.name)).Nodup
  declarable : ∀ a ∈ e.attributes, ∀ ns, a.ns = some ns → Declarable ns

section Tag

variable {t : TagScope} {attributes : List Attribute} {written : List (String × String)}

/-- The attributes of an element declare nothing. -/
theorem declaredBy_of_mem_written (hs : t.scope.Sound t.generated)
    (hw : List.Forall₂ t.scope.Writes attributes written) (ha : ∀ a ∈ attributes, a.Writable) :
    ∀ r ∈ written.map rawAttribute, declaredBy r.key = .nothing := by
  intro r hr
  obtain ⟨w, hmem, rfl⟩ := List.mem_map.1 hr
  obtain ⟨a, hmem', hwrites⟩ := exists_of_forall₂ hw hmem
  exact hwrites.declaredBy_eq hs (ha a hmem')

theorem isKey_of_mem_tag (hs : t.scope.Sound t.generated) (hk : t.KeysDeclare)
    (hw : List.Forall₂ t.scope.Writes attributes written) (ha : ∀ a ∈ attributes, a.Writable) :
    ∀ w ∈ t.declared ++ written, IsKey w.1 := by
  intro w hmem
  rcases List.mem_append.1 hmem with hmem | hmem
  · exact hk.isKey hs hmem
  · obtain ⟨a, hmem', hwrites⟩ := exists_of_forall₂ hw hmem
    exact hwrites.isKey hs (ha a hmem').1

/-- Without its declarations a tag has the attributes of its element. -/
theorem filter_isDeclaration (hs : t.scope.Sound t.generated) (hk : t.KeysDeclare)
    (hw : List.Forall₂ t.scope.Writes attributes written) (ha : ∀ a ∈ attributes, a.Writable) :
    ((t.declared ++ written).map rawAttribute).filter (!Event.isDeclaration ·) =
      written.map rawAttribute := by
  rw [List.map_append, List.filter_append, List.filter_eq_nil_iff.2, List.filter_eq_self.2,
    List.nil_append]
  · intro r hr
    simp [Event.isDeclaration, declaredBy_of_mem_written hs hw ha r hr]
  · intro r hr
    obtain ⟨d, hd, rfl⟩ := List.mem_map.1 hr
    rw [Bool.not_eq_true', Bool.not_eq_false]
    exact decide_eq_true (hk.declaredBy_ne hd)

/-- The declarations of a tag bind what its attributes use. -/
theorem exists_enter {bindings : Bindings} (hs : t.scope.Sound t.generated) (hk : t.KeysDeclare)
    (hw : List.Forall₂ t.scope.Writes attributes written) (ha : ∀ a ∈ attributes, a.Writable)
    (hfollows : bindings.Follows t) {name : String} (hname : IsKey name) :
    ∃ inside : Bindings, bindings.enter (tagBytes name (t.declared ++ written)) = .ok inside ∧
      inside.Agrees t.scope := by
  obtain ⟨inside, hinside, hagrees⟩ := hfollows
  refine ⟨inside, ?_, hagrees⟩
  rw [Bindings.enter, tagAttributes_tagBytes hname (isKey_of_mem_tag hs hk hw ha) (by simp),
    List.map_append, List.foldlM_append, hinside]
  exact Bindings.foldlM_declare_of_nothing (declaredBy_of_mem_written hs hw ha)

/-- Under bindings that agree with its scope a tag starts the element that it was made for. -/
theorem readStart_tagBytes {inside : Bindings} (hs : t.scope.Sound t.generated)
    (hk : t.KeysDeclare) (hagrees : inside.Agrees t.scope) {e : Element} (he : e.Writable)
    (hw : List.Forall₂ t.scope.Writes e.attributes written) {key : String}
    (hname : t.scope.WritesElement e.ns e.name key) :
    Event.readStart inside (tagBytes key (t.declared ++ written)) =
      .ok (.start (escape (expandedNamespace e.ns t.scope.defaultNamespace)) e.name
        (e.attributes.map Attribute.escaped)) := by
  have hkey : IsKey key := hname.isKey hs he.name
  have hnodup := nodup_keys hk hs hw he.attributes he.distinct
  have hread :=
    Event.mapM_readAttribute hagrees hs hw (fun a ha => (he.attributes a ha).1) e.name
  obtain ⟨p, hsplit, hns⟩ := Event.readNamespace_of_writesElement hagrees hs hname he.name
  rw [Event.readStart, tagName_tagBytes hkey,
    tagAttributes_tagBytes hkey (isKey_of_mem_tag hs hk hw he.attributes) fun _ => hnodup, hsplit]
  simp only [filter_isDeclaration hs hk hw he.attributes, hns, Event.readName_encode]
  show (do
    let attributes ← (written.map rawAttribute).mapM (Event.readAttribute inside e.name)
    pure (Event.start _ e.name attributes)) = _
  rw [hread]
  rfl

end Tag

/-- A tag that is written for an element without attachments, in a scope that agrees with the
bindings around it. -/
theorem exists_readStart {scope : Scope} {generated : Nat} {bindings : Bindings} {e : Element}
    (hs : scope.Sound generated) (hagrees : bindings.Agrees scope) (form : AttachmentForm)
    (he : e.Writable)
    (hnote : contentTypeToNote form e.attributes e.children = none) :
    let tag := openTag form scope generated e.ns e.name e.attributes e.children
    let inner := handedDown e.ns scope.defaultNamespace
    (IsKey tag.name ∧ ∀ a ∈ tag.attributes, IsKey a.1) ∧
      (tag.scope.Sound tag.generated ∧ generated ≤ tag.generated ∧
        tag.scope.defaultNamespace = inner) ∧
      ∃ inside : Bindings,
        bindings.enter (tagBytes tag.name tag.attributes) = .ok inside ∧
        inside.Agrees tag.scope ∧
        Event.readStart inside (tagBytes tag.name tag.attributes) =
          .ok (.start (escape (expandedNamespace e.ns inner)) e.name
            (e.attributes.map Attribute.escaped)) := by
  intro tag inner
  have hstart := TagScope.sound_start hs (isPrefixed_handedDown e.ns hs.unprefixed)
  obtain ⟨t, written, htag, hd, hname, hw⟩ := openTag_spec hs form e.name hnote
    (fun _ _ hu => declarable_of_isPrefixed hu) he.declarable
  have hattributes : tag.attributes = t.declared ++ written := congrArg Tag.attributes htag
  have hscope : tag.scope = t.scope := congrArg Tag.scope htag
  have hgenerated : tag.generated = t.generated := congrArg Tag.generated htag
  have ht := hd.sound hstart
  have hk := hd.keysDeclare (TagScope.keysDeclare_start ..)
  have hkey : IsKey tag.name := hname.isKey ht he.name
  have hdefault : t.scope.defaultNamespace = inner := by
    rw [hd.defaultNamespace_eq, TagScope.start_defaultNamespace]
  have hle : generated ≤ t.generated := by
    have := hd.generated_le
    rwa [TagScope.start_generated] at this
  -- the declarations bind what the attributes after them use
  have hfollows := (Bindings.follows_start hagrees generated inner).declares hd
  obtain ⟨inside, henter, hin⟩ := exists_enter ht hk hw he.attributes hfollows hkey
  have hread := readStart_tagBytes ht hk hin he hw hname
  rw [hdefault] at hread
  rw [hscope, hgenerated, hattributes]
  exact ⟨⟨hkey, isKey_of_mem_tag ht hk hw he.attributes⟩, ⟨ht, hle, hdefault⟩, inside,
    henter, hin, hread⟩

end SoapMtom.Xml
