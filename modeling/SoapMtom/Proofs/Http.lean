import SoapMtom.Client
import SoapMtom.Proofs.Outcome
import SoapMtom.Proofs.Text.Encoding

/-!
# The header of a request

A text of printable ASCII is a field value and is read back from it. Fields of the settings are set
on top of those of the library, and leave every field alone that they do not name. Main statements:

> `Http.valueText?_encode`: a printable text is read back from its field.
>
> `Client.exists_requestHeaders`: a request has the content type of its message, unless the settings
> name another.
-/

namespace SoapMtom

namespace Http

/-- A text of visible ASCII characters and spaces. -/
def IsPrintable (s : String) : Prop := ∀ c ∈ s.toList, 32 ≤ c.toNat ∧ c.toNat < 127

instance : DecidablePred IsPrintable :=
  fun s => List.decidableBAll (fun c : Char => 32 ≤ c.toNat ∧ c.toNat < 127) s.toList

theorem IsPrintable.encode {s : String} (h : IsPrintable s) :
    Utf8.encode s = s.toList.map fun c => UInt8.ofNat c.toNat :=
  Utf8.encodeChars_of_ascii fun c hc => Nat.lt_of_lt_of_le (h c hc).2 (by omega)

/-- The bytes of a printable text are those of visible characters and spaces. -/
theorem IsPrintable.of_mem_encode {s : String} (h : IsPrintable s) {b : UInt8}
    (hb : b ∈ Utf8.encode s) : 32 ≤ b.toNat ∧ b.toNat < 127 := by
  rw [h.encode] at hb
  obtain ⟨c, hc, rfl⟩ := List.mem_map.1 hb
  obtain ⟨hlow, hhigh⟩ := h c hc
  rw [UInt8.toNat_ofNat']
  omega

theorem fieldValue?_of_isPrintable {s : String} (h : IsPrintable s) :
    fieldValue? s = some (Utf8.encode s) := by
  have hall : (Utf8.encode s).all isValueByte = true := by
    rw [List.all_eq_true]
    intro b hb
    obtain ⟨hlow, hhigh⟩ := h.of_mem_encode hb
    have hle : (32 : UInt8) ≤ b := UInt8.le_iff_toNat_le.2 hlow
    have hne : b ≠ 127 := by
      rintro rfl
      exact absurd hhigh (by decide)
    simp [isValueByte, hle, hne]
  rw [fieldValue?, hall]
  rfl

/-- The value of a field is its text in bytes. -/
theorem eq_encode_of_fieldValue? {s : String} {value : Bytes} (h : fieldValue? s = some value) :
    value = Utf8.encode s := by
  simp only [fieldValue?] at h
  split at h
  · exact (Option.some.inj h).symm
  · cases h

/-- A printable text is read back from the bytes of its field. -/
theorem valueText?_encode {s : String} (h : IsPrintable s) :
    valueText? (Utf8.encode s) = some s := by
  have hall : (Utf8.encode s).all isVisible = true := by
    rw [List.all_eq_true]
    intro b hb
    obtain ⟨hlow, hhigh⟩ := h.of_mem_encode hb
    have hle : (32 : UInt8) ≤ b := UInt8.le_iff_toNat_le.2 hlow
    have hlt : b < 127 := UInt8.lt_iff_toNat_lt.2 hhigh
    simp [isVisible, hle, hlt]
  have hchars : (Utf8.encode s).map (fun b => Char.ofNat b.toNat) = s.toList := by
    rw [h.encode, List.map_map]
    refine (List.map_congr_left fun c hc => ?_).trans (List.map_id _)
    have hmod : (UInt8.ofNat c.toNat).toNat = c.toNat := by
      have hlt := (h c hc).2
      rw [UInt8.toNat_ofNat']
      omega
    show Char.ofNat (UInt8.ofNat c.toNat).toNat = c
    rw [hmod, Char.ofNat_toNat]
  rw [valueText?, hall, if_pos rfl, hchars, String.ofList_toList]

end Http

/-! ## Fields of the settings -/

namespace Config

/-- Whether the name and the text of an entry are those of a header field. -/
def IsField (entry : String × String) : Prop :=
  Http.isFieldName entry.1 = true ∧ (Http.fieldValue? entry.2).isSome = true

instance (entry : String × String) : Decidable (IsField entry) :=
  inferInstanceAs (Decidable (_ ∧ (Http.fieldValue? entry.2).isSome = true))

/-- What an entry makes of a header. -/
def put (headers : Http.Headers) (entry : String × String) : Http.Headers :=
  headers.insert (Text.lower entry.1) (Utf8.encode entry.2)

theorem setHeader_eq_ok {headers headers' : Http.Headers} {entry : String × String} :
    setHeader headers entry = .ok headers' ↔ IsField entry ∧ headers' = put headers entry := by
  unfold setHeader IsField put
  split
  · next hname =>
    cases hvalue : Http.fieldValue? entry.2 with
    | none => simp
    | some value =>
      obtain rfl := Http.eq_encode_of_fieldValue? hvalue
      simp [hname, eq_comm]
  · next hname => simp [hname]

/-- Entries can be set when each of them is a field, whatever there is before. -/
theorem foldlM_setHeader_eq_ok {entries : List (String × String)} {headers headers' : Http.Headers} :
    entries.foldlM setHeader headers = .ok headers' ↔
      (∀ entry ∈ entries, IsField entry) ∧ headers' = entries.foldl put headers := by
  induction entries generalizing headers with
  | nil =>
    rw [List.foldlM_nil, List.foldl_nil]
    constructor
    · intro h
      exact ⟨List.forall_mem_nil _, (Except.ok.inj h).symm⟩
    · rintro ⟨-, rfl⟩
      rfl
  | cons entry entries ih =>
    rw [List.foldlM_cons, List.foldl_cons, List.forall_mem_cons, bind_eq_ok]
    constructor
    · rintro ⟨middle, hentry, h⟩
      obtain ⟨hfield, rfl⟩ := setHeader_eq_ok.1 hentry
      obtain ⟨hfields, h⟩ := ih.1 h
      exact ⟨⟨hfield, hfields⟩, h⟩
    · rintro ⟨⟨hfield, hfields⟩, h⟩
      exact ⟨_, setHeader_eq_ok.2 ⟨hfield, rfl⟩, ih.2 ⟨hfields, h⟩⟩

/-- Entries change only what they name. -/
theorem get?_foldl_put_of_ne {entries : List (String × String)} {name : String}
    (h : ∀ entry ∈ entries, Text.lower entry.1 ≠ name) (headers : Http.Headers) :
    (entries.foldl put headers).get? name = headers.get? name := by
  induction entries generalizing headers with
  | nil => rfl
  | cons entry entries ih =>
    rw [List.forall_mem_cons] at h
    rw [List.foldl_cons, ih h.2, put, Http.Headers.get?_insert_of_ne _ _ (Ne.symm h.1)]

end Config

/-- A field of the library is set if its text is a value. -/
theorem Client.ownField_eq_ok {field value : String} {bs : Bytes} :
    ownField field value = .ok bs ↔ Http.fieldValue? value = some bs := by
  unfold ownField
  split
  · next h => simp [h]
  · next h => simp [h]

/-- Where the settings are valid and name no content type, a request has that of its message. -/
theorem Client.exists_requestHeaders {c : Client} {contentType action : String}
    (hvalid : ∃ headers, c.config.headerMap = .ok headers)
    (hother : ∀ entry ∈ c.config.httpHeaders.entries, Text.lower entry.1 ≠ "content-type")
    (htype : Http.IsPrintable contentType) (haction : (Http.fieldValue? action).isSome = true)
    (hagent : (Http.fieldValue? c.userAgent).isSome = true) :
    ∃ headers, c.requestHeaders contentType action = .ok headers ∧
      (headers.get? "content-type").bind Http.valueText? = some contentType := by
  obtain ⟨after, hvalid⟩ := hvalid
  obtain ⟨action', haction⟩ := Option.isSome_iff_exists.1 haction
  obtain ⟨agent, hagent⟩ := Option.isSome_iff_exists.1 hagent
  have hfields := (Config.foldlM_setHeader_eq_ok.1 hvalid).1
  refine ⟨_, bind_eq_ok.2 ⟨_, ownField_eq_ok.2 (Http.fieldValue?_of_isPrintable htype),
    bind_eq_ok.2 ⟨_, ownField_eq_ok.2 haction, bind_eq_ok.2 ⟨_, ownField_eq_ok.2 hagent,
      mapError_eq_ok.2 (Config.foldlM_setHeader_eq_ok.2 ⟨hfields, rfl⟩)⟩⟩⟩, ?_⟩
  rw [Config.get?_foldl_put_of_ne hother, Http.Headers.get?_cons, if_pos rfl]
  exact Http.valueText?_encode htype

end SoapMtom
