import SoapMtom.Proofs.Mime.MediaType

/-!
# Parameters in quotes and without

The value of a parameter may stand in quotes, with backslashes before the quotes and backslashes in
it, or as it is, if nothing in it would then be taken for something else. Either way the same value
is read. Main statement:

> `MediaType.parse_rendered`.
-/

namespace SoapMtom.Text

/-- A text without ASCII capitals is in lower case. -/
theorem lower_eq_self {s : String} (h : ∀ c ∈ s.toList, ¬('A' ≤ c ∧ c ≤ 'Z')) : lower s = s := by
  have hchar : ∀ c ∈ s.toList, lowerChar c = c := by
    intro c hc
    have hnot := h c hc
    rw [lowerChar, if_neg]
    simpa using hnot
  rw [lower, List.map_congr_left hchar, List.map_id', String.ofList_toList]

end SoapMtom.Text

namespace SoapMtom.Mime.MediaType

/-- How the value of a parameter is written. -/
inductive ValueForm where
  /-- In quotes, with a backslash before each quote and backslash. -/
  | quoted
  /-- As it is. -/
  | bare
deriving DecidableEq, Repr

/-- A parameter, and the form in which its value is written. -/
structure Parameter where
  form : ValueForm
  name : String
  value : String
deriving DecidableEq, Repr

namespace Parameter

/-- Name and value, as they are listed in a media type. -/
def pair (p : Parameter) : String × String := (p.name, p.value)

/-- The value as it is written. -/
def writtenValue (p : Parameter) : List Char :=
  match p.form with
  | .quoted => '\x22' :: escapeQuoted p.value.toList ++ ['\x22']
  | .bare => p.value.toList

/-- A parameter as it is written after a semicolon. -/
def segment (p : Parameter) : List Char := ' ' :: p.name.toList ++ '=' :: p.writtenValue

/-- A parameter that is read as it was: its name is trimmed, in lower case, and holds nothing that
ends a name, and what a value outside quotes must not hold stands in quotes. -/
structure Plain (p : Parameter) : Prop where
  name_trim : Text.trim p.name = p.name
  name_lower : ∀ c ∈ p.name.toList, ¬('A' ≤ c ∧ c ≤ 'Z')
  name_plain : ∀ c ∈ p.name.toList, c ≠ ';' ∧ c ≠ '\x22' ∧ c ≠ '='
  value_trim : p.form = .bare → Text.trim p.value = p.value
  value_plain : p.form = .bare → ∀ c ∈ p.value.toList, c ≠ ';' ∧ c ≠ '\x22'

instance (p : Parameter) : Decidable p.Plain :=
  have := List.decidableBAll (fun c : Char => ¬('A' ≤ c ∧ c ≤ 'Z')) p.name.toList
  have := List.decidableBAll (fun c : Char => c ≠ ';' ∧ c ≠ '\x22' ∧ c ≠ '=') p.name.toList
  have := List.decidableBAll (fun c : Char => c ≠ ';' ∧ c ≠ '\x22') p.value.toList
  decidable_of_iff (_ ∧ _ ∧ _ ∧ (_ → _) ∧ (_ → _))
    ⟨fun ⟨h₁, h₂, h₃, h₄, h₅⟩ => ⟨h₁, h₂, h₃, h₄, h₅⟩, fun ⟨h₁, h₂, h₃, h₄, h₅⟩ =>
      ⟨h₁, h₂, h₃, h₄, h₅⟩⟩

variable {p : Parameter}

/-- What has no quote in front is no quoted value. -/
private theorem unquote_of_plain {value : List Char} (h : '\x22' ∉ value) :
    unquote value = value := by
  cases value with
  | nil => rfl
  | cons c cs =>
    have hc : c ≠ '\x22' := fun he => h (by rw [he]; exact List.mem_cons_self ..)
    unfold unquote
    split
    · next heq => exact absurd (List.cons.inj heq).1 hc
    · rfl

/-- In quotes a parameter is written as in every media type that is written. -/
private theorem segment_quoted (name value : String) :
    segment { form := .quoted, name, value } = segmentOf (name, value) := by
  simp [segment, writtenValue, segmentOf]

theorem Plain.lower_trim (h : p.Plain) : Text.lower (Text.trim p.name) = p.name := by
  rw [h.name_trim, Text.lower_eq_self h.name_lower]

/-- In either form a parameter is passed as a whole. -/
theorem Plain.isSegment (h : p.Plain) : IsSegment p.segment := by
  obtain ⟨form, name, value⟩ := p
  cases form with
  | quoted =>
    rw [segment_quoted]
    exact isSegment_segmentOf h.name_plain
  | bare =>
    refine isSegment_of_plain fun c hc => ?_
    rw [segment, List.cons_append, List.mem_cons, List.mem_append, List.mem_cons] at hc
    rcases hc with rfl | hc | rfl | hc
    · decide
    · exact ⟨(h.name_plain c hc).1, (h.name_plain c hc).2.1⟩
    · decide
    · exact h.value_plain rfl c hc

/-- In either form a parameter is read as it was. -/
theorem Plain.parameterOf?_segment (h : p.Plain) : parameterOf? p.segment = some p.pair := by
  obtain ⟨form, name, value⟩ := p
  cases form with
  | quoted =>
    rw [segment_quoted]
    exact parameterOf?_segmentOf h.name_plain h.lower_trim
  | bare =>
    have hunquoted : '\x22' ∉ value.toList := fun hmem => (h.value_plain rfl _ hmem).2 rfl
    have hname : '=' ∉ name.toList := fun hmem => (h.name_plain _ hmem).2.2 rfl
    show parameterOf? (' ' :: name.toList ++ '=' :: value.toList) = _
    rw [parameterOf?_named hname h.lower_trim, Text.trimChars_toList (h.value_trim rfl),
      unquote_of_plain hunquoted, String.ofList_toList]
    rfl

end Parameter

/-- A media type as it is written, each of its parameters in the form given. -/
def rendered (essence : String) (ps : List Parameter) : String :=
  essence ++ String.ofList (ps.flatMap fun p => ';' :: p.segment)

/-- The first parameter of a name is the one that is looked up. -/
theorem parameter?_eq_lookup (m : MediaType) (name : String) :
    m.parameter? name = m.parameters.lookup name := by
  obtain ⟨essence, parameters⟩ := m
  rw [parameter?]
  dsimp only
  induction parameters with
  | nil => rfl
  | cons p parameters ih =>
    rw [List.lookup_cons]
    by_cases hname : p.1 = name
    · rw [List.find?_cons_of_pos (by simpa using hname), hname, beq_self_eq_true]
      rfl
    · rw [List.find?_cons_of_neg (by simpa using hname), ih, beq_false_of_ne (Ne.symm hname)]

/-- A media type is read as it was, its essence trimmed and in lower case, whatever stands in the
values of its parameters and whichever of them are in quotes. Of parameters with one name the first
is found. -/
theorem parse_rendered {essence : String} (h : ∀ c ∈ essence.toList, c ≠ ';' ∧ c ≠ '\x22')
    {ps : List Parameter} (hps : ∀ p ∈ ps, p.Plain) :
    parse (rendered essence ps) =
        { essence := Text.lower (Text.trim essence), parameters := ps.map Parameter.pair } ∧
      ∀ name, (parse (rendered essence ps)).parameter? name =
        (ps.map Parameter.pair).lookup name := by
  have hsegments : ∀ s ∈ ps.map Parameter.segment, IsSegment s := by
    rw [List.forall_mem_map]
    exact fun p hp => (hps p hp).isSegment
  have hparameters : (ps.map Parameter.segment).filterMap parameterOf? =
      ps.map Parameter.pair := by
    rw [List.filterMap_map, List.filterMap_congr (g := some ∘ Parameter.pair), List.filterMap_eq_map]
    intro p hp
    exact (hps p hp).parameterOf?_segment
  have hread := parse_segments h hsegments
  rw [List.flatMap_map, hparameters] at hread
  refine ⟨hread, fun name => ?_⟩
  rw [parameter?_eq_lookup, rendered, hread]

/-- Parameters whose values look like more markup: marks of every kind, a backslash at the end, and
a name that comes twice. -/
def awkward : List Parameter :=
  [⟨.quoted, "boundary", "a;b=\x22c\\"⟩, ⟨.bare, "start", "<x=y>\\"⟩, ⟨.quoted, "", " \\\x22"⟩,
    ⟨.bare, "boundary", ""⟩]

theorem parse_rendered_awkward :
    (∀ c ∈ " Multipart/Related ".toList, c ≠ ';' ∧ c ≠ '\x22') ∧ (∀ p ∈ awkward, p.Plain) ∧
      parse (rendered " Multipart/Related " awkward) =
        { essence := "multipart/related", parameters := awkward.map Parameter.pair } ∧
      (parse (rendered " Multipart/Related " awkward)).parameter? "boundary" =
        some "a;b=\x22c\\" := by
  have hall : " Multipart/Related ".toList.all (fun c => c ≠ ';' ∧ c ≠ '\x22') = true := by
    decide +kernel
  have hessence : ∀ c ∈ " Multipart/Related ".toList, c ≠ ';' ∧ c ≠ '\x22' :=
    fun c hc => of_decide_eq_true (List.all_eq_true.1 hall c hc)
  have hplain : ∀ p ∈ awkward, p.Plain := by decide +kernel
  obtain ⟨hparse, hparameter⟩ := parse_rendered hessence hplain
  exact ⟨hessence, hplain, hparse, hparameter "boundary"⟩

end SoapMtom.Mime.MediaType
